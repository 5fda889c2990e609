import Mathlib.Data.List.Perm.Basic
import ClauseFeatures.Proofs.Counters
import ClauseFeatures.Proofs.Marker

/-!
Lists whose members correspond one to one, in any order. The clauses that a traversal meets correspond in
this sense to the accepted calls, with the literals of each in another order; what only counts clauses or
literals is the same for clauses that correspond so.
-/
namespace ClauseFeatures

variable {α β γ : Type}

theorem forall₂_trans {R : α → β → Prop} {S : β → γ → Prop} {T : α → γ → Prop} {as : List α}
    {bs : List β} {cs : List γ} (h : List.Forall₂ R as bs) (h' : List.Forall₂ S bs cs)
    (hT : ∀ a b c, R a b → S b c → T a c) : List.Forall₂ T as cs := by
  induction h generalizing cs with
  | nil =>
      cases h'
      exact .nil
  | cons hab _ ih =>
      cases h' with
      | cons hbc h' => exact .cons (hT _ _ _ hab hbc) (ih h')

/-- The members of the first list, taken in some order, are related one by one to those of the second. -/
def Corresponds (R : α → β → Prop) (as : List α) (bs : List β) : Prop :=
  ∃ ms, as.Perm ms ∧ List.Forall₂ R ms bs

namespace Corresponds

variable {R : α → β → Prop} {as : List α} {bs : List β}

theorem imp {S : α → β → Prop} (h : Corresponds R as bs) (hRS : ∀ a b, R a b → S a b) :
    Corresponds S as bs := by
  obtain ⟨ms, perm, related⟩ := h
  exact ⟨ms, perm, related.imp @hRS⟩

theorem symm (h : Corresponds R as bs) : Corresponds (fun b a => R a b) bs as := by
  obtain ⟨ms, perm, related⟩ := h
  obtain ⟨ns, related, perm⟩ := List.perm_comp_forall₂ perm related
  exact ⟨ns, perm.symm, related.flip⟩

theorem trans {S : β → γ → Prop} {T : α → γ → Prop} {cs : List γ} (h : Corresponds R as bs)
    (h' : Corresponds S bs cs) (hT : ∀ a b c, R a b → S b c → T a c) : Corresponds T as cs := by
  obtain ⟨ms, perm, related⟩ := h
  obtain ⟨ns, perm', related'⟩ := h'
  obtain ⟨ls, related, perm'⟩ := List.perm_comp_forall₂ perm'.symm related.flip
  exact ⟨ls, perm.trans perm'.symm, forall₂_trans related.flip related' hT⟩

theorem self_map (f : α → β) (as : List α) : Corresponds (fun a b => f a = b) as (as.map f) := by
  refine ⟨as, .refl as, ?_⟩
  rw [List.forall₂_map_right_iff, List.forall₂_same]
  exact fun _ _ => rfl

theorem map_perm {f : α → γ} {g : β → γ} (h : Corresponds R as bs) (hfg : ∀ a b, R a b → f a = g b) :
    (as.map f).Perm (bs.map g) := by
  obtain ⟨ms, perm, related⟩ := h
  exact map_eq_of_forall₂ related hfg ▸ perm.map f

theorem flatMap_perm {f : α → List γ} {g : β → List γ} (h : Corresponds R as bs)
    (hfg : ∀ a b, R a b → (f a).Perm (g b)) : (as.flatMap f).Perm (bs.flatMap g) := by
  obtain ⟨ms, perm, related⟩ := h
  refine (perm.flatMap_right f).trans ?_
  clear perm
  induction related with
  | nil => exact .nil
  | cons hab _ ih => exact (hfg _ _ hab).append ih

theorem countP_eq {p : α → Bool} {q : β → Bool} (h : Corresponds R as bs)
    (hpq : ∀ a b, R a b → p a = q b) : as.countP p = bs.countP q := by
  obtain ⟨ms, perm, related⟩ := h
  rw [perm.countP_eq]
  exact countP_eq_of_forall₂ related fun a _ => hpq a

theorem filter {p : α → Bool} {q : β → Bool} (h : Corresponds R as bs)
    (hpq : ∀ a b, R a b → p a = q b) : Corresponds R (as.filter p) (bs.filter q) := by
  obtain ⟨ms, perm, related⟩ := h
  refine ⟨ms.filter p, perm.filter p, ?_⟩
  clear perm
  induction related with
  | nil => exact .nil
  | @cons a b ms bs hab _ ih =>
      rw [List.filter_cons, List.filter_cons, hpq a b hab]
      cases q b with
      | false => exact ih
      | true => exact .cons hab ih

/-- What is picked out of related members corresponds, if it is picked out of both or of neither. -/
theorem filterMap {δ : Type} {S : γ → δ → Prop} {f : α → Option γ} {g : β → Option δ}
    (h : Corresponds R as bs) (hfg : ∀ a b, R a b → Option.Rel S (f a) (g b)) :
    Corresponds S (as.filterMap f) (bs.filterMap g) := by
  obtain ⟨ms, perm, related⟩ := h
  refine ⟨ms.filterMap f, perm.filterMap f, ?_⟩
  clear perm
  induction related with
  | nil => exact .nil
  | @cons a b ms bs hab _ ih =>
      rw [List.filterMap_cons, List.filterMap_cons]
      have picked := hfg a b hab
      generalize f a = x at picked
      generalize g b = y at picked
      cases picked with
      | some hxy => exact .cons hxy ih
      | none => exact ih

theorem length_eq (h : Corresponds R as bs) : as.length = bs.length := by
  obtain ⟨ms, perm, related⟩ := h
  rw [perm.length_eq, related.length_eq]

end Corresponds

/-! Counts of clauses that correspond. -/

namespace ClauseView

variable {v w : ClauseView}

theorem size_eq_of_perm (h : v.lits.Perm w.lits) : v.size = w.size := h.length_eq

theorem isHorn_eq_of_perm (h : v.lits.Perm w.lits) : v.isHorn = w.isHorn := by
  rw [isHorn, isHorn, pos, pos, h.countP_eq]

end ClauseView

namespace Occurrences

theorem tally_perm {ls ms : List Literal} (h : ls.Perm ms) (counts : List Int) :
    tally ls counts = tally ms counts := by
  simp only [tally, h.countP_eq]

/-- Neither the order of clauses nor that of their literals is counted. -/
theorem ofViews_eq_of_corresponds {vs ws : List ClauseView}
    (h : Corresponds (fun v w => v.lits.Perm w.lits) vs ws) (vars : Nat) :
    ofViews vars vs = ofViews vars ws := by
  have horn := h.filter fun _ _ hvw => ClauseView.isHorn_eq_of_perm hvw
  have all := h.flatMap_perm fun _ _ hvw => hvw
  simp only [ofViews, addClauses, tally_perm all, tally_perm (all.filter _),
    tally_perm (horn.flatMap_perm fun _ _ hvw => hvw),
    h.countP_eq fun _ _ hvw => ClauseView.isHorn_eq_of_perm hvw]

end Occurrences

theorem Built.ofDatabase_eq {K : Type} [Quantity K] {vars : Nat} {es : List (Effect K)} {db : Database K}
    (h : Built vars es db) (unmarked : ∀ e ∈ es, e.isMark = false) :
    Occurrences.ofDatabase db = .ok (.ofViews db.vars db.traversal.views) := by
  have finished : db.traversal.failure = none :=
    congrArg Traversal.failure (h.traversal_eq unmarked)
  rw [Occurrences.ofDatabase_eq h.views_existing, finished]
  rfl

namespace Database

variable {K E : Type} [Arithmetic K E] (vars : Nat) {calls : List (Call K)}

/-- A traversal meets the clauses that were accepted. -/
theorem views_correspond (unmarked : ∀ a ∈ (empty vars).history calls, a.1.isMarker = false) :
    Corresponds (fun lits v => v.lits.Perm lits)
      (((empty vars).history calls).filterMap fun a => a.1.irredundant?)
      ((empty vars).run calls).traversal.views := by
  rw [traversal_history vars unmarked]
  have sorted := List.mergeSort_perm (((empty vars).history calls).filterMap fun a => a.1.irredundant?)
    fun a b => decide (ownerCode a ≤ ownerCode b)
  refine ⟨_, sorted.symm, ?_⟩
  show List.Forall₂ _ _ (List.map viewOf _)
  rw [List.forall₂_map_right_iff, sortByKey, List.forall₂_same]
  exact fun lits _ => perm_viewOf lits

theorem ofDatabase_run (unmarked : ∀ a ∈ (empty vars).history calls, a.1.isMarker = false) :
    Occurrences.ofDatabase ((empty vars).run calls) =
      .ok (.ofViews ((empty vars).run calls).vars ((empty vars).run calls).traversal.views) :=
  (built_run vars calls).ofDatabase_eq (isMark_of_history unmarked)

section Counters

variable [Element E] {db db' : Database K}

theorem irredCount_eq_length (met : db.Met) : db.irredCount = db.traversal.views.length := by
  rw [met.visited false, countP_visits]

variable (met : db.Met) (met' : db'.Met)
  (same : Corresponds (fun v w : ClauseView => v.size = w.size) db.traversal.views db'.traversal.views)

include met met' same

/-- Databases whose traversals meet clauses of the same sizes have counted the same. -/
theorem counters_eq : db.inline.irredBinary = db'.inline.irredBinary ∧
    db.inline.irredTernary = db'.inline.irredTernary ∧ db.irredCount = db'.irredCount := by
  have sized (n : Nat) := same.countP_eq (p := fun v => v.size = n) (q := fun v => v.size = n)
    fun v w hvw => by rw [hvw]
  refine ⟨?_, ?_, ?_⟩
  · rw [met.binary, met'.binary, sized 2]
  · rw [met.ternary, met'.ternary, sized 3]
  · rw [irredCount_eq_length met, irredCount_eq_length met', same.length_eq]

end Counters

end Database

end ClauseFeatures
