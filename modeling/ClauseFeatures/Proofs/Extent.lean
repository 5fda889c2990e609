import ClauseFeatures.Proofs.Counters
import ClauseFeatures.Proofs.Moment

/-!
How much a run brings. The literals of the clauses that were accepted, all together, bound what extraction
goes through: how many clauses are met and how large they are, the occurrence counts, the number of active
variables, and the populations of long clauses.
-/
namespace ClauseFeatures

variable {K E : Type}

/-! Lists of lists. -/

section Lists

variable {α β γ δ : Type}

theorem length_le_length_flatMap {f : α → List β} {as : List α} (h : ∀ a ∈ as, f a ≠ []) :
    as.length ≤ (as.flatMap f).length := by
  induction as with
  | nil => exact Nat.le_refl 0
  | cons a as ih =>
      have some := List.length_pos_of_ne_nil (h a List.mem_cons_self)
      have rest := ih fun b hb => h b (List.mem_cons_of_mem a hb)
      rw [List.flatMap_cons, List.length_append, List.length_cons]
      omega

theorem length_le_of_mem_flatMap (f : α → List β) {as : List α} {a : α} (h : a ∈ as) :
    (f a).length ≤ (as.flatMap f).length := by
  obtain ⟨before, after, rfl⟩ := List.append_of_mem h
  simp only [List.flatMap_append, List.flatMap_cons, List.length_append]
  omega

theorem length_flatMap_filterMap_le {f : α → Option β} {g : β → List γ} {h : α → List δ}
    (le : ∀ a b, f a = some b → (g b).length ≤ (h a).length) (as : List α) :
    ((as.filterMap f).flatMap g).length ≤ (as.flatMap h).length := by
  induction as with
  | nil => exact Nat.le_refl 0
  | cons a as ih =>
      rw [List.flatMap_cons, List.length_append, List.filterMap_cons]
      split
      · omega
      · rename_i b hb
        have := le a b hb
        rw [List.flatMap_cons, List.length_append]
        omega

end Lists

/-! The literals that a run adds. -/

def Call.literals : Call K → List Literal
  | addClause p => p.lits
  | _ => []

namespace Effect

/-- The literals of the clause that an effect adds and that some list of clauses leads to. -/
def literals (e : Effect K) : List Literal :=
  match e with
  | inline lits _ => lits
  | long c _ _ => if e.isStranded then [] else c.lits
  | _ => []

theorem Answers.literals_eq {e : Effect K} {c : Call K} {answer : Option Nat}
    (h : e.Answers c answer) : e.literals = c.literals := by
  have listed := h.isStranded_eq
  cases h with
  | newVar _ | newVars _ _ | setIncrement _ | inline _ | addMarker _ _ => rfl
  | long lits _ _ _ _ => exact (if_neg (by rw [listed]; decide)).trans lits

theorem literals_of_isStranded {e : Effect K} (h : e.isStranded = true) : e.literals = [] := by
  cases e with
  | grow _ | scale _ | mark _ _ => rfl
  | inline _ _ => cases h
  | long _ _ _ => exact if_pos h

theorem literals_of_irredLong {e : Effect K} {p : Clause K × Nat} (h : e.irredLong? = some p) :
    e.literals = p.1.lits := by
  cases e with
  | grow _ | scale _ | mark _ _ | inline _ _ => cases h
  | long c _ tier =>
      simp only [irredLong?] at h
      split at h
      · cases h
      · rename_i red
        cases h
        cases tier with
        | none => exact if_neg red
        | some _ => rfl

theorem literals_of_tierLong {t : Nat} {e : Effect K} {p : Clause K × Nat}
    (h : e.tierLong? t = some p) : e.literals = p.1.lits := by
  cases e with
  | grow _ | scale _ | mark _ _ | inline _ _ => cases h
  | long c _ _ =>
      simp only [tierLong?] at h
      split at h
      · rename_i listed
        cases h
        subst listed
        rfl
      · cases h

end Effect

namespace Database

section Quantity

variable [Quantity K]

/-- The literals of all clauses that the accepted calls of a run added. -/
def added (db : Database K) (calls : List (Call K)) : List Literal :=
  (db.history calls).flatMap fun a => a.1.literals

variable {vars : Nat} {es : List (Effect K)} {db : Database K}

theorem added_eq (h : Built vars es db) (calls : List (Call K)) :
    db.added calls = (db.effects calls).flatMap Effect.literals := by
  have kept := map_eq_of_forall₂ (answers_history h calls) fun _ _ ha => ha.literals_eq
  rw [added, List.flatMap_def, ← kept, ← List.flatMap_def]
  induction db.effects calls with
  | nil => rfl
  | cons e es ih =>
      rw [List.filter_cons, List.flatMap_cons]
      cases stranded : e.isStranded with
      | false =>
          simp only [Bool.not_false, ite_true, List.flatMap_cons]
          rw [ih]
      | true =>
          simp only [Bool.not_true, Bool.false_eq_true, ite_false]
          rw [ih, Effect.literals_of_isStranded stranded, List.nil_append]

end Quantity

section Traversal

variable [Arithmetic K E] (vars : Nat) {calls : List (Call K)}

theorem length_views_flatMap_le (unmarked : ∀ a ∈ (empty vars).history calls, a.1.isMarker = false) :
    (((empty vars).run calls).traversal.views.flatMap ClauseView.lits).length ≤
      ((empty vars : Database K).added calls).length := by
  have reordered := (List.mergeSort_perm
      (((empty vars).history calls).filterMap fun a => a.1.irredundant?)
      fun a b => ownerCode a ≤ ownerCode b).flatMap fun lits _ => perm_viewOf lits
  rw [traversal_history vars unmarked, List.flatMap_map, sortByKey, reordered.length_eq]
  refine length_flatMap_filterMap_le (fun a lits h => ?_) _
  obtain ⟨call, answer⟩ := a
  cases call with
  | addClause p =>
      simp only [Call.irredundant?] at h
      split at h
      · cases h
      · exact (congrArg List.length (Option.some.inj h)).ge
  | newVar | newVars _ | setIncrement _ | addMarker _ _ => cases h

theorem view_bounds (unmarked : ∀ a ∈ (empty vars).history calls, a.1.isMarker = false) {most : ℕ}
    (few : ((empty vars : Database K).added calls).length ≤ most) :
    ((empty vars).run calls).traversal.views.length ≤ most ∧
      ∀ v ∈ ((empty vars).run calls).traversal.views, v.size ≤ most := by
  have total := (length_views_flatMap_le vars unmarked).trans few
  refine ⟨(length_le_length_flatMap fun v hv none => ?_).trans total,
    fun v hv => (length_le_of_mem_flatMap ClauseView.lits hv).trans total⟩
  have size := two_le_of_mem_views vars unmarked v hv
  rw [ClauseView.size, none] at size
  exact absurd size (by decide)

/-- A population of long clauses has no more literals than were added. -/
theorem population_bounds {f : Effect K → Option (Clause K × Nat)}
    (listed : ∀ e p, f e = some p → e.literals = p.1.lits)
    (long : ∀ e p, f e = some p → ∃ tier, e = .long p.1 p.2 tier) {most : ℕ}
    (few : ((empty vars : Database K).added calls).length ≤ most) :
    let bodies := ((empty vars).effects calls).filterMap fun e => (f e).map Prod.fst
    bodies.length ≤ most ∧
      ∀ c ∈ bodies, c.size ≤ most ∧ c ∈ ((empty vars).run calls).store.bodies := by
  intro bodies
  have built := built_run vars calls
  have total : (bodies.flatMap Clause.lits).length ≤ most := by
    rw [added_eq .empty calls] at few
    refine (length_flatMap_filterMap_le (fun e c h => ?_) _).trans few
    obtain ⟨p, hp, rfl⟩ := Option.map_eq_some_iff.mp h
    rw [listed e p hp]
  have origin (c : Clause K) (hc : c ∈ bodies) :
      ∃ offset tier, .long c offset tier ∈ (empty vars).effects calls := by
    obtain ⟨e, he, h⟩ := List.mem_filterMap.mp hc
    obtain ⟨p, hp, rfl⟩ := Option.map_eq_some_iff.mp h
    obtain ⟨tier, rfl⟩ := long e p hp
    exact ⟨p.2, tier, he⟩
  refine ⟨(length_le_length_flatMap fun c hc none => ?_).trans total, fun c hc =>
    ⟨(length_le_of_mem_flatMap Clause.lits hc).trans total, ?_⟩⟩
  · obtain ⟨_, _, he⟩ := origin c hc
    have size := (built.fits _ he).2
    rw [none] at size
    exact absurd size (by decide)
  · obtain ⟨_, _, he⟩ := origin c hc
    exact Array.mem_of_getElem? (built.store_get he)

end Traversal

end Database

/-! Occurrence counts. -/

namespace Occurrences

theorem bounds_of_mem_tally {lits : List Literal} {vars : ℕ} {n : ℤ}
    (h : n ∈ tally lits (List.replicate vars 0)) : 0 ≤ n ∧ n ≤ lits.length := by
  obtain ⟨i, inside, rfl⟩ := List.mem_mapIdx.mp h
  have le : (lits.countP fun l => l.var = i) ≤ lits.length := List.countP_le_length
  rw [List.getElem_replicate]
  omega

theorem countP_bump_le (counts : List ℤ) (var : ℕ) :
    (bump counts var).countP (· ≠ 0) ≤ counts.countP (· ≠ 0) + 1 := by
  induction counts generalizing var with
  | nil => simp [bump]
  | cons n counts ih =>
      cases var with
      | zero =>
          simp only [bump, List.modify_zero_cons, List.countP_cons]
          split <;> omega
      | succ var =>
          have := ih var
          simp only [bump, List.modify_succ_cons, List.countP_cons] at this ⊢
          omega

/-- Each literal makes at most one more variable active. -/
theorem countP_tally_le (lits : List Literal) (counts : List ℤ) :
    (tally lits counts).countP (· ≠ 0) ≤ counts.countP (· ≠ 0) + lits.length := by
  induction lits generalizing counts with
  | nil => rw [tally_nil]; exact Nat.le_add_right _ _
  | cons l lits ih =>
      have step := countP_bump_le counts l.var
      have rest := ih (bump counts l.var)
      rw [tally_cons, List.length_cons]
      omega

theorem countable_ofViews (vars : ℕ) {views : List ClauseView}
    (few : (views.flatMap ClauseView.lits).length ≤ 2 ^ 53) : (ofViews vars views).Countable := by
  have counted {lits : List Literal} (sub : lits.length ≤ (views.flatMap ClauseView.lits).length)
      {n : ℤ} (h : n ∈ tally lits (List.replicate vars 0)) : IsCount n := by
    obtain ⟨nonneg, le⟩ := bounds_of_mem_tally h
    exact ⟨nonneg, le.trans (by exact_mod_cast sub.trans few)⟩
  have lengths (ls ms : List Literal) :
      (tally ls (List.replicate vars 0)).length = (tally ms (List.replicate vars 0)).length := by
    rw [length_tally, length_tally]
  refine ⟨lengths _ _, lengths _ _, fun n h => counted le_rfl h,
    fun n h => counted (List.length_filter_le _ _) h, fun n h => counted ?_ h, ?_⟩
  · exact ((List.filter_sublist (l := views)).flatMap ClauseView.lits).length_le
  · have none : (List.replicate vars (0 : ℤ)).countP (· ≠ 0) = 0 := by simp
    have some := countP_tally_le (views.flatMap ClauseView.lits) (List.replicate vars 0)
    rw [none, Nat.zero_add] at some
    exact some.trans few

end Occurrences

end ClauseFeatures
