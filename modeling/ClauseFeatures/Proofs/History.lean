import Mathlib.Data.List.Forall2
import ClauseFeatures.Proofs.Built

/-!
The history of a run beside its effects. The accepted calls answer one by one to the effects that are not
stranded, so what is owed to the accepted calls is what the effects hold.
-/
namespace ClauseFeatures

variable {K : Type}

/-- The entries owed to an accepted call with its answer, each with the literal in whose list it belongs.
A long clause answers with its offset. -/
def Call.owed : Call K → Option Nat → List (Literal × Watch)
  | .addClause p, answer => placementsOf p.lits p.red answer
  | .addMarker l index, _ => [(l, .markerOf index)]
  | _, _ => []

namespace Effect

/-- Whether an effect leaves a redundant long clause that no tier lists. -/
def isStranded : Effect K → Bool
  | long c _ none => c.red
  | _ => false

def isMark : Effect K → Bool
  | mark _ _ => true
  | _ => false

def irredundant? : Effect K → Option (List Literal)
  | inline lits red => if red then none else some lits
  | long c _ _ => if c.red then none else some c.lits
  | _ => none

variable {e : Effect K} {c : Call K} {answer : Option Nat}

theorem Answers.isStranded_eq (h : e.Answers c answer) : e.isStranded = false := by
  cases h with
  | newVar _ | newVars _ _ | setIncrement _ | inline _ | addMarker _ _ => rfl
  | @long p c tier _ _ listed _ _ =>
      cases tier with
      | none => exact listed.symm
      | some _ => rfl

theorem Answers.isMark_eq (h : e.Answers c answer) : e.isMark = c.isMarker := by
  cases h <;> rfl

theorem Answers.owed_eq (h : e.Answers c answer) : c.owed answer = e.placements := by
  cases h with
  | newVar _ | newVars _ _ | setIncrement _ | inline _ | addMarker _ _ => rfl
  | long lits red _ _ _ => rw [Call.owed, Effect.placements, lits, red]

theorem Answers.irredundant_eq (h : e.Answers c answer) : e.irredundant? = c.irredundant? := by
  cases h with
  | newVar _ | newVars _ _ | setIncrement _ | inline _ | addMarker _ _ => rfl
  | long lits red _ _ _ => rw [Effect.irredundant?, Call.irredundant?, lits, red]

theorem irredundant_of_isStranded (h : e.isStranded = true) : e.irredundant? = none := by
  unfold isStranded at h
  split at h
  · rw [irredundant?, if_pos h]
  · cases h

end Effect

theorem map_eq_of_forall₂ {α β γ : Type} {R : α → β → Prop} {f : α → γ} {g : β → γ} {as : List α}
    {bs : List β} (h : List.Forall₂ R as bs) (hfg : ∀ a b, R a b → f a = g b) :
    as.map f = bs.map g := by
  induction h with
  | nil => rfl
  | cons hab _ ih => rw [List.map_cons, List.map_cons, hfg _ _ hab, ih]

theorem exists_of_forall₂ {α β : Type} {R : α → β → Prop} {as : List α} {bs : List β}
    (h : List.Forall₂ R as bs) : ∀ b ∈ bs, ∃ a ∈ as, R a b := by
  induction h with
  | nil => exact fun _ hb => absurd hb List.not_mem_nil
  | @cons a b as bs hab _ ih =>
      intro c hc
      rcases List.mem_cons.mp hc with rfl | hc
      · exact ⟨a, List.mem_cons_self, hab⟩
      · obtain ⟨d, hd, hdc⟩ := ih c hc
        exact ⟨d, List.mem_cons_of_mem a hd, hdc⟩

namespace Database

variable [Quantity K] {vars : Nat} {es : List (Effect K)} {db : Database K}

theorem exists_plan_of_mem_effects {cs : List (Call K)} {e : Effect K} (h : e ∈ db.effects cs) :
    ∃ c ∈ cs, ∃ d : Database K, (d.plan c).1 = some e := by
  induction cs generalizing db with
  | nil => cases h
  | cons c cs ih =>
      rcases List.mem_append.mp h with h | h
      · exact ⟨c, List.mem_cons_self, db, Option.mem_toList.mp h⟩
      · obtain ⟨c, hc, d, hd⟩ := ih h
        exact ⟨c, List.mem_cons_of_mem _ hc, d, hd⟩

theorem isStranded_of_isTyped {cs : List (Call K)} (typed : ∀ c ∈ cs, c.isTyped = true) :
    ∀ e ∈ db.effects cs, e.isStranded = false := by
  intro e he
  obtain ⟨c, hc, d, hd⟩ := exists_plan_of_mem_effects he
  obtain ⟨_, planned⟩ := exists_planned hd
  cases planned with
  | accepted ha _ => exact ha.isStranded_eq
  | stranded hs =>
      have := typed _ hc
      rw [Call.isTyped, hs.noIndex] at this
      cases this

theorem isMark_of_plan {c : Call K} {e : Effect K} (h : (db.plan c).1 = some e) :
    e.isMark = c.isMarker := by
  obtain ⟨_, planned⟩ := exists_planned h
  cases planned with
  | accepted ha _ => exact ha.isMark_eq
  | stranded _ => rfl

theorem isMark_of_isMarker {cs : List (Call K)} (free : ∀ c ∈ cs, c.isMarker = false) :
    ∀ e ∈ db.effects cs, e.isMark = false := by
  intro e he
  obtain ⟨c, hc, d, hd⟩ := exists_plan_of_mem_effects he
  exact (isMark_of_plan hd).trans (free c hc)

/-- The accepted calls are those of the effects that are not stranded, in the same order. -/
theorem answers_history (h : Built vars es db) (cs : List (Call K)) :
    List.Forall₂ (fun e a => e.Answers a.1 a.2) ((db.effects cs).filter fun e => !e.isStranded)
      (db.history cs) := by
  induction cs generalizing es db with
  | nil => exact .nil
  | cons c cs ih =>
      have ih := ih (built_call h c)
      have hp := planned db c
      rw [history, effects]
      rw [call_eq h.shaped c] at ih ⊢
      generalize db.plan c = p at hp ih ⊢
      cases hp with
      | refused _ _ => exact ih
      | @accepted _ _ e ha _ =>
          simpa only [carryOut, Option.toList_some, List.singleton_append, List.filter_cons,
            ha.isStranded_eq, Bool.not_false, ite_true] using .cons ha ih
      | @stranded _ cl hs =>
          have red := hs.body_red
          simpa only [carryOut, Option.toList_some, List.singleton_append, List.filter_cons,
            Effect.isStranded, red, Bool.not_true, Bool.false_eq_true, ite_false] using ih

/-- In a run whose tiers are indices every effect answers to an accepted call. -/
theorem answers_history_of_isTyped (h : Built vars es db) {cs : List (Call K)}
    (typed : ∀ c ∈ cs, c.isTyped = true) :
    List.Forall₂ (fun e a => e.Answers a.1 a.2) (db.effects cs) (db.history cs) := by
  have kept : (db.effects cs).filter (fun e => !e.isStranded) = db.effects cs := by
    rw [List.filter_eq_self]
    intro e he
    rw [isStranded_of_isTyped typed e he, Bool.not_false]
  exact kept ▸ answers_history h cs

theorem irredundant_history (h : Built vars es db) (cs : List (Call K)) :
    (db.history cs).filterMap (fun a => a.1.irredundant?) =
      (db.effects cs).filterMap Effect.irredundant? := by
  have hmap := map_eq_of_forall₂ (f := Effect.irredundant?) (g := fun a => a.1.irredundant?)
    (answers_history h cs) fun _ _ ha => ha.irredundant_eq
  have := congrArg (List.filterMap id) hmap
  simp only [List.filterMap_map, Function.id_comp, List.filterMap_filter] at this
  rw [← this]
  congr 1
  funext e
  cases he : e.isStranded with
  | false => rfl
  | true => exact (Effect.irredundant_of_isStranded he).symm

end Database

end ClauseFeatures
