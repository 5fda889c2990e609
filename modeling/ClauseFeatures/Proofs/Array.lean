import Mathlib.Data.List.Forall2
import ClauseFeatures.Check
import ClauseFeatures.Value.Arithmetic
import ClauseFeatures.Proofs.Double.Value
import ClauseFeatures.Proofs.Outcome

/-!
Arrays made from single numbers. Numbers side by side are always regular, and the array holds the double of
each; it passes the final check if all of them are finite, and only then.
-/
namespace ClauseFeatures

open Double

theorem exists_forall₂ {α β : Type} {R : α → β → Prop} {as : List α} (h : ∀ a ∈ as, ∃ b, R a b) :
    ∃ bs, List.Forall₂ R as bs := by
  induction as with
  | nil => exact ⟨[], .nil⟩
  | cons a as ih =>
      obtain ⟨b, hb⟩ := h a List.mem_cons_self
      obtain ⟨bs, hbs⟩ := ih fun c hc => h c (List.mem_cons_of_mem a hc)
      exact ⟨b :: bs, .cons hb hbs⟩

namespace Value

variable {v : Value} {vs : List Value} {x : Float} {xs : List Float}

theorem eq_number_of_toDouble (h : v.toDouble = .ok x) : ∃ n, v = .number n := by
  cases v with
  | number n => exact ⟨n, rfl⟩
  | null | text _ | rawText _ | list _ | mapping _ => cases h

theorem areRegular_of_toDouble (h : List.Forall₂ (fun v x => v.toDouble = .ok x) vs xs) :
    areRegular [] vs = true := by
  induction h with
  | nil => rfl
  | cons hv _ ih =>
      obtain ⟨n, rfl⟩ := eq_number_of_toDouble hv
      exact ih

theorem commonShape_of_toDouble (h : List.Forall₂ (fun v x => v.toDouble = .ok x) vs xs) :
    commonShape vs = [] := by
  cases h with
  | nil => rfl
  | cons hv hvs =>
      obtain ⟨n, rfl⟩ := eq_number_of_toDouble hv
      cases hvs with
      | nil => rfl
      | cons _ _ => simp only [commonShape, shape, commonStart]

theorem leavesOf_of_toDouble (h : List.Forall₂ (fun v x => v.toDouble = .ok x) vs xs) :
    leavesOf vs = .ok xs := by
  induction h with
  | nil => rfl
  | @cons v x vs xs hv _ ih =>
      obtain ⟨n, rfl⟩ := eq_number_of_toDouble hv
      have member : (number n).toMember = .ok x := hv
      simp only [leavesOf, leaves, member, ih, ok_bind]
      rfl

theorem doubles_eq_ok (h : List.Forall₂ (fun v x => v.toDouble = .ok x) vs xs) :
    (list vs).doubles = .ok xs := by
  have regular : (list vs).isRegular = true := by
    rw [isRegular, commonShape_of_toDouble h]
    exact areRegular_of_toDouble h
  rw [doubles, if_pos regular, leaves, leavesOf_of_toDouble h]

end Value

theorem Check.finite_eq_ok {xs : List Float} (name : String) :
    Check.finite xs name = .ok () ↔ ∀ x ∈ xs, x.isFinite = true := by
  constructor
  · intro h
    unfold Check.finite at h
    dsimp only at h
    split at h
    · cases h
    · rename_i numbers
      split at h
      · cases h
      · rename_i bounded
        rw [List.countP_pos_iff] at numbers bounded
        intro x hx
        apply isFinite_of_not
        · exact Bool.eq_false_iff.mpr fun nan => numbers ⟨x, hx, nan⟩
        · exact Bool.eq_false_iff.mpr fun inf => bounded ⟨x, hx, inf⟩
  · intro finite
    have numbers : xs.countP Element.isNaN = 0 :=
      List.countP_eq_zero.mpr fun x hx => Bool.eq_false_iff.mp (isNaN_of_isFinite (finite x hx))
    have bounded : xs.countP Element.isInfinite = 0 :=
      List.countP_eq_zero.mpr fun x hx => Bool.eq_false_iff.mp (isInf_of_isFinite (finite x hx))
    unfold Check.finite
    rw [numbers, bounded]
    rfl

end ClauseFeatures
