import Mathlib.Algebra.Group.Nat.Defs
import ClauseFeatures.Proofs.Outcome
import ClauseFeatures.Value.Basic

/-!
Values without a text. A message that is to tell such a value is not made, and the failure that it belongs to is
replaced by that of the text. An integer is refused for its length alone; a value that holds others is refused for the
first of them that is too long or, where nesting is bounded, too deep.
-/
namespace ClauseFeatures

namespace Failure

theorem checked_fails (isTooLong : Bool) (text : String) : FailsOnly (· = integerTooLong) (checked isTooLong text) :=
  .ite (.error rfl) (.ok _)

theorem integerText_fails (n : ℤ) : FailsOnly (· = integerTooLong) (integerText n) := checked_fails _ _

/-- What has at most sixteen digits is far from too long. -/
theorem isTooLong_of_lt {n : ℤ} (h : n.natAbs < 10 ^ 16) : isTooLong n = false := by
  have large : 16 ≤ digitLimit := by decide
  rw [isTooLong, decide_eq_false_iff_not, Nat.not_le]
  generalize digitLimit = limit at large
  exact Nat.lt_of_lt_of_le h (Nat.pow_le_pow_right (by decide) large)

theorem isTooLong_of_le {m n : ℕ} (le : m ≤ n) (h : isTooLong n = false) : isTooLong m = false := by
  rw [isTooLong, decide_eq_false_iff_not] at h ⊢
  exact fun long => h (Nat.le_trans long le)

theorem integerText_eq_ok {n : ℤ} (h : isTooLong n = false) : integerText n = .ok (toString n) := by
  rw [integerText, checked, h]
  rfl

theorem integerText_eq_error {n : ℤ} (h : isTooLong n = true) : integerText n = .error integerTooLong := by
  rw [integerText, checked, h]
  rfl

end Failure

theorem Number.checkedText_fails (a : Number) : FailsOnly (· = .integerTooLong) a.checkedText :=
  Failure.checked_fails _ _

/-- A failure that tells a text before anything else, with what follows if there is a text. -/
theorem FailsOnly.telling {α : Type} {P : Failure → Prop} {x : Except Failure String} {f : String → Except Failure α}
    (long : P .integerTooLong) (told : FailsOnly (· = .integerTooLong) x) (rest : ∀ s, FailsOnly P (f s)) :
    FailsOnly P (x >>= f) :=
  (told.imp fun _ same => same ▸ long).bind rest

namespace Value

/-- What a value without a text is refused with, if `levels` collections may be around a part of it. -/
def IsUntoldness (levels : Option ℕ) (e : Failure) : Prop := e = .integerTooLong ∨ levels.isSome ∧ e = .tooDeep

variable {levels : Option ℕ} {e : Failure} {v : Value} {text : String}

theorem untoldness_pred (h : IsUntoldness (levels.map Nat.pred) e) : IsUntoldness levels e := by
  rwa [IsUntoldness, Option.isSome_map] at h

mutual

theorem untold?_eq_some {levels : Option ℕ} {e : Failure} :
    ∀ {v : Value}, v.untold? levels = some e → IsUntoldness levels e
  | .null, h | .text _, h | .rawText _, h => by cases h
  | .number n, h => by
      rw [untold?] at h
      split at h
      · exact .inl (Option.some.inj h).symm
      · cases h
  | .list items, h => by
      rw [untold?] at h
      exact untoldItem?_eq_some h
  | .mapping entries, h => by
      rw [untold?] at h
      exact untoldPair?_eq_some h

theorem untoldItem?_eq_some {levels : Option ℕ} {e : Failure} :
    ∀ {items : List Value}, untoldItem? levels items = some e → IsUntoldness levels e
  | [], h => by cases h
  | item :: items, h => by
      rw [untoldItem?] at h
      split at h
      · rename_i none
        exact .inr ⟨by rw [none]; rfl, (Option.some.inj h).symm⟩
      · obtain first | ⟨-, rest⟩ := Option.or_eq_some_iff.mp h
        · exact untoldness_pred (untold?_eq_some first)
        · exact untoldItem?_eq_some rest

theorem untoldPair?_eq_some {levels : Option ℕ} {e : Failure} :
    ∀ {entries : List (Value × Value)}, untoldPair? levels entries = some e → IsUntoldness levels e
  | [], h => by cases h
  | (key, value) :: entries, h => by
      rw [untoldPair?] at h
      split at h
      · rename_i none
        exact .inr ⟨by rw [none]; rfl, (Option.some.inj h).symm⟩
      · obtain first | ⟨-, rest⟩ := Option.or_eq_some_iff.mp h
        · obtain here | ⟨-, here⟩ := Option.or_eq_some_iff.mp first
          · exact untoldness_pred (untold?_eq_some here)
          · exact untoldness_pred (untold?_eq_some here)
        · exact untoldPair?_eq_some rest

end

theorem checked_eq_ok (h : v.untold? levels = none) : v.checked levels text = .ok text := by rw [checked, h]

theorem checked_eq_error (h : v.untold? levels = some e) : v.checked levels text = .error e := by rw [checked, h]

theorem checked_fails (levels : Option ℕ) (v : Value) (text : String) :
    FailsOnly (IsUntoldness levels) (v.checked levels text) := by
  unfold checked
  split
  · rename_i e untold
    exact .error (untold?_eq_some untold)
  · exact .ok _

theorem told_fails (v : Value) : FailsOnly (· = .integerTooLong) v.told :=
  (checked_fails none v _).imp fun _ h => h.resolve_right nofun

theorem quoted_fails (v : Value) : FailsOnly (· = .integerTooLong) v.quoted :=
  (checked_fails none v _).imp fun _ h => h.resolve_right nofun

theorem untoldItem?_unbounded (items : List Value) : untoldItem? none items =
    if items.any fun v => (v.untold? none).isSome then some .integerTooLong else none := by
  induction items with
  | nil => rfl
  | cons item items ih =>
      rw [untoldItem?, if_neg nofun, Option.map_none, ih, List.any_cons]
      cases h : item.untold? none with
      | none => rfl
      | some e =>
          obtain rfl := (untold?_eq_some h).resolve_right nofun
          rfl

theorem quoted_list (items : List Value) : (list items).quoted =
    if items.any fun v => (v.untold? none).isSome then .error .integerTooLong else .ok (list items).shown := by
  rw [quoted, checked, untold?, untoldItem?_unbounded]
  cases items.any fun v => (v.untold? none).isSome <;> rfl

/-! A value with a text has one also where more collections may be around its parts. -/

mutual

theorem untold?_succ {k : ℕ} : ∀ {v : Value}, v.untold? (some k) = none → v.untold? (some (k + 1)) = none
  | .null, h | .number _, h | .text _, h | .rawText _, h => h
  | .list items, h => by
      rw [untold?] at h ⊢
      exact untoldItem?_succ h
  | .mapping entries, h => by
      rw [untold?] at h ⊢
      exact untoldPair?_succ h

theorem untoldItem?_succ {k : ℕ} :
    ∀ {items : List Value}, untoldItem? (some k) items = none → untoldItem? (some (k + 1)) items = none
  | [], _ => rfl
  | item :: items, h => by
      rw [untoldItem?] at h ⊢
      cases k with
      | zero => cases h
      | succ k =>
          rw [if_neg (by simp), Option.or_eq_none_iff] at h ⊢
          exact ⟨untold?_succ h.1, untoldItem?_succ h.2⟩

theorem untoldPair?_succ {k : ℕ} : ∀ {entries : List (Value × Value)},
    untoldPair? (some k) entries = none → untoldPair? (some (k + 1)) entries = none
  | [], _ => rfl
  | (key, value) :: entries, h => by
      rw [untoldPair?] at h ⊢
      cases k with
      | zero => cases h
      | succ k =>
          rw [if_neg (by simp), Option.or_eq_none_iff, Option.or_eq_none_iff] at h ⊢
          exact ⟨⟨untold?_succ h.1.1, untold?_succ h.1.2⟩, untoldPair?_succ h.2⟩

end

theorem untold?_of_mem {k : ℕ} {key value : Value} : ∀ {entries : List (Value × Value)}, (key, value) ∈ entries →
    untoldPair? (some (k + 1)) entries = none → value.untold? (some k) = none
  | (key', value') :: entries, member, h => by
      rw [untoldPair?, if_neg (by simp), Option.or_eq_none_iff, Option.or_eq_none_iff] at h
      obtain here | later := List.mem_cons.mp member
      · cases here
        exact h.1.2
      · exact untold?_of_mem later h.2

end Value

end ClauseFeatures
