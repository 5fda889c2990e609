import ClauseFeatures.Value.Basic

/-!
Sameness of values, down to sorts of number, bits of doubles and order of entries. It is finer than
equality by value, and coincides with equality in the logic, which it decides.
-/
namespace ClauseFeatures.Value

mutual

/-- The same value down to sorts of number, bits of doubles and order of entries. -/
def same : Value → Value → Bool
  | null, null => true
  | number a, number b => a == b
  | text a, text b => a == b
  | rawText a, rawText b => a == b
  | list as, list bs => sameItems as bs
  | mapping as, mapping bs => sameEntries as bs
  | _, _ => false

def sameItems : List Value → List Value → Bool
  | [], [] => true
  | a :: as, b :: bs => a.same b && sameItems as bs
  | _, _ => false

def sameEntries : List (Value × Value) → List (Value × Value) → Bool
  | [], [] => true
  | (key, value) :: as, (key', value') :: bs => key.same key' && value.same value' && sameEntries as bs
  | _, _ => false

end

mutual

theorem eq_of_same : ∀ {a b : Value}, a.same b = true → a = b
  | .null, b, h => by cases b <;> simp_all [same]
  | .number a, b, h => by cases b <;> simp_all [same]
  | .text a, b, h => by cases b <;> simp_all [same]
  | .rawText a, b, h => by cases b <;> simp_all [same]
  | .list as, b, h => by
    cases b <;> simp only [same, Bool.false_eq_true] at h
    rw [eq_of_sameItems h]
  | .mapping as, b, h => by
    cases b <;> simp only [same, Bool.false_eq_true] at h
    rw [eq_of_sameEntries h]

theorem eq_of_sameItems : ∀ {as bs : List Value}, sameItems as bs = true → as = bs
  | [], bs, h => by cases bs <;> simp_all [sameItems]
  | a :: as, bs, h => by
    cases bs <;> simp only [sameItems, Bool.and_eq_true, Bool.false_eq_true] at h
    rw [eq_of_same h.1, eq_of_sameItems h.2]

theorem eq_of_sameEntries : ∀ {as bs : List (Value × Value)}, sameEntries as bs = true → as = bs
  | [], bs, h => by cases bs <;> simp_all [sameEntries]
  | (key, value) :: as, bs, h => by
    rcases bs with _ | ⟨⟨key', value'⟩, bs⟩ <;>
      simp only [sameEntries, Bool.and_eq_true, Bool.false_eq_true] at h
    rw [eq_of_same h.1.1, eq_of_same h.1.2, eq_of_sameEntries h.2]

end

mutual

theorem same_self : ∀ a : Value, a.same a = true
  | .null => rfl
  | .number a => by simp [same]
  | .text a => by simp [same]
  | .rawText a => by simp [same]
  | .list as => sameItems_self as
  | .mapping as => sameEntries_self as

theorem sameItems_self : ∀ as : List Value, sameItems as as = true
  | [] => rfl
  | a :: as => by simp [sameItems, same_self a, sameItems_self as]

theorem sameEntries_self : ∀ as : List (Value × Value), sameEntries as as = true
  | [] => rfl
  | (key, value) :: as => by simp [sameEntries, same_self key, same_self value, sameEntries_self as]

end

/-- Sameness is equality. -/
theorem same_iff {a b : Value} : a.same b = true ↔ a = b := ⟨eq_of_same, fun h => h ▸ same_self a⟩

instance : DecidableEq Value := fun _ _ => decidable_of_iff _ same_iff

end ClauseFeatures.Value
