import ClauseFeatures.Failure

/-!
Outcomes. A computation that may be refused goes on with what it was given, or stops at the first failure.
What a failure is does not matter here.
-/
namespace ClauseFeatures

variable {ε α β : Type}

@[simp]
theorem ok_bind (a : α) (f : α → Except ε β) : (Except.ok a >>= f) = f a := rfl

@[simp]
theorem error_bind (e : ε) (f : α → Except ε β) :
    ((Except.error e : Except ε α) >>= f) = .error e := rfl

theorem bind_eq_ok {x : Except ε α} {f : α → Except ε β} {b : β}
    (h : (x >>= f) = .ok b) : ∃ a, x = .ok a ∧ f a = .ok b := by
  cases x with
  | error e => cases h
  | ok a => exact ⟨a, rfl, h⟩

theorem bind_ne_ok {x : Except ε α} {f : α → Except ε β} {b : β} (h : ∀ a, f a ≠ .ok b) : (x >>= f) ≠ .ok b :=
  fun done => have ⟨a, _, rest⟩ := bind_eq_ok done; h a rest

theorem exists_ok_of_isSome {x : Except ε α} (h : x.toOption.isSome = true) : ∃ a, x = .ok a := by
  cases x with
  | error e => cases h
  | ok a => exact ⟨a, rfl⟩

/-- A computation that fails, if it does, with a failure of some kind only. -/
def FailsOnly (P : ε → Prop) (x : Except ε α) : Prop := ∀ e, x = .error e → P e

namespace FailsOnly

variable {P : ε → Prop}

theorem ok (a : α) : FailsOnly P (.ok a) := nofun

theorem error {e : ε} (h : P e) : FailsOnly P (.error e : Except ε α) := by
  rintro _ ⟨⟩
  exact h

theorem bind_of_ok {x : Except ε α} {f : α → Except ε β} (hx : FailsOnly P x)
    (hf : ∀ a, x = .ok a → FailsOnly P (f a)) : FailsOnly P (x >>= f) := by
  cases x with
  | error e => exact error (hx e rfl)
  | ok a => exact hf a rfl

theorem bind {x : Except ε α} {f : α → Except ε β} (hx : FailsOnly P x)
    (hf : ∀ a, FailsOnly P (f a)) : FailsOnly P (x >>= f) :=
  hx.bind_of_ok fun a _ => hf a

theorem imp {Q : ε → Prop} {x : Except ε α} (hx : FailsOnly P x) (h : ∀ e, P e → Q e) :
    FailsOnly Q x :=
  fun e he => h e (hx e he)

theorem map {x : Except ε α} (h : FailsOnly P x) (f : α → β) : FailsOnly P (x.map f) := by
  cases x with
  | error e => exact error (h e rfl)
  | ok a => exact .ok _

theorem ite {c : Prop} [Decidable c] {x y : Except ε α} (hx : FailsOnly P x)
    (hy : FailsOnly P y) : FailsOnly P (if c then x else y) := by
  split
  · exact hx
  · exact hy

theorem mapM {f : α → Except ε β} {items : List α} (h : ∀ a ∈ items, FailsOnly P (f a)) :
    FailsOnly P (items.mapM f) := by
  induction items with
  | nil => exact .ok _
  | cons a items ih =>
      rw [List.mapM_cons]
      refine (h a List.mem_cons_self).bind fun _ => ?_
      exact (ih fun b hb => h b (List.mem_cons_of_mem a hb)).bind fun _ => .ok _

theorem foldlM {f : β → α → Except ε β} {items : List α} (h : ∀ b a, FailsOnly P (f b a))
    (b : β) : FailsOnly P (items.foldlM f b) := by
  induction items generalizing b with
  | nil => exact .ok _
  | cons a items ih =>
      rw [List.foldlM_cons]
      exact (h b a).bind ih

end FailsOnly

end ClauseFeatures
