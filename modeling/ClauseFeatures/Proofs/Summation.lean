import ClauseFeatures.Summation

/-!
What holds of sums and extremes of arrays. The order of additions is of no importance to a property that
counts summands and passes from two numbers to their sum.
-/
namespace ClauseFeatures

variable {E : Type} [Element E]

/-- A property of sums of a number of summands, up to a largest number of them. -/
structure Accumulates (P : Nat → E → Prop) (most : Nat) : Prop where
  zero : P 0 Element.zero
  negativeZero : P 0 Element.negativeZero
  add {j k : Nat} {x y : E} : P j x → P k y → j + k ≤ most → P (j + k) (x + y)

namespace Accumulates

variable {P : Nat → E → Prop} {most : Nat} (acc : Accumulates P most)

include acc

theorem foldl {xs : List E} (h : ∀ x ∈ xs, P 1 x) {j : Nat} {s : E} (hs : P j s)
    (fits : j + xs.length ≤ most) : P (j + xs.length) (xs.foldl (· + ·) s) := by
  induction xs generalizing j s with
  | nil => exact hs
  | cons x xs ih =>
      rw [List.length_cons] at fits ⊢
      have step := acc.add hs (h x List.mem_cons_self) (by omega)
      rw [show j + (xs.length + 1) = j + 1 + xs.length by omega]
      exact ih (fun y hy => h y (List.mem_cons_of_mem x hy)) step (by omega)

theorem lanes {xs : List E} (h : ∀ x ∈ xs, P 1 x) {j : Nat} {r0 r1 r2 r3 r4 r5 r6 r7 : E}
    (h0 : P j r0) (h1 : P j r1) (h2 : P j r2) (h3 : P j r3) (h4 : P j r4) (h5 : P j r5)
    (h6 : P j r6) (h7 : P j r7) (fits : 8 * j + xs.length ≤ most) :
    P (8 * j + xs.length) (ClauseFeatures.lanes r0 r1 r2 r3 r4 r5 r6 r7 xs) := by
  fun_induction ClauseFeatures.lanes r0 r1 r2 r3 r4 r5 r6 r7 xs generalizing j with
  | case1 r0 r1 r2 r3 r4 r5 r6 r7 x0 x1 x2 x3 x4 x5 x6 x7 rest ih =>
      simp only [List.mem_cons, forall_eq_or_imp, List.length_cons] at h fits ⊢
      obtain ⟨p0, p1, p2, p3, p4, p5, p6, p7, others⟩ := h
      have grown := ih others (acc.add h0 p0 (by omega)) (acc.add h1 p1 (by omega))
        (acc.add h2 p2 (by omega)) (acc.add h3 p3 (by omega)) (acc.add h4 p4 (by omega))
        (acc.add h5 p5 (by omega)) (acc.add h6 p6 (by omega)) (acc.add h7 p7 (by omega)) (by omega)
      rwa [show 8 * (j + 1) + rest.length = 8 * j + (rest.length + 1 + 1 + 1 + 1 + 1 + 1 + 1 + 1) by
        omega] at grown
  | case2 r0 r1 r2 r3 r4 r5 r6 r7 rest short =>
      have low := acc.add (acc.add h0 h1 (by omega)) (acc.add h2 h3 (by omega)) (by omega)
      have high := acc.add (acc.add h4 h5 (by omega)) (acc.add h6 h7 (by omega)) (by omega)
      have all := acc.add low high (by omega)
      rw [show j + j + (j + j) + (j + j + (j + j)) = 8 * j by omega] at all
      exact acc.foldl h all fits

theorem blockSum {xs : List E} (h : ∀ x ∈ xs, P 1 x) (fits : xs.length ≤ most) :
    P xs.length (ClauseFeatures.blockSum xs) := by
  unfold ClauseFeatures.blockSum
  split
  · rename_i rest
    simp only [List.mem_cons, forall_eq_or_imp, List.length_cons] at h fits ⊢
    obtain ⟨p0, p1, p2, p3, p4, p5, p6, p7, others⟩ := h
    have sum := acc.lanes others p0 p1 p2 p3 p4 p5 p6 p7 (by omega)
    rwa [show 8 * 1 + rest.length = rest.length + 1 + 1 + 1 + 1 + 1 + 1 + 1 + 1 by omega] at sum
  · have sum := acc.foldl h acc.negativeZero (by omega)
    rwa [Nat.zero_add] at sum

theorem pairwiseSum {xs : List E} (h : ∀ x ∈ xs, P 1 x) (fits : xs.length ≤ most) :
    P xs.length (ClauseFeatures.pairwiseSum xs) := by
  fun_induction ClauseFeatures.pairwiseSum xs with
  | case1 xs short => exact acc.blockSum h fits
  | case2 xs long left right =>
      have parts := congrArg List.length (List.take_append_drop (cutPoint xs.length) xs)
      rw [List.length_append] at parts
      have sum := acc.add (left (fun x hx => h x (List.mem_of_mem_take hx)) (by omega))
        (right (fun x hx => h x (List.mem_of_mem_drop hx)) (by omega)) (by omega)
      rwa [parts] at sum

theorem arraySum {xs : List E} (h : ∀ x ∈ xs, P 1 x) (fits : xs.length ≤ most) :
    P xs.length (ClauseFeatures.arraySum xs) := by
  have sum := acc.add acc.zero (acc.pairwiseSum h fits) (by omega)
  rwa [Nat.zero_add] at sum

end Accumulates

/-! Extremes. -/

theorem foldl_keep_mem (better : E → E → Bool) (x : E) (xs : List E) :
    xs.foldl (keep better) x ∈ x :: xs := by
  induction xs generalizing x with
  | nil => exact List.mem_cons_self
  | cons y xs ih =>
      have kept : keep better x y = x ∨ keep better x y = y := by
        unfold keep
        split
        · exact .inl rfl
        · split
          · exact .inr rfl
          · exact .inl rfl
      have := ih (keep better x y)
      rw [List.foldl_cons]
      rcases kept with h | h <;> rw [h] at this ⊢ <;> grind

theorem arrayMin_mem (x : E) (xs : List E) : arrayMin x xs ∈ x :: xs := foldl_keep_mem _ x xs

theorem arrayMax_mem (x : E) (xs : List E) : arrayMax x xs ∈ x :: xs := foldl_keep_mem _ x xs

end ClauseFeatures
