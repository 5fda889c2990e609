import ClauseFeatures.Ratio
import ClauseFeatures.Value.Arithmetic
import ClauseFeatures.Proofs.Computation
import ClauseFeatures.Proofs.Double.Sized
import ClauseFeatures.Proofs.Summation

/-!
Operations on numbers whose size is known succeed, and give numbers of a known size again: counts that are
small enough to be doubles, and doubles between two powers of two.
-/
namespace ClauseFeatures

open Double

/-- Positive integers that doubles hold without rounding. -/
def IsDivisor (n : ℤ) : Prop := 1 ≤ n ∧ n ≤ 2 ^ 53

/-- Integers from zero on that doubles hold without rounding. -/
def IsCount (n : ℤ) : Prop := 0 ≤ n ∧ n ≤ 2 ^ 53

theorem IsDivisor.isCount {n : ℤ} (h : IsDivisor n) : IsCount n := ⟨le_trans (by decide) h.1, h.2⟩

theorem IsDivisor.bounds {n : ℤ} (h : IsDivisor n) :
    (2 : ℚ) ^ (0 : ℤ) ≤ n ∧ (n : ℚ) ≤ 2 ^ (53 : ℤ) := by
  rw [zpow_zero]
  exact ⟨by exact_mod_cast h.1, by exact_mod_cast h.2⟩

theorem IsCount.sized {n : ℤ} (h : IsCount n) {x : Float} (finite : x.isFinite) (exact : value x = n) :
    Sized 0 53 1 x := by
  refine ⟨finite, ?_⟩
  rw [exact, Nat.cast_one, one_mul]
  rcases h.1.eq_or_lt with rfl | some
  · exact .inl Int.cast_zero
  · exact .inr (IsDivisor.bounds ⟨some, h.2⟩)

namespace Number

variable {x y : Float} {l h m : ℤ} {k : ℕ} {n : ℤ}

theorem toDouble_count (hn : IsCount n) :
    ∃ x, toDouble (.int n) = .ok x ∧ x.isFinite ∧ value x = n := by
  have abs : |n| ≤ 2 ^ 53 := by
    rw [abs_of_nonneg hn.1]
    exact hn.2
  have bound : |(n : ℚ)| ≤ (1 : ℕ) * 2 ^ (53 : ℤ) := by
    rw [Nat.cast_one, one_mul]
    exact_mod_cast abs
  obtain ⟨x, converted, finite, rounds⟩ := ofInt?_rounds (Sized.le_limit (by decide) (by decide) bound)
  exact ⟨x, by rw [toDouble_int, converted]; rfl, finite, rounds.eq (.int abs)⟩

theorem real_div (x : Float) (b : Number) : Number.div (.real x) b =
    (b.toDouble >>= fun y => if y == 0 then .error .zeroDivision else .ok (.real (x / y))) := rfl

theorem real_combine (f : ℤ → ℤ → ℤ) (g : Float → Float → Float) (x : Float) {b : Number}
    (h : b.toDouble = .ok y) : combine f g (.real x) b = .ok (.real (g x y)) := by
  have step : combine f g (.real x) b = (b.toDouble >>= fun y => .ok (.real (g x y))) := rfl
  rw [step, h]
  rfl

theorem not_beq_zero (hy : y.isFinite) (nonzero : value y ≠ 0) : ¬ (y == 0) = true := by
  rw [beq_iff hy rfl, value_zero]
  exact nonzero

theorem div_doubles (hy : y.isFinite) (nonzero : value y ≠ 0) :
    Number.div (.real x) (.real y) = .ok (.real (x / y)) :=
  if_neg (not_beq_zero hy nonzero)

theorem div_count (hx : Sized l h k x) (hn : IsDivisor n) (hk : k ≤ 2 ^ 53)
    (hm : m = -1074 ∨ -1074 ≤ m ∧ m + 53 ≤ l) (hh : -1074 ≤ h) (hh' : h ≤ 970) :
    ∃ y, Number.div (.real x) (.int n) = .ok (.real y) ∧ Sized m h k y := by
  obtain ⟨y, converted, finite, exact⟩ := toDouble_count hn.isCount
  obtain ⟨low, high⟩ := exact ▸ hn.bounds
  have sized := hx.div (m := m) finite low hk (hm.imp_right fun room => ⟨53, high, room⟩) (by omega)
    (by omega)
  rw [sub_zero] at sized
  have nonzero : value y ≠ 0 := by
    rw [zpow_zero] at low
    linarith
  refine ⟨x / y, ?_, sized⟩
  rw [real_div, converted]
  exact if_neg (not_beq_zero finite nonzero)

theorem div_counts {a : ℤ} (ha : IsCount a) (hn : IsDivisor n) :
    ∃ x, Number.div (.int a) (.int n) = .ok (.real x) ∧ Sized (-53) 53 1 x := by
  have positive : (0 : ℚ) < n := by exact_mod_cast hn.1
  have nonneg : (0 : ℚ) ≤ a := by exact_mod_cast ha.1
  have le : (a / n : ℚ) ≤ (1 : ℕ) * 2 ^ (53 : ℤ) := by
    have one : (1 : ℚ) ≤ n := by exact_mod_cast hn.1
    have most : (a : ℚ) ≤ 2 ^ (53 : ℤ) := by exact_mod_cast ha.2
    rw [Nat.cast_one, one_mul]
    exact (div_le_self nonneg one).trans most
  have nonzero : n ≠ 0 := by exact_mod_cast positive.ne'
  obtain ⟨x, rounded, finite, rounds⟩ := ofQuotient?_rounds (a := a) nonzero
    (by rw [abs_of_nonneg (by positivity)]; exact Sized.le_limit (by decide) (by decide) le)
  refine ⟨x, ?_, .of_rounds finite rounds (by decide) (by decide) (by decide) ?_⟩
  · simp only [Number.div, int?, nonzero, ite_false, rounded]
  · rcases ha.1.eq_or_lt with rfl | some
    · exact .inl (by simp)
    · refine .inr ⟨?_, le⟩
      have one : (1 : ℚ) ≤ a := by exact_mod_cast some
      rw [zpow_neg, ← one_div]
      exact div_le_div₀ nonneg one positive hn.bounds.2

theorem sqrt_sized (hx : Sized l h 1 x) (hh : 0 ≤ h) (hh' : h ≤ 970) :
    ∃ y, Number.sqrt (.real x) = .ok (.real y) ∧ Sized (-1074) h 1 y := by
  have nonneg : ¬ x < 0 := by
    rw [lt_iff hx.finite rfl, value_zero, not_lt]
    exact hx.nonneg
  exact ⟨x.sqrt, if_neg nonneg, hx.sqrt hh hh'⟩

/-- Numbers up to which a deviation counts as none, as a configuration may give them. -/
def IsThreshold (e : Number) : Prop := Number.le 0 e = true ∧ e.lt 1 = true

theorem compareDoubles_eq_lt : compareDoubles x y = some .lt ↔ x < y := by
  unfold compareDoubles
  split
  · simp [*]
  · split
    · simp [*]
    · split <;> simp [*]

theorem pos_of_int_lt (hn : 0 ≤ n) (hy : y.isFinite)
    (below : (compareInt y n).map Ordering.swap = some .lt) : 0 < value y := by
  rw [compareInt_eq hy, Option.map_some, Option.some.injEq, Ordering.swap_eq_lt, compare_gt_iff_gt] at below
  exact lt_of_le_of_lt (by exact_mod_cast hn) below

theorem IsThreshold.pos_of_lt {e : Number} (he : IsThreshold e) (hy : y.isFinite)
    (below : e.lt (.real y) = true) : 0 < value y := by
  obtain ⟨low, high⟩ := he
  simp only [Number.lt, Number.le, beq_iff_eq, Bool.or_eq_true] at low below high
  cases e with
  | truth b => exact pos_of_int_lt (by split <;> decide) hy below
  | int n =>
      have compared : some (compare 0 n) = some .lt ∨ some (compare 0 n) = some .eq := low
      simp only [Option.some.injEq, compare_lt_iff_lt, compare_eq_iff_eq] at compared
      exact pos_of_int_lt (by omega) hy below
  | real x =>
      have compared : (compareInt x 0).map Ordering.swap = some .lt ∨
          (compareInt x 0).map Ordering.swap = some .eq := low
      have finite : x.isFinite := isFinite_of_compareInt (by
        intro less
        rw [less] at compared
        rcases compared with h | h <;> cases h) high
      rw [compareInt_eq finite] at compared
      have nonneg : 0 ≤ value x := by
        simp only [Option.map_some, Option.some.injEq, Ordering.swap_eq_lt, Ordering.swap_eq_eq,
          compare_gt_iff_gt, compare_eq_iff_eq, Int.cast_zero] at compared
        rcases compared with h | h
        · exact le_of_lt h
        · exact h.ge
      exact nonneg.trans_lt ((lt_iff finite hy).mp (compareDoubles_eq_lt.mp below))

end Number

/-! Polarity. -/

section Polarity

variable {p s : Float} {a n : ℤ}

theorem double_exact (hs : s.isFinite) (hv : value s = n) (hn : IsCount n) :
    (2 * s).isFinite ∧ value (2 * s) = 2 * n := by
  have nonneg : (0 : ℚ) ≤ n := by exact_mod_cast hn.1
  have most : (n : ℚ) ≤ 2 ^ 53 := by exact_mod_cast hn.2
  have exact : value 2 * value s = n * 2 ^ (1 : ℤ) := by
    rw [value_two, hv, zpow_one, mul_comm]
  have le : value 2 * value s ≤ (1 : ℕ) * 2 ^ (54 : ℤ) := by
    rw [value_two, hv]
    norm_num
    linarith
  have within : |value 2 * value s| ≤ limit := by
    rw [abs_of_nonneg (by rw [value_two, hv]; positivity)]
    exact Sized.le_limit (by decide) (by decide) le
  obtain ⟨finite, rounds⟩ := mul_rounds (x := 2) rfl hs within
  have grid : Grid (value 2 * value s) := by
    rw [exact]
    exact .scaled (by rw [abs_of_nonneg hn.1]; exact hn.2) (by decide)
  exact ⟨finite, by rw [rounds.eq grid, value_two, hv]⟩

theorem abs_le_limit {q : ℚ} (h : |q| ≤ 2 ^ 60) : |q| ≤ limit :=
  Sized.le_limit (k := 1) (h := 60) (by decide) (by decide) (by rw [Nat.cast_one, one_mul]; exact_mod_cast h)

theorem grid_neg_half : Grid (-(1 / 2)) := by
  have : Grid ((-1 : ℤ) * 2 ^ (-1 : ℤ)) := .scaled (by decide) (by decide)
  norm_num at this ⊢
  exact this

/-- The least double above `-1/2` that is reached is above it by `2 ^ (-53)`. -/
theorem grid_above_half : Grid (-(1 / 2) + 2 ^ (-53 : ℤ)) := by
  have : Grid ((-(2 ^ 52 - 1) : ℤ) * 2 ^ (-53 : ℤ)) := .scaled (by decide) (by decide)
  norm_num at this ⊢
  exact this

/-- The difference between positive and negative occurrences, rounded. -/
theorem balance_bounds {d : ℚ} (rounds : Rounds (2 * a - n) d) (ha : IsCount a) (hn : IsDivisor n) :
    -(n : ℚ) ≤ d ∧ d ≤ 2 ^ (54 : ℤ) ∧ (a = 0 → d = -n) ∧ (1 ≤ a → 2 - n ≤ d) := by
  have one : (1 : ℚ) ≤ n := by exact_mod_cast hn.1
  have nonneg : (0 : ℚ) ≤ a := by exact_mod_cast ha.1
  have most : (a : ℚ) ≤ 2 ^ 53 := by exact_mod_cast ha.2
  have least : Grid (-(n : ℚ)) := (Grid.int (by rw [abs_of_nonneg hn.isCount.1]; exact hn.2)).neg
  refine ⟨rounds.ge _ least (by linarith), rounds.le _ (.two_zpow (by decide)) (by norm_num; linarith),
    fun none => ?_, fun some => ?_⟩
  · rw [none, Int.cast_zero, mul_zero, zero_sub] at rounds
    exact rounds.eq least
  · have grid : Grid ((2 - n : ℤ) : ℚ) := .int (by
      obtain ⟨low, high⟩ := hn
      rw [abs_le]
      constructor <;> omega)
    have some : (1 : ℚ) ≤ a := by exact_mod_cast some
    push_cast at grid
    exact rounds.ge _ grid (by linarith)

/-- The difference over twice the size, rounded. -/
theorem excess_bounds {d q : ℚ} (rounds : Rounds (d / (2 * n)) q) (hn : IsDivisor n)
    (low : -(n : ℚ) ≤ d) (high : d ≤ 2 ^ (54 : ℤ)) :
    -(1 / 2) ≤ q ∧ q ≤ 2 ^ (53 : ℤ) ∧ (d = -n → q = -(1 / 2)) ∧
      (2 - n ≤ d → -(1 / 2) + 2 ^ (-53 : ℤ) ≤ q) := by
  have one : (1 : ℚ) ≤ n := by exact_mod_cast hn.1
  have most : (n : ℚ) ≤ 2 ^ 53 := by exact_mod_cast hn.2
  have positive : (0 : ℚ) < 2 * n := by linarith
  refine ⟨rounds.ge _ grid_neg_half ?_, rounds.le _ (.two_zpow (by decide)) ?_, fun none => ?_,
    fun some => rounds.ge _ grid_above_half ?_⟩
  · rw [le_div_iff₀ positive]
    linarith
  · rw [div_le_iff₀ positive]
    norm_num at high ⊢
    linarith
  · have half : d / (2 * n) = -(1 / 2) := by
      rw [none, div_eq_iff positive.ne']
      ring
    rw [half] at rounds
    exact rounds.eq grid_neg_half
  · rw [le_div_iff₀ positive]
    norm_num
    linarith

/-- The polarity is zero without positive occurrences, and else not below the smallest difference that the
quotient can have from `-1/2`. -/
theorem sized_elementPolarity (hp : p.isFinite) (pos : value p = a) (ha : IsCount a)
    (hs : s.isFinite) (size : value s = n) (hn : IsDivisor n) :
    Sized (-53) 54 1 (Ratio.elementPolarity p s) := by
  have one : (1 : ℚ) ≤ n := by exact_mod_cast hn.1
  have most : (n : ℚ) ≤ 2 ^ 53 := by exact_mod_cast hn.2
  have nonneg : (0 : ℚ) ≤ a := by exact_mod_cast ha.1
  have most' : (a : ℚ) ≤ 2 ^ 53 := by exact_mod_cast ha.2
  have positive : (0 : ℚ) < 2 * n := by linarith
  obtain ⟨finite2p, twicePos⟩ := double_exact hp pos ha
  obtain ⟨finite2s, twiceSize⟩ := double_exact hs size hn.isCount
  obtain ⟨finiteD, difference⟩ := sub_rounds finite2p hs
    (abs_le_limit (by rw [twicePos, size, abs_le]; constructor <;> linarith))
  rw [twicePos, size] at difference
  obtain ⟨lowD, highD, noneD, someD⟩ := balance_bounds difference ha hn
  have excess : |value (2 * p - s) / (2 * n)| ≤ 2 ^ 60 := by
    norm_num at highD
    rw [abs_le, le_div_iff₀ positive, div_le_iff₀ positive]
    constructor <;> linarith
  obtain ⟨finiteQ, quotient⟩ := div_rounds finiteD finite2s (by rw [twiceSize]; exact positive.ne')
    (abs_le_limit (by rwa [twiceSize]))
  rw [twiceSize] at quotient
  obtain ⟨lowQ, highQ, noneQ, someQ⟩ := excess_bounds quotient hn lowD highD
  have highP : 1 / 2 + value ((2 * p - s) / (2 * s)) ≤ (1 : ℕ) * 2 ^ (54 : ℤ) := by
    norm_num at highQ ⊢
    linarith
  obtain ⟨finite, sum⟩ := add_rounds (x := 0.5) rfl finiteQ
    (abs_le_limit (by rw [value_half, abs_le]; norm_num at highQ ⊢; constructor <;> linarith))
  rw [value_half] at sum
  refine .of_rounds finite sum (by decide) (by decide) (by decide) ?_
  rcases ha.1.eq_or_lt with none | some
  · exact .inl (by rw [noneQ (noneD none.symm)]; norm_num)
  · exact .inr ⟨by linarith [someQ (someD some)], highP⟩

end Polarity

end ClauseFeatures
