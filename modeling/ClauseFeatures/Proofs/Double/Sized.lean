import ClauseFeatures.Proofs.Double.Nearest

/-!
Doubles of a known size. A double that is zero or between two powers of two stays so under sums, means and
roots, with exponents that are computed along. This is how results are shown to be finite: the limits are
powers of two and their small multiples, all of them doubles, so rounding cannot cross them.
-/
namespace ClauseFeatures.Double

open Float.Model Float.Model.UnpackedFloat

variable {x y : Float} {l h : ℤ} {j k : ℕ}

/-! Constants and integers. -/

theorem value_zero : value 0 = 0 := rfl

theorem value_negativeZero : value (-0.0) = 0 := rfl

theorem value_half : value 0.5 = 1 / 2 := by
  have pattern : (0.5 : Float).toModel.unpack = .finite .positive (2 ^ 52) (-53) (by decide) := rfl
  rw [value, pattern, exact, factor]
  norm_num

theorem value_one : value 1 = 1 := by
  have pattern : (1 : Float).toModel.unpack = .finite .positive (2 ^ 52) (-52) (by decide) := rfl
  rw [value, pattern, exact, factor]
  norm_num

theorem value_two : value 2 = 2 := by
  have pattern : (2 : Float).toModel.unpack = .finite .positive (2 ^ 52) (-51) (by decide) := rfl
  rw [value, pattern, exact, factor]
  norm_num

theorem isSet_surjective (negative : Bool) : ∃ s, isSet s = negative := by
  cases negative
  · exact ⟨.positive, rfl⟩
  · exact ⟨.negative, rfl⟩

theorem factor_mul_abs {n : ℤ} {s : Sign} (hs : isSet s = decide (n < 0)) :
    factor s * |(n : ℚ)| = n := by
  cases s with
  | negative =>
      have negative : (n : ℚ) < 0 := by exact_mod_cast of_decide_eq_true hs.symm
      rw [abs_of_neg negative, factor, neg_one_mul, neg_neg]
  | positive =>
      have nonneg : (0 : ℚ) ≤ n := by exact_mod_cast not_lt.mp (of_decide_eq_false hs.symm)
      rw [abs_of_nonneg nonneg, factor, one_mul]

theorem natAbs_cast (n : ℤ) : (n.natAbs : ℚ) = |(n : ℚ)| := by
  rw [Nat.cast_natAbs, Int.cast_abs]

theorem ofInt?_rounds {n : ℤ} (le : |(n : ℚ)| ≤ limit) :
    ∃ x, ofInt? n = some x ∧ x.isFinite ∧ Rounds n (value x) := by
  obtain ⟨s, hs⟩ := isSet_surjective (decide (n < 0))
  have magnitude : ((n.natAbs : ℚ) / (1 : ℕ)) = |(n : ℚ)| := by
    rw [natAbs_cast, Nat.cast_one, div_one]
  obtain ⟨finite, rounds⟩ := nearest_rounds (s := s) one_pos (magnitude.trans_le le)
  rw [magnitude, factor_mul_abs hs, hs] at rounds
  rw [hs] at finite
  exact ⟨_, if_pos finite, finite, rounds⟩

theorem ofQuotient?_rounds {a b : ℤ} (hb : b ≠ 0) (le : |(a / b : ℚ)| ≤ limit) :
    ∃ x, ofQuotient? a b = some x ∧ x.isFinite ∧ Rounds (a / b) (value x) := by
  obtain ⟨s, hs⟩ := isSet_surjective (decide (a < 0))
  obtain ⟨t, ht⟩ := isSet_surjective (decide (b < 0))
  obtain ⟨r, hr⟩ := isSet_surjective (decide (a < 0) != decide (b < 0))
  have sign : factor r = factor s / factor t := by
    rw [← hs, ← ht] at hr
    cases r <;> cases s <;> cases t <;> first | (cases hr; done) | norm_num [factor]
  have magnitude : ((a.natAbs : ℚ) / b.natAbs) = |(a / b : ℚ)| := by
    rw [natAbs_cast, natAbs_cast, abs_div]
  have signed : factor r * |(a / b : ℚ)| = a / b := by
    rw [sign, abs_div, div_mul_div_comm, factor_mul_abs hs, factor_mul_abs ht]
  obtain ⟨finite, rounds⟩ := nearest_rounds (s := r) (Int.natAbs_pos.mpr hb) (magnitude.trans_le le)
  rw [magnitude, signed, hr] at rounds
  rw [hr] at finite
  exact ⟨_, if_pos finite, finite, rounds⟩

/-! Sizes. -/

/-- A finite double that is zero, or at least `2 ^ l` and at most `k * 2 ^ h`. -/
structure Sized (l h : ℤ) (k : ℕ) (x : Float) : Prop where
  finite : x.isFinite
  size : value x = 0 ∨ 2 ^ l ≤ value x ∧ value x ≤ k * 2 ^ h

namespace Sized

theorem nonneg (hx : Sized l h k x) : 0 ≤ value x := by
  rcases hx.size with zero | ⟨least, -⟩
  · exact zero.ge
  · exact le_trans (by positivity) least

theorem le (hx : Sized l h k x) : value x ≤ k * 2 ^ h := by
  rcases hx.size with zero | ⟨-, most⟩
  · rw [zero]
    positivity
  · exact most

theorem mono {l' h' : ℤ} {k' : ℕ} (hx : Sized l h k x) (hl : l' ≤ l)
    (le : (k * 2 ^ h : ℚ) ≤ k' * 2 ^ h') : Sized l' h' k' x :=
  ⟨hx.finite, hx.size.imp_right fun ⟨least, most⟩ =>
    ⟨(zpow_le_zpow_right₀ (by norm_num) hl).trans least, most.trans le⟩⟩

/-- A multiple of a power of two as a single larger power. -/
theorem widen (hx : Sized l h k x) (h' : ℤ) (hk : k ≤ 2 ^ 53) (hh : h + 53 ≤ h') : Sized l h' 1 x := by
  refine hx.mono le_rfl ?_
  calc (k * 2 ^ h : ℚ) ≤ 2 ^ (53 : ℤ) * 2 ^ h :=
        mul_le_mul_of_nonneg_right (by exact_mod_cast hk) (by positivity)
    _ = 2 ^ (h + 53) := by rw [← zpow_add₀ (by norm_num), add_comm]
    _ ≤ 2 ^ h' := zpow_le_zpow_right₀ (by norm_num) hh
    _ = (1 : ℕ) * 2 ^ h' := by rw [Nat.cast_one, one_mul]

theorem zero (hx : x.isFinite) (hz : value x = 0) : Sized l h k x := ⟨hx, .inl hz⟩

/-- The least positive double is `2 ^ (-1074)`. -/
theorem of_nonneg (hx : x.isFinite) (nonneg : 0 ≤ value x) (le : value x ≤ k * 2 ^ h) :
    Sized (-1074) h k x := by
  refine ⟨hx, ?_⟩
  obtain ⟨n, hn⟩ := (grid_value hx).eq_int_mul (.inl rfl)
  have unit : (0 : ℚ) < 2 ^ (-1074 : ℤ) := by positivity
  rw [hn] at nonneg le ⊢
  have whole : 0 ≤ n := by
    have := (mul_nonneg_iff_of_pos_right unit).mp nonneg
    exact_mod_cast this
  rcases whole.eq_or_lt with none | some
  · left
    rw [← none, Int.cast_zero, zero_mul]
  · have one : (1 : ℚ) ≤ n := by exact_mod_cast some
    exact .inr ⟨le_mul_of_one_le_left unit.le one, le⟩

theorem le_limit {q : ℚ} (hk : k ≤ 2 ^ 53) (hh : h ≤ 970) (le : q ≤ k * 2 ^ h) : q ≤ limit :=
  calc q ≤ k * 2 ^ h := le
    _ ≤ 2 ^ 53 * 2 ^ (970 : ℤ) := mul_le_mul (by exact_mod_cast hk)
        (zpow_le_zpow_right₀ (by norm_num) hh) (by positivity) (by positivity)
    _ = limit := by rw [limit, ← zpow_natCast, ← zpow_add₀ (by norm_num)]; rfl

theorem grid_multiple (hk : k ≤ 2 ^ 53) (hh : -1074 ≤ h) : Grid (k * 2 ^ h) := by
  have bound : |(k : ℤ)| ≤ 2 ^ 53 := by
    rw [abs_of_nonneg (Int.natCast_nonneg k)]
    exact_mod_cast hk
  exact_mod_cast Grid.scaled bound hh

/-- What is rounded from a number of a size has that size. -/
theorem of_rounds {q : ℚ} (hx : x.isFinite) (rounds : Rounds q (value x)) (hk : k ≤ 2 ^ 53)
    (hl : -1074 ≤ l) (hh : -1074 ≤ h) (size : q = 0 ∨ 2 ^ l ≤ q ∧ q ≤ k * 2 ^ h) :
    Sized l h k x := by
  refine ⟨hx, size.imp (fun none => ?_) fun ⟨least, most⟩ => ⟨?_, ?_⟩⟩
  · rw [none] at rounds
    exact rounds.eq .zero
  · exact rounds.ge _ (.two_zpow hl) least
  · exact rounds.le _ (grid_multiple hk hh) most

theorem of_rounds_nonneg {q : ℚ} (hx : x.isFinite) (rounds : Rounds q (value x)) (hk : k ≤ 2 ^ 53)
    (hh : -1074 ≤ h) (nonneg : 0 ≤ q) (le : q ≤ k * 2 ^ h) : Sized (-1074) h k x :=
  of_nonneg hx (rounds.nonneg nonneg) (rounds.le _ (grid_multiple hk hh) le)

theorem add (hx : Sized l h j x) (hy : Sized l h k y) (hk : j + k ≤ 2 ^ 53) (hl : -1074 ≤ l)
    (hh : -1074 ≤ h) (hh' : h ≤ 970) : Sized l h (j + k) (x + y) := by
  have le : value x + value y ≤ (j + k : ℕ) * 2 ^ h := by
    rw [Nat.cast_add, add_mul]
    exact add_le_add hx.le hy.le
  have nonneg := add_nonneg hx.nonneg hy.nonneg
  obtain ⟨finite, rounds⟩ := add_rounds hx.finite hy.finite
    (by rw [abs_of_nonneg nonneg]; exact le_limit hk hh' le)
  refine of_rounds finite rounds hk hl hh ?_
  rcases hx.size with zero | ⟨least, -⟩
  · rcases hy.size with zero' | ⟨least, -⟩
    · exact .inl (by rw [zero, zero', add_zero])
    · exact .inr ⟨by linarith [hx.nonneg], le⟩
  · exact .inr ⟨by linarith [hy.nonneg], le⟩

/-- A quotient. Its lower exponent is the least one, unless an upper bound of the divisor tells more. -/
theorem div {a m : ℤ} (hx : Sized l h k x) (hy : y.isFinite) (low : 2 ^ a ≤ value y)
    (hk : k ≤ 2 ^ 53) (hm : m = -1074 ∨ ∃ b : ℤ, value y ≤ 2 ^ b ∧ -1074 ≤ m ∧ m + b ≤ l)
    (hh : -1074 ≤ h - a) (hh' : h - a ≤ 970) : Sized m (h - a) k (x / y) := by
  have unit : (0 : ℚ) < 2 ^ a := by positivity
  have positive : 0 < value y := unit.trans_le low
  have nonneg : 0 ≤ value x / value y := div_nonneg hx.nonneg positive.le
  have le : value x / value y ≤ k * 2 ^ (h - a) := by
    rw [zpow_sub₀ (by norm_num), ← mul_div_assoc]
    exact div_le_div₀ (by positivity) hx.le unit low
  obtain ⟨finite, rounds⟩ := div_rounds hx.finite hy positive.ne'
    (by rw [abs_of_nonneg nonneg]; exact le_limit hk hh' le)
  rcases hm with rfl | ⟨b, high, least, room⟩
  · exact of_rounds_nonneg finite rounds hk hh nonneg le
  · refine of_rounds finite rounds hk least hh ?_
    rcases hx.size with zero | ⟨above, -⟩
    · exact .inl (by rw [zero, zero_div])
    · refine .inr ⟨?_, le⟩
      rw [le_div_iff₀ positive]
      calc (2 ^ m * value y : ℚ) ≤ 2 ^ m * 2 ^ b := mul_le_mul_of_nonneg_left high (by positivity)
        _ = 2 ^ (m + b) := by rw [zpow_add₀ (by norm_num)]
        _ ≤ 2 ^ l := zpow_le_zpow_right₀ (by norm_num) room
        _ ≤ value x := above

/-- The squared difference of two numbers of a size. -/
theorem square_sub {l' : ℤ} (hx : Sized l h 1 x) (hy : Sized l' h 1 y) (hh : 0 ≤ h)
    (hh' : 2 * h ≤ 970) :
    (x - y).isFinite ∧ Sized (-1074) (2 * h) 1 ((x - y) * (x - y)) := by
  have difference : |value x - value y| ≤ 2 ^ h := by
    have := hx.nonneg
    have := hy.nonneg
    have := hx.le
    have := hy.le
    rw [abs_le]
    constructor <;> push_cast at * <;> linarith
  have unit : Grid (2 ^ h) := .two_zpow (by omega)
  obtain ⟨finite, rounds⟩ := sub_rounds hx.finite hy.finite
    (le_limit (k := 1) (h := h) (by decide) (by omega) (by rwa [Nat.cast_one, one_mul]))
  have bound := rounds.magnitude_le unit difference
  have square : value (x - y) * value (x - y) ≤ (1 : ℕ) * 2 ^ (2 * h) := by
    rw [Nat.cast_one, one_mul, two_mul, zpow_add₀ (by norm_num), ← abs_mul_abs_self]
    exact mul_le_mul bound bound (abs_nonneg _) (by positivity)
  have nonneg := mul_self_nonneg (value (x - y))
  obtain ⟨finite', rounds'⟩ := mul_rounds finite finite
    (by rw [abs_of_nonneg nonneg]; exact le_limit (by decide) hh' square)
  exact ⟨finite, of_rounds_nonneg finite' rounds' (by decide) (by omega) nonneg square⟩

theorem sqrt (hx : Sized l h 1 x) (hh : 0 ≤ h) (hh' : h ≤ 970) : Sized (-1074) h 1 x.sqrt := by
  have le := hx.le
  rw [Nat.cast_one, one_mul] at le
  obtain ⟨finite, q, nonneg, root, rounds⟩ := sqrt_rounds hx.finite hx.nonneg
    (le_limit (k := 1) (by decide) hh' hx.le)
  refine of_rounds_nonneg finite rounds (by decide) (by omega) nonneg ?_
  rw [Nat.cast_one, one_mul]
  exact root.trans (max_le (one_le_zpow₀ (by norm_num) hh) le)

end Sized

end ClauseFeatures.Double
