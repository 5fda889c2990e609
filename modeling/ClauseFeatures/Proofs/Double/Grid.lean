import Mathlib

/-!
The grid of doubles among the rational numbers, without a largest member, and what it means to round to
it. Nothing is said about which of the two neighbours is taken: that rounding keeps the order and leaves
members of the grid alone is all that bounds on rounded results need.
-/
namespace ClauseFeatures.Double

/-- The numbers with at most 53 binary digits, the last of them not below the `-1074`th. -/
def Grid (q : ℚ) : Prop := ∃ m e : ℤ, |m| ≤ 2 ^ 53 ∧ -1074 ≤ e ∧ q = m * 2 ^ e

namespace Grid

variable {q : ℚ}

theorem scaled {m e : ℤ} (hm : |m| ≤ 2 ^ 53) (he : -1074 ≤ e) : Grid (m * 2 ^ e) :=
  ⟨m, e, hm, he, rfl⟩

theorem int {n : ℤ} (h : |n| ≤ 2 ^ 53) : Grid n := ⟨n, 0, h, by decide, by simp⟩

theorem nat {n : ℕ} (h : n ≤ 2 ^ 53) : Grid n := by
  have bound : |(n : ℤ)| ≤ 2 ^ 53 := by
    rw [abs_of_nonneg (Int.natCast_nonneg n)]
    exact_mod_cast h
  exact_mod_cast int bound

theorem zero : Grid 0 := ⟨0, 0, by decide, by decide, by simp⟩

theorem two_zpow {e : ℤ} (h : -1074 ≤ e) : Grid (2 ^ e) := ⟨1, e, by decide, h, by simp⟩

theorem neg (h : Grid q) : Grid (-q) := by
  obtain ⟨m, e, hm, he, rfl⟩ := h
  exact ⟨-m, e, by rwa [abs_neg], he, by push_cast; ring⟩

/-- A member of the grid is a whole multiple of each power of two that it is not small against. -/
theorem eq_int_mul (h : Grid q) {t : ℤ} (ht : t = -1074 ∨ 2 ^ 52 * 2 ^ t < |q|) :
    ∃ n : ℤ, q = n * 2 ^ t := by
  obtain ⟨m, e, hm, he, rfl⟩ := h
  have le : t ≤ e := by
    rcases ht with rfl | ht
    · exact he
    · -- With a smaller exponent the number would be small against `2 ^ t`.
      by_contra below
      have step : (2 : ℚ) ^ e ≤ 2 ^ (t - 1) := zpow_le_zpow_right₀ (by norm_num) (by omega)
      have half : (2 : ℚ) ^ t = 2 * 2 ^ (t - 1) := by
        rw [← zpow_one_add₀ (by norm_num)]
        congr 1
        omega
      have bound : |(m : ℚ)| ≤ 2 ^ 53 := by exact_mod_cast hm
      rw [abs_mul, abs_of_nonneg (by positivity : (0 : ℚ) ≤ 2 ^ e), half] at ht
      nlinarith [abs_nonneg (m : ℚ), (by positivity : (0 : ℚ) < 2 ^ e)]
  refine ⟨m * 2 ^ (e - t).toNat, ?_⟩
  push_cast
  rw [mul_assoc, ← zpow_natCast, ← zpow_add₀ (by norm_num)]
  congr 2
  omega

end Grid

/-- A number and one that it may be rounded to. -/
structure Rounds (q c : ℚ) : Prop where
  grid : Grid c
  le : ∀ d, Grid d → q ≤ d → c ≤ d
  ge : ∀ d, Grid d → d ≤ q → d ≤ c

namespace Rounds

variable {q c : ℚ}

theorem neg (h : Rounds q c) : Rounds (-q) (-c) where
  grid := h.grid.neg
  le d hd le := by linarith [h.ge (-d) hd.neg (by linarith)]
  ge d hd le := by linarith [h.le (-d) hd.neg (by linarith)]

theorem refl (h : Grid q) : Rounds q q := ⟨h, fun _ _ le => le, fun _ _ le => le⟩

theorem eq (h : Rounds q c) (hq : Grid q) : c = q :=
  le_antisymm (h.le q hq le_rfl) (h.ge q hq le_rfl)

theorem nonneg (h : Rounds q c) (hq : 0 ≤ q) : 0 ≤ c := h.ge 0 .zero hq

theorem magnitude_le (h : Rounds q c) {d : ℚ} (hd : Grid d) (hq : |q| ≤ d) : |c| ≤ d := by
  rw [abs_le] at hq ⊢
  exact ⟨h.ge (-d) hd.neg hq.1, h.le d hd hq.2⟩

/-- The criterion: the number has its 53 digits above `2 ^ t`, or `t` is as low as it can be, and it was
rounded to one of the two whole multiples of `2 ^ t` next to it. -/
theorem of_mantissa {z : ℚ} {m : ℕ} {t : ℤ} (ht : -1074 ≤ t) (hz : t = -1074 ∨ 2 ^ 52 ≤ z)
    (hm : m ≤ 2 ^ 53) (up : ∀ k : ℤ, z ≤ k → (m : ℤ) ≤ k) (down : ∀ k : ℤ, (k : ℚ) ≤ z → k ≤ m) :
    Rounds (z * 2 ^ t) (m * 2 ^ t) := by
  have unit : (0 : ℚ) < 2 ^ t := by positivity
  refine ⟨?_, fun d hd le => ?_, fun d hd le => ?_⟩
  · have bound : |(m : ℤ)| ≤ 2 ^ 53 := by
      rw [abs_of_nonneg (Int.natCast_nonneg m)]
      exact_mod_cast hm
    exact_mod_cast Grid.scaled bound ht
  · have multiple : ∃ k : ℤ, d = k * 2 ^ t := by
      rcases hz with low | normal
      · exact hd.eq_int_mul (.inl low)
      · have least : 2 ^ 52 * 2 ^ t ≤ d := by nlinarith
        rcases least.eq_or_lt with h | h
        · exact ⟨2 ^ 52, by rw [← h]; norm_num⟩
        · exact hd.eq_int_mul (.inr (h.trans_le (le_abs_self d)))
    obtain ⟨k, rfl⟩ := multiple
    have := up k (le_of_mul_le_mul_right le unit)
    exact mul_le_mul_of_nonneg_right (by exact_mod_cast this) unit.le
  · have normal (h : ¬ t = -1074) : (2 ^ 52 : ℚ) ≤ m := by
      have := down (2 ^ 52) (by exact_mod_cast hz.resolve_left h)
      exact_mod_cast this
    by_cases small : t = -1074 ∨ 2 ^ 52 * 2 ^ t < |d|
    · obtain ⟨k, rfl⟩ := hd.eq_int_mul small
      have := down k (le_of_mul_le_mul_right le unit)
      exact mul_le_mul_of_nonneg_right (by exact_mod_cast this) unit.le
    · -- A member that is no multiple of `2 ^ t` is below every mantissa with 53 digits.
      simp only [not_or, not_lt] at small
      calc d ≤ |d| := le_abs_self d
        _ ≤ 2 ^ 52 * 2 ^ t := small.2
        _ ≤ m * 2 ^ t := mul_le_mul_of_nonneg_right (normal small.1) unit.le

end Rounds

end ClauseFeatures.Double
