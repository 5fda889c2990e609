import ClauseFeatures.Proofs.Double.Rounding

/-!
The operations on unpacked doubles round the exact sum, difference, product and quotient of what their
arguments stand for. Of the square root it is enough to know that it is between zero and the larger of its
argument and one.
-/
namespace ClauseFeatures.Double

open Float.Model Float.Model.UnpackedFloat

variable {s : Sign} {m : ℕ} {e : ℤ} {u v : UnpackedFloat}

theorem two_zpow_split {e k : ℤ} {n : ℕ} (h : k + n = e) : (2 : ℚ) ^ e = 2 ^ n * 2 ^ k := by
  rw [← h, zpow_add₀ (by norm_num), zpow_natCast, mul_comm]

theorem factor_mul (s₁ s₂ : Sign) : factor (s₁ * s₂) = factor s₁ * factor s₂ := by
  cases s₁ <;> cases s₂
  · exact (by norm_num : (1 : ℚ) = -1 * -1)
  · exact (mul_one (-1 : ℚ)).symm
  · exact (one_mul (-1 : ℚ)).symm
  · exact (one_mul (1 : ℚ)).symm

theorem factor_div (s₁ s₂ : Sign) : factor (s₁ / s₂) = factor s₁ * (factor s₂)⁻¹ := by
  cases s₁ <;> cases s₂
  · exact (by norm_num : (1 : ℚ) = -1 * (-1)⁻¹)
  · exact (by norm_num : (-1 : ℚ) = -1 * 1⁻¹)
  · exact (by norm_num : (-1 : ℚ) = 1 * (-1)⁻¹)
  · exact (by norm_num : (1 : ℚ) = 1 * 1⁻¹)

theorem factor_neg (s : Sign) : factor (-s) = -factor s := by
  cases s
  · exact (neg_neg (1 : ℚ)).symm
  · rfl

/-! Rounding of exact numbers. -/

theorem roundsTo_round (hm : 0 < m) :
    RoundsTo (factor s * (m * 2 ^ e)) (UnpackedFloat.round Format.binary64 s m e) := by
  obtain ⟨n, hn⟩ : ∃ n : ℕ, n = (e - max (m.log2 + e - 52) (-1074)).toNat := ⟨_, rfl⟩
  have digits : 2 ^ m.log2 ≤ m := Nat.log2_self_le hm.ne'
  have wide : Wide (m * 2 ^ n) (e - n) := by
    by_cases low : e - n ≤ -1074
    · exact .inr low
    · left
      calc 2 ^ 52 ≤ 2 ^ (m.log2 + n) := Nat.pow_le_pow_right (by decide) (by omega)
        _ = 2 ^ m.log2 * 2 ^ n := pow_add _ _ _
        _ ≤ m * 2 ^ n := Nat.mul_le_mul_right _ digits
  have near : Near (m * 2 ^ n) (m * 2 ^ n : ℕ) .exact := rfl
  have rounded := roundsTo_roundWithAccuracy (s := s) near wide
  have value : ((m * 2 ^ n : ℕ) : ℚ) * 2 ^ (e - n) = m * 2 ^ e := by
    rw [two_zpow_split (show e - n + n = e by omega)]
    push_cast
    ring
  rw [value] at rounded
  simp only [UnpackedFloat.round, target_eq, decreaseExponent, ← hn, Nat.shiftLeft_eq]
  exact rounded

theorem roundsTo_normalize (k : ℤ) (zero : Sign) :
    RoundsTo (k * 2 ^ e) (UnpackedFloat.normalize Format.binary64 k e zero) := by
  unfold UnpackedFloat.normalize
  split
  · rename_i below
    have negative : k < 0 := compare_lt_iff_lt.mp below
    have value : (k : ℚ) = -((-k).toNat : ℕ) := by
      have : k = -((-k).toNat : ℤ) := by omega
      exact_mod_cast this
    have rounded := roundsTo_round (s := .negative) (e := e) (show 0 < (-k).toNat by omega)
    rwa [factor, neg_one_mul, ← neg_mul, ← value] at rounded
  · rename_i equal
    rw [compare_eq_iff_eq.mp equal, Int.cast_zero, zero_mul]
    exact .self (u := .zero zero) trivial
  · rename_i above
    have positive : 0 < k := compare_gt_iff_gt.mp above
    have value : (k : ℚ) = (k.toNat : ℕ) := by
      have : k = (k.toNat : ℤ) := by omega
      exact_mod_cast this
    have rounded := roundsTo_round (s := .positive) (e := e) (show 0 < k.toNat by omega)
    rwa [factor, one_mul, ← value] at rounded

/-- A mantissa that is moved to a smaller exponent. -/
theorem aligned {k : ℤ} (h : k ≤ e) :
    ((s.apply (decreaseExponent m e k).1 : ℤ) : ℚ) * 2 ^ k = factor s * (m * 2 ^ e) := by
  rw [two_zpow_split (show k + (e - k).toNat = e by omega), decreaseExponent, Nat.shiftLeft_eq]
  cases s <;> simp only [Sign.apply, factor] <;> push_cast <;> ring

/-! Sum and difference. -/

theorem Canonical.neg (h : Canonical u) : Canonical u.neg ∧ exact u.neg = -exact u := by
  cases u with
  | finite s m e _ =>
      refine ⟨h, ?_⟩
      simp only [UnpackedFloat.neg, exact, factor_neg]
      ring
  | zero _ => exact ⟨trivial, neg_zero.symm⟩
  | infinity _ | notANumber => exact h.elim

theorem roundsTo_add (hu : Canonical u) (hv : Canonical v) :
    RoundsTo (exact u + exact v) (UnpackedFloat.add Format.binary64 u v) := by
  cases u with
  | infinity _ | notANumber => exact hu.elim
  | zero s₁ =>
      cases v with
      | infinity _ | notANumber => exact hv.elim
      | zero s₂ =>
          unfold UnpackedFloat.add
          simp only
          split <;> simpa [exact] using RoundsTo.self (u := .zero _) trivial
      | finite s₂ m₂ e₂ p₂ => simpa [exact, UnpackedFloat.add] using RoundsTo.self hv
  | finite s₁ m₁ e₁ p₁ =>
      cases v with
      | infinity _ | notANumber => exact hv.elim
      | zero s₂ => simpa [exact, UnpackedFloat.add] using RoundsTo.self hu
      | finite s₂ m₂ e₂ p₂ =>
          have rounded := roundsTo_normalize (e := min e₁ e₂)
            (s₁.apply (decreaseExponent m₁ e₁ (min e₁ e₂)).1 +
              s₂.apply (decreaseExponent m₂ e₂ (min e₁ e₂)).1) .positive
          rwa [Int.cast_add, add_mul, aligned (min_le_left _ _), aligned (min_le_right _ _)] at rounded

theorem roundsTo_sub (hu : Canonical u) (hv : Canonical v) :
    RoundsTo (exact u - exact v) (UnpackedFloat.sub Format.binary64 u v) := by
  cases u with
  | infinity _ | notANumber => exact hu.elim
  | zero s₁ =>
      cases v with
      | infinity _ | notANumber => exact hv.elim
      | zero s₂ =>
          unfold UnpackedFloat.sub
          simp only
          split <;> simpa [exact] using RoundsTo.self (u := .zero _) trivial
      | finite s₂ m₂ e₂ p₂ =>
          obtain ⟨canonical, value⟩ := hv.neg
          rw [show exact (.zero s₁) = 0 from rfl, zero_sub, ← value]
          exact .self canonical
  | finite s₁ m₁ e₁ p₁ =>
      cases v with
      | infinity _ | notANumber => exact hv.elim
      | zero s₂ => simpa [exact, UnpackedFloat.sub] using RoundsTo.self hu
      | finite s₂ m₂ e₂ p₂ =>
          have rounded := roundsTo_normalize (e := min e₁ e₂)
            (s₁.apply (decreaseExponent m₁ e₁ (min e₁ e₂)).1 -
              s₂.apply (decreaseExponent m₂ e₂ (min e₁ e₂)).1) .positive
          rwa [Int.cast_sub, sub_mul, aligned (min_le_left _ _), aligned (min_le_right _ _)] at rounded

/-! Product and quotient. -/

theorem roundsTo_mul (hu : Canonical u) (hv : Canonical v) :
    RoundsTo (exact u * exact v) (UnpackedFloat.mul Format.binary64 u v) := by
  cases u with
  | infinity _ | notANumber => exact hu.elim
  | zero s₁ =>
      cases v with
      | infinity _ | notANumber => exact hv.elim
      | zero s₂ => simpa [exact, UnpackedFloat.mul] using RoundsTo.self (u := .zero _) trivial
      | finite s₂ m₂ e₂ p₂ =>
          simpa [exact, UnpackedFloat.mul] using RoundsTo.self (u := .zero _) trivial
  | finite s₁ m₁ e₁ p₁ =>
      cases v with
      | infinity _ | notANumber => exact hv.elim
      | zero s₂ => simpa [exact, UnpackedFloat.mul] using RoundsTo.self (u := .zero _) trivial
      | finite s₂ m₂ e₂ p₂ =>
          have wide : Wide (m₁ * m₂) (e₁ + e₂) := by
            rcases hu.2.2 with normal | low
            · exact .inl (normal.trans (Nat.le_mul_of_pos_right m₁ p₂))
            · rcases hv.2.2 with normal | low'
              · exact .inl (normal.trans (Nat.le_mul_of_pos_left m₂ p₁))
              · exact .inr (by omega)
          have near : Near (m₁ * m₂) (m₁ * m₂ : ℕ) .exact := rfl
          have rounded := roundsTo_roundWithAccuracy (s := s₁ * s₂) near wide
          have value : factor (s₁ * s₂) * (((m₁ * m₂ : ℕ) : ℚ) * 2 ^ (e₁ + e₂)) =
              factor s₁ * (m₁ * 2 ^ e₁) * (factor s₂ * (m₂ * 2 ^ e₂)) := by
            rw [factor_mul, zpow_add₀ (by norm_num)]
            push_cast
            ring
          rwa [value] at rounded

theorem near_quotient (num : ℕ) {den : ℕ} (hd : 0 < den) :
    Near (num / den) (num / den : ℚ) (accuracyOfFraction (num % den) den) := by
  have positive : (0 : ℚ) < den := by exact_mod_cast hd
  have split : (num : ℚ) = (num / den : ℕ) * den + (num % den : ℕ) := by
    exact_mod_cast (Nat.div_add_mod' num den).symm
  have below : ((num % den : ℕ) : ℚ) < den := by exact_mod_cast Nat.mod_lt num hd
  unfold accuracyOfFraction
  split
  · rename_i whole
    rw [whole, Nat.cast_zero, add_zero] at split
    exact (div_eq_iff positive.ne').mpr split
  · rename_i rest
    have above : (0 : ℚ) < (num % den : ℕ) := by exact_mod_cast Nat.pos_of_ne_zero rest
    exact ⟨(lt_div_iff₀ positive).mpr (by linarith), (div_lt_iff₀ positive).mpr (by linarith)⟩

theorem target_quotient (m₁ m₂ : ℕ) (e₁ e₂ : ℤ) :
    Format.binary64.targetExponent (totalExponent m₁ e₁ - totalExponent m₂ e₂) =
      max (m₁.log2 + e₁ - (m₂.log2 + e₂) - 53) (-1074) := by
  have least : Format.binary64.minExponent = -1074 := by decide
  have digits : (Format.binary64.mantissaBits : ℤ) = 53 := by decide
  rw [Format.targetExponent, totalExponent, totalExponent, least, digits]
  omega

theorem roundsTo_div (hu : Canonical u) (hv : Canonical v) (nonzero : exact v ≠ 0) :
    RoundsTo (exact u / exact v) (UnpackedFloat.div Format.binary64 u v) := by
  cases v with
  | infinity _ | notANumber => exact hv.elim
  | zero s₂ => exact absurd rfl nonzero
  | finite s₂ m₂ e₂ p₂ =>
      cases u with
      | infinity _ | notANumber => exact hu.elim
      | zero s₁ => simpa [exact, UnpackedFloat.div] using RoundsTo.self (u := .zero _) trivial
      | finite s₁ m₁ e₁ p₁ =>
          have target := target_quotient m₁ m₂ e₁ e₂
          obtain ⟨t, ht⟩ : ∃ t : ℤ, t = min (e₁ - e₂) (Format.binary64.targetExponent
            (totalExponent m₁ e₁ - totalExponent m₂ e₂)) := ⟨_, rfl⟩
          obtain ⟨n, hn⟩ : ∃ n : ℕ, n = (e₁ - e₂ - t).toNat := ⟨_, rfl⟩
          -- The dividend is moved so far that the quotient has its 53 digits.
          have wide : Wide (m₁ * 2 ^ n / m₂) t := by
            by_cases low : t ≤ -1074
            · exact .inr low
            · left
              rw [Nat.le_div_iff_mul_le p₂]
              calc 2 ^ 52 * m₂ ≤ 2 ^ 52 * 2 ^ (m₂.log2 + 1) :=
                    Nat.mul_le_mul_left _ Nat.lt_log2_self.le
                _ ≤ 2 ^ m₁.log2 * 2 ^ n := by
                    rw [← pow_add, ← pow_add]
                    exact Nat.pow_le_pow_right (by decide) (by omega)
                _ ≤ m₁ * 2 ^ n := Nat.mul_le_mul_right _ (Nat.log2_self_le p₁.ne')
          have rounded := roundsTo_roundWithAccuracy (s := s₁ / s₂) (near_quotient (m₁ * 2 ^ n) p₂) wide
          have value : factor (s₁ / s₂) * (((m₁ * 2 ^ n : ℕ) : ℚ) / m₂ * 2 ^ t) =
              factor s₁ * (m₁ * 2 ^ e₁) / (factor s₂ * (m₂ * 2 ^ e₂)) := by
            rw [factor_div, two_zpow_split (show e₂ + t + n = e₁ by omega), zpow_add₀ (by norm_num)]
            have : (m₂ : ℚ) ≠ 0 := by exact_mod_cast p₂.ne'
            push_cast
            field_simp
          rw [value] at rounded
          simp only [UnpackedFloat.div, divCore, ← ht, ← hn, Nat.shiftLeft_eq]
          exact rounded

/-! Square root. -/

theorem le_of_sq_le {a q : ℚ} (h : a * a ≤ q) : a ≤ max 1 q := by
  rcases le_total a 1 with small | large
  · exact le_max_of_le_left small
  · exact le_max_of_le_right (by nlinarith)

theorem lt_of_sq_lt {a q : ℚ} (h : a * a < q) : a < max 1 q := by
  rcases lt_or_ge a 1 with small | large
  · exact lt_max_of_lt_left small
  · exact lt_max_of_lt_right (by nlinarith)

theorem target_root (m : ℕ) (e : ℤ) :
    Format.binary64.targetExponent ((totalExponent m e + 1).ediv 2) =
      max ((m.log2 + e + 2) / 2 - 53) (-1074) := by
  have least : Format.binary64.minExponent = -1074 := by decide
  have digits : (Format.binary64.mantissaBits : ℤ) = 53 := by decide
  rw [Format.targetExponent, totalExponent, least, digits]
  congr 3
  omega

/-- A whole root that leaves a rest is strictly below some number that is not too large a root. -/
theorem exists_near_root {root square : ℕ} {t : ℤ} (least : root * root ≤ square) (o : Ordering) :
    ∃ z : ℚ, 0 ≤ z ∧ z * 2 ^ t ≤ max 1 ((square : ℚ) * (2 ^ t * 2 ^ t)) ∧
      Near root z (if square - root * root = 0 then .exact else .inexact o) := by
  have unit : (0 : ℚ) < 2 ^ t := by positivity
  split
  · rename_i whole
    have square_eq : (square : ℚ) = root * root := by exact_mod_cast (by omega : square = root * root)
    exact ⟨root, Nat.cast_nonneg root, le_of_sq_le (by rw [square_eq]; exact le_of_eq (by ring)), rfl⟩
  · rename_i rest
    have below : (root * root : ℚ) < square := by exact_mod_cast (by omega : root * root < square)
    have room : (root : ℚ) * 2 ^ t < max 1 ((square : ℚ) * (2 ^ t * 2 ^ t)) :=
      lt_of_sq_lt (by nlinarith [mul_pos unit unit])
    have above : (root : ℚ) < max 1 ((square : ℚ) * (2 ^ t * 2 ^ t)) / 2 ^ t := (lt_div_iff₀ unit).mpr room
    obtain ⟨z, hz, hz'⟩ := exists_between (lt_min above (lt_add_one (root : ℚ)))
    rw [lt_min_iff] at hz'
    exact ⟨z, (Nat.cast_nonneg root).trans hz.le, ((lt_div_iff₀ unit).mp hz'.1).le, hz, hz'.2⟩

/-- The root of a positive double is rounded from a number between zero and the larger of it and one. -/
theorem roundsTo_sqrt (hu : Canonical u) (nonneg : 0 ≤ exact u) :
    ∃ y, 0 ≤ y ∧ y ≤ max 1 (exact u) ∧ RoundsTo y (UnpackedFloat.sqrt Format.binary64 u) := by
  cases u with
  | infinity _ | notANumber => exact hu.elim
  | zero s => exact ⟨0, le_rfl, by simp, .self (u := .zero s) trivial⟩
  | finite s m e p =>
      cases s with
      | negative =>
          have : (0 : ℚ) < m * 2 ^ e := mul_pos (by exact_mod_cast p) (by positivity)
          simp only [exact, factor] at nonneg
          linarith
      | positive =>
          have target := target_root m e
          obtain ⟨t, ht⟩ : ∃ t : ℤ, t = min (e.ediv 2) (Format.binary64.targetExponent
            ((totalExponent m e + 1).ediv 2)) := ⟨_, rfl⟩
          have half : e.ediv 2 = e / 2 := rfl
          obtain ⟨n, hn⟩ : ∃ n : ℕ, n = (e - 2 * t).toNat := ⟨_, rfl⟩
          obtain ⟨square, hs⟩ : ∃ square : ℕ, square = m * 2 ^ n := ⟨_, rfl⟩
          obtain ⟨root, hr⟩ : ∃ root : ℕ, root = Nat.sqrt square := ⟨_, rfl⟩
          have least : root * root ≤ square := hr ▸ Nat.sqrt_le square
          -- So is the square, which has twice the digits of its root.
          have wide : Wide root t := by
            by_cases low : t ≤ -1074
            · exact .inr low
            · left
              have : 2 ^ 52 * 2 ^ 52 ≤ square := by
                calc 2 ^ 52 * 2 ^ 52 ≤ 2 ^ (m.log2 + n) := by
                      rw [← pow_add]
                      exact Nat.pow_le_pow_right (by decide) (by omega)
                  _ = 2 ^ m.log2 * 2 ^ n := pow_add _ _ _
                  _ ≤ square := hs ▸ Nat.mul_le_mul_right _ (Nat.log2_self_le p.ne')
              exact hr ▸ Nat.le_sqrt.mpr this
          obtain ⟨z, positive, le, near⟩ := exists_near_root (t := t) least
            (if square - root * root ≤ root then .lt else .gt)
          have value : exact (.finite .positive m e p) = (square : ℚ) * (2 ^ t * 2 ^ t) := by
            rw [exact, factor, one_mul, hs, two_zpow_split (show t + t + n = e by omega),
              zpow_add₀ (by norm_num)]
            push_cast
            ring
          have rounded := roundsTo_roundWithAccuracy (s := .positive) near wide
          rw [factor, one_mul] at rounded
          refine ⟨z * 2 ^ t, by positivity, value ▸ le, ?_⟩
          simp only [UnpackedFloat.sqrt, sqrtCore, ← ht, ← hn, Nat.shiftLeft_eq, ← hs, ← hr]
          exact rounded

end ClauseFeatures.Double
