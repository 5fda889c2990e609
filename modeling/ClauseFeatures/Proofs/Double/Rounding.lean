import ClauseFeatures.Proofs.Double.Grid

/-!
Rounding of unpacked doubles. A mantissa with its two residual bits tells where the exact number lies: on
the mantissa, or strictly between it and the next one. Shifting keeps this; rounding reads it off. So the
common last step of all operations rounds the exact result, whatever its exponent.
-/
namespace ClauseFeatures.Double

open Float.Model Float.Model.UnpackedFloat

def factor : Sign → ℚ
  | .negative => -1
  | .positive => 1

/-- The number that an unpacked double stands for; `0` also for the infinities and the NaN. -/
def exact : UnpackedFloat → ℚ
  | .finite s m e _ => factor s * (m * 2 ^ e)
  | _ => 0

theorem Rounds.signed {q c : ℚ} (h : Rounds q c) (s : Sign) : Rounds (factor s * q) (factor s * c) := by
  cases s with
  | positive => simpa [factor] using h
  | negative => simpa [factor] using h.neg

/-- A finite double in the form in which it is stored, but for a limit of the exponent. -/
def Canonical : UnpackedFloat → Prop
  | .finite _ m e _ => m < 2 ^ 53 ∧ -1074 ≤ e ∧ (2 ^ 52 ≤ m ∨ e = -1074)
  | .zero _ => True
  | _ => False

/-- An unpacked double that a number may be rounded to. -/
structure RoundsTo (q : ℚ) (u : UnpackedFloat) : Prop where
  canonical : Canonical u
  rounds : Rounds q (exact u)

theorem Canonical.grid {u : UnpackedFloat} (h : Canonical u) : Grid (exact u) := by
  cases u with
  | finite s m e _ =>
      obtain ⟨small, least, -⟩ := h
      have bound : |(m : ℤ)| ≤ 2 ^ 53 := by
        rw [abs_of_nonneg (Int.natCast_nonneg m)]
        exact_mod_cast small.le
      have positive : Grid (m * 2 ^ e) := by exact_mod_cast Grid.scaled bound least
      exact ((Rounds.refl positive).signed s).grid
  | zero _ | infinity _ | notANumber => exact .zero

theorem RoundsTo.self {u : UnpackedFloat} (h : Canonical u) : RoundsTo (exact u) u :=
  ⟨h, .refl h.grid⟩

/-! The residual bits. -/

/-- Where an exact mantissa lies by what is known of it. -/
def Near (m : ℕ) (z : ℚ) : Accuracy → Prop
  | .exact => z = m
  | .inexact _ => m < z ∧ z < m + 1

/-- Where an exact mantissa lies by the bits that were shifted out. -/
def Holds (em : ExtendedMantissa) (z : ℚ) : Prop :=
  ((em.roundBit || em.stickyBit) = false ∧ z = em.mantissa) ∨
    ((em.roundBit || em.stickyBit) = true ∧ em.mantissa < z ∧ z < em.mantissa + 1)

namespace Holds

variable {em : ExtendedMantissa} {z : ℚ}

theorem init {m : ℕ} {acc : Accuracy} (h : Near m z acc) :
    Holds (.ofMantissaAndAccuracy m acc) z := by
  cases acc with
  | exact => exact .inl ⟨rfl, h⟩
  | inexact o => cases o <;> exact .inr ⟨rfl, h⟩

theorem bounds (h : Holds em z) : (em.mantissa : ℚ) ≤ z ∧ z < em.mantissa + 1 := by
  rcases h with ⟨-, rfl⟩ | ⟨-, above, below⟩
  · exact ⟨le_rfl, lt_add_one _⟩
  · exact ⟨above.le, below⟩

theorem shiftRightOne (h : Holds em z) : Holds em.shiftRightOne (z / 2) := by
  have digits : (em.mantissa : ℚ) = 2 * (em.mantissa / 2 : ℕ) + (em.mantissa % 2 : ℕ) := by
    exact_mod_cast (Nat.div_add_mod em.mantissa 2).symm
  rcases Nat.mod_two_eq_zero_or_one em.mantissa with last | last <;> rw [last] at digits <;>
    push_cast at digits <;> rcases h with ⟨kept, rfl⟩ | ⟨lost, above, below⟩
  · exact .inl ⟨by simp [ExtendedMantissa.shiftRightOne, last, kept],
      show _ = ((em.mantissa / 2 : ℕ) : ℚ) by linarith⟩
  all_goals
    refine .inr ⟨by simp [ExtendedMantissa.shiftRightOne, *], ?_, ?_⟩
    · show ((em.mantissa / 2 : ℕ) : ℚ) < _
      linarith
    · show _ < ((em.mantissa / 2 : ℕ) : ℚ) + 1
      linarith

theorem shiftRight (h : Holds em z) (n : ℕ) : Holds (em >>> n) (z / 2 ^ n) := by
  induction n with
  | zero =>
      rw [pow_zero, div_one]
      exact h
  | succ n ih =>
      rw [pow_succ, ← div_div]
      exact ih.shiftRightOne

theorem roundedMantissa (h : Holds em z) :
    em.roundedMantissa ≤ em.mantissa + 1 ∧ (∀ k : ℤ, z ≤ k → (em.roundedMantissa : ℤ) ≤ k) ∧
      ∀ k : ℤ, (k : ℚ) ≤ z → k ≤ em.roundedMantissa := by
  -- Which of the two neighbours is taken does not matter, but a whole mantissa is kept.
  have range : em.mantissa ≤ em.roundedMantissa ∧ em.roundedMantissa ≤ em.mantissa + 1 ∧
      ((em.roundBit || em.stickyBit) = false → em.roundedMantissa = em.mantissa) := by
    obtain ⟨m, round, sticky⟩ := em
    cases round <;> cases sticky <;>
      simp [ExtendedMantissa.roundedMantissa, ExtendedMantissa.accuracy, Accuracy.roundToNearestEven]
    omega
  obtain ⟨ge, le, kept⟩ := range
  refine ⟨le, fun k hk => ?_, fun k hk => ?_⟩
  · rcases h with ⟨none, rfl⟩ | ⟨-, above, -⟩
    · rw [kept none]
      exact_mod_cast hk
    · have : (em.mantissa : ℤ) < k := by exact_mod_cast above.trans_le hk
      omega
  · have : k < em.mantissa + 1 := by exact_mod_cast hk.trans_lt h.bounds.2
    omega

end Holds

theorem mantissa_shiftRight (em : ExtendedMantissa) (n : ℕ) :
    (em >>> n).mantissa = em.mantissa / 2 ^ n := by
  induction n with
  | zero => exact (Nat.div_one _).symm
  | succ n ih =>
      rw [pow_succ, ← Nat.div_div_eq_div_mul, ← ih]
      rfl

/-! The target exponent. -/

/-- The exponent at which a number keeps 53 digits, or the least one. -/
theorem target_eq (m : ℕ) (e : ℤ) :
    Format.binary64.targetExponent (totalExponent m e) = max (m.log2 + e - 52) (-1074) := by
  have least : Format.binary64.minExponent = -1074 := by decide
  have digits : (Format.binary64.mantissaBits : ℤ) = 53 := by decide
  rw [Format.targetExponent, totalExponent, least, digits]
  omega

/-- After a shift to the target exponent a mantissa has 53 digits, fewer only at the least exponent. -/
theorem digits_of_shift {m n : ℕ} {e t : ℤ} (ht : t = max (m.log2 + e - 52) (-1074))
    (hn : e + n = t) : m / 2 ^ n < 2 ^ 53 ∧ (t = -1074 ∨ 2 ^ 52 ≤ m / 2 ^ n) := by
  constructor
  · rw [Nat.div_lt_iff_lt_mul (by positivity), ← pow_add]
    exact Nat.lt_log2_self.trans_le (Nat.pow_le_pow_right (by decide) (by omega))
  · by_cases low : t = -1074
    · exact .inl low
    · have nonzero : m ≠ 0 := by
        rintro rfl
        rw [Nat.log2_zero] at ht
        omega
      rw [Nat.le_div_iff_mul_le (by positivity), ← pow_add]
      exact .inr ((Nat.pow_le_pow_right (by decide) (by omega)).trans (Nat.log2_self_le nonzero))

theorem log2_le {m k : ℕ} (h : m < 2 ^ (k + 1)) : m.log2 ≤ k := by
  by_cases zero : m = 0
  · rw [zero, Nat.log2_zero]
    exact Nat.zero_le k
  · exact Nat.lt_succ_iff.mp ((Nat.log2_lt zero).mpr h)

/-! The common last step of the operations. -/

variable {s : Sign} {m : ℕ} {e : ℤ}

/-- A mantissa that has at least 53 digits, or an exponent that is not above the least one. -/
def Wide (m : ℕ) (e : ℤ) : Prop := 2 ^ 52 ≤ m ∨ e ≤ -1074

theorem Wide.le_target (h : Wide m e) : e ≤ max (m.log2 + e - 52) (-1074) := by
  rcases h with normal | low
  · have : 52 ≤ m.log2 := (Nat.le_log2 (by omega)).mpr normal
    omega
  · omega

/-- What is made of a rounded mantissa. -/
def settled (s : Sign) (R : ℕ) (t : ℤ) : UnpackedFloat :=
  let shifted := shiftToTargetExponent Format.binary64 R t .exact
  if h : shifted.1.mantissa = 0 then .zero s
  else .finite s shifted.1.mantissa shifted.2 (Nat.pos_of_ne_zero h)

theorem settled_spec {R : ℕ} {t : ℤ} (small : R ≤ 2 ^ 53) (least : -1074 ≤ t)
    (normal : t = -1074 ∨ 2 ^ 52 ≤ R) :
    Canonical (settled s R t) ∧ exact (settled s R t) = factor s * (R * 2 ^ t) := by
  obtain ⟨n, hn⟩ : ∃ n : ℕ, n = (max (R.log2 + t - 52) (-1074) - t).toNat := ⟨_, rfl⟩
  have mantissa : (shiftToTargetExponent Format.binary64 R t .exact).1.mantissa = R / 2 ^ n := by
    rw [hn, ← target_eq]
    exact mantissa_shiftRight _ _
  have exponent : (shiftToTargetExponent Format.binary64 R t .exact).2 = t + n := by
    rw [hn, ← target_eq]
    rfl
  have stored : (R / 2 ^ n < 2 ^ 53 ∧ -1074 ≤ t + n ∧ (2 ^ 52 ≤ R / 2 ^ n ∨ t + n = -1074)) ∧
      ((R / 2 ^ n : ℕ) : ℚ) * 2 ^ (t + n) = R * 2 ^ t := by
    -- The mantissa is only shifted once more if it has grown a digit.
    rcases small.lt_or_eq with fits | grown
    · have none : n = 0 := by
        have := log2_le (k := 52) fits
        omega
      rw [none, pow_zero, Nat.div_one, Nat.cast_zero, add_zero]
      exact ⟨⟨fits, least, normal.symm⟩, rfl⟩
    · have one : n = 1 := by
        rw [hn, grown, Nat.log2_two_pow]
        omega
      rw [one, grown, Nat.cast_one, zpow_add₀ (by norm_num)]
      refine ⟨⟨by decide, by omega, .inl (by decide)⟩, ?_⟩
      norm_num
      ring
  simp only [settled, mantissa, exponent]
  split
  · rename_i zero
    rw [zero, Nat.cast_zero, zero_mul] at stored
    exact ⟨trivial, by rw [← stored.2, mul_zero]; rfl⟩
  · exact ⟨stored.1, by rw [← stored.2]; rfl⟩

theorem roundsTo_roundWithAccuracy {acc : Accuracy} {z : ℚ} (near : Near m z acc) (wide : Wide m e) :
    RoundsTo (factor s * (z * 2 ^ e)) (roundWithAccuracy Format.binary64 s m e acc) := by
  obtain ⟨n, hn⟩ : ∃ n : ℕ, (max (m.log2 + e - 52) (-1074) - e).toNat = n := ⟨_, rfl⟩
  obtain ⟨t, ht⟩ : ∃ t : ℤ, t = max (m.log2 + e - 52) (-1074) := ⟨_, rfl⟩
  have reached : e + n = t := by
    have := wide.le_target
    omega
  obtain ⟨em, hem⟩ : ∃ em, em = ExtendedMantissa.ofMantissaAndAccuracy m acc >>> n := ⟨_, rfl⟩
  have shifted : shiftToTargetExponent Format.binary64 m e acc = (em, t) := by
    rw [shiftToTargetExponent, target_eq, shiftToExponent, hn, ← hem, reached]
  have holds : Holds em (z / 2 ^ n) := hem ▸ (Holds.init near).shiftRight n
  have mantissa : em.mantissa = m / 2 ^ n := by
    rw [hem, mantissa_shiftRight]
    congr 1
    cases acc with
    | exact => rfl
    | inexact o => cases o <;> rfl
  obtain ⟨digits, normal⟩ := digits_of_shift ht reached
  rw [← mantissa] at digits normal
  obtain ⟨le, up, down⟩ := holds.roundedMantissa
  have ge : em.mantissa ≤ em.roundedMantissa := by
    exact_mod_cast down em.mantissa (by exact_mod_cast holds.bounds.1)
  have value : z * 2 ^ e = z / 2 ^ n * 2 ^ t := by
    rw [← reached, zpow_add₀ (by norm_num), zpow_natCast]
    field_simp
  -- What was shifted out is remembered well enough to tell on which side of the mantissa `z` lies.
  have rounds : Rounds (z * 2 ^ e) (em.roundedMantissa * 2 ^ t) := by
    rw [value]
    refine .of_mantissa (by omega) (normal.imp_right fun h => ?_) (by omega) up down
    exact le_trans (by exact_mod_cast h) holds.bounds.1
  have result : roundWithAccuracy Format.binary64 s m e acc = settled s em.roundedMantissa t := by
    unfold roundWithAccuracy
    rw [shifted]
    rfl
  obtain ⟨canonical, value⟩ := settled_spec (s := s) (R := em.roundedMantissa) (t := t) (by omega)
    (by omega) (normal.imp_right fun h => h.trans ge)
  rw [result]
  exact ⟨canonical, value ▸ rounds.signed s⟩

end ClauseFeatures.Double
