import ClauseFeatures.Double.Nearest
import ClauseFeatures.Proofs.Double.Value

/-!
The exact side of doubles: comparison with integers is that of the values, and the double nearest to a
fraction is one that the fraction may be rounded to.
-/
namespace ClauseFeatures.Double

open Float.Model Float.Model.UnpackedFloat

/-! Parts and bit patterns. -/

def isSet : Sign → Bool
  | .negative => true
  | .positive => false

def partsOf : UnpackedFloat → Parts
  | .notANumber => .nan
  | .infinity s => .infinite (isSet s)
  | .zero s => .finite (isSet s) 0 leastExponent
  | .finite s m e _ => .finite (isSet s) m e

theorem partsOf_ofFields (s : Sign) (stored fraction : ℕ) :
    partsOf (ofFields s stored fraction) =
      if stored = 2047 then if fraction = 0 then .infinite (isSet s) else .nan
      else if stored = 0 then .finite (isSet s) fraction (-1074)
      else .finite (isSet s) (fraction + 2 ^ 52) (stored - 1075) := by
  unfold ofFields
  split
  · split <;> rfl
  · split
    · split
      · rename_i zero
        rw [zero]
        rfl
      · rfl
    · rfl

theorem isSet_ite (c : Prop) [Decidable c] :
    isSet (if c then .negative else .positive) = decide c := by
  split <;> simp [isSet, *]

theorem parts_eq (x : Float) : parts x = partsOf x.toModel.unpack := by
  obtain ⟨n, hn⟩ : ∃ n, n = x.toBits.toNat := ⟨_, rfl⟩
  have pattern : x.toModel.unpack = ofFields _ _ _ := unpack_eq x.toModel.toBits.toBitVec
  have bits : x.toModel.toBits.toBitVec.toNat = n := hn.symm
  have bias (stored : ℕ) : leastExponent + stored - 1 = (stored : ℤ) - 1075 := by
    rw [leastExponent]
    omega
  rw [pattern, unpackSign_eq, unpackExponent_toNat, unpackMantissa_toNat, bits, partsOf_ofFields,
    isSet_ite, ← bias]
  unfold parts
  rw [← hn]
  rfl

theorem fraction_spec (m : ℕ) (e : ℤ) :
    0 < (fraction m e).2 ∧ ((fraction m e).1 : ℚ) = m * 2 ^ e * (fraction m e).2 := by
  unfold fraction
  split
  · rename_i whole
    refine ⟨Nat.one_pos, ?_⟩
    show ((m * 2 ^ e.toNat : ℕ) : ℚ) = m * 2 ^ e * (1 : ℕ)
    rw [two_zpow_split (show 0 + (e.toNat : ℤ) = e by omega)]
    simp
  · rename_i below
    refine ⟨Nat.pow_pos (by decide), ?_⟩
    show (m : ℚ) = m * 2 ^ e * ((2 ^ (-e).toNat : ℕ) : ℚ)
    have unit := two_zpow_split (show e + ((-e).toNat : ℤ) = 0 by omega)
    rw [zpow_zero] at unit
    push_cast
    linear_combination (m : ℚ) * unit

/-- The comparison of a signed fraction with an integer, both over the denominator of the fraction. -/
theorem compare_fraction (s : Sign) (m : ℕ) (e n : ℤ) :
    compare (if isSet s then -((fraction m e).1 : ℤ) else (fraction m e).1) (n * (fraction m e).2) =
      compare (factor s * (m * 2 ^ e)) (n : ℚ) := by
  obtain ⟨positive, whole⟩ := fraction_spec m e
  have unit : (0 : ℚ) < (fraction m e).2 := by exact_mod_cast positive
  have signed : ((if isSet s then -((fraction m e).1 : ℤ) else (fraction m e).1 : ℤ) : ℚ) =
      factor s * (m * 2 ^ e) * (fraction m e).2 := by
    cases s <;> simp [isSet, factor, whole]
  refine compare_congr ?_ ?_
  · rw [← Int.cast_lt (R := ℚ), signed, Int.cast_mul, Int.cast_natCast, mul_lt_mul_iff_left₀ unit]
  · rw [← Int.cast_lt (R := ℚ), signed, Int.cast_mul, Int.cast_natCast, mul_lt_mul_iff_left₀ unit]

theorem compareInt_eq {x : Float} (h : x.isFinite) (n : ℤ) :
    compareInt x n = some (compare (value x) n) := by
  have canonical := isFinite_iff.mp h
  unfold compareInt value
  rw [parts_eq]
  generalize x.toModel.unpack = u at canonical ⊢
  cases u with
  | infinity _ | notANumber => exact canonical.elim
  | zero s =>
      rw [partsOf]
      generalize leastExponent = e
      have compared := compare_fraction s 0 e n
      rw [Nat.cast_zero, zero_mul, mul_zero] at compared
      exact congrArg some compared
  | finite s m e p => exact congrArg some (compare_fraction s m e n)

theorem isFinite_of_compareInt {x : Float} {n : ℤ} (above : compareInt x 0 ≠ some .lt)
    (below : compareInt x n = some .lt) : x.isFinite := by
  rw [isFinite_iff]
  have stored := stored x
  unfold compareInt at above below
  rw [parts_eq] at above below
  generalize x.toModel.unpack = u at above below stored ⊢
  cases u with
  | notANumber => cases below
  | infinity s =>
      cases s with
      | negative => exact absurd rfl above
      | positive => cases below
  | zero s => trivial
  | finite s m e p => exact ⟨stored.1, stored.2.1, stored.2.2.2⟩

theorem unpack_ofBits (n : UInt64) :
    (Float.ofBits n).toModel.unpack = UnpackedFloat.unpack Format.binary64 n.toBitVec :=
  unpack_ofModel_pack (stored_unpack _)

theorem unpack_ofNat {s : Sign} {magnitude : ℕ} (h : magnitude < 2 ^ 63) :
    (Float.ofBits (UInt64.ofNat (magnitude + if isSet s then 2 ^ 63 else 0))).toModel.unpack =
      ofFields s (magnitude / 2 ^ 52) (magnitude % 2 ^ 52) := by
  obtain ⟨n, hn⟩ : ∃ n, n = magnitude + if isSet s then 2 ^ 63 else 0 := ⟨_, rfl⟩
  have range : n < 2 ^ 64 := by
    rw [hn]
    split <;> omega
  have bits : (UInt64.ofNat n).toBitVec.toNat = n := by
    rw [UInt64.toBitVec_ofNat', BitVec.toNat_ofNat]
    omega
  rw [← hn, unpack_ofBits, unpack_eq, unpackSign_eq, unpackExponent_toNat, unpackMantissa_toNat, bits]
  have sign : (if 2 ^ 63 ≤ n then Sign.negative else .positive) = s := by
    cases s with
    | negative => exact if_pos (by rw [hn]; exact Nat.le_add_left _ _)
    | positive => exact if_neg (by rw [hn]; exact not_le.mpr h)
  have exponent : n / 2 ^ 52 % 2 ^ 11 = magnitude / 2 ^ 52 := by
    rw [hn]
    split <;> omega
  have fraction : n % 2 ^ 52 = magnitude % 2 ^ 52 := by
    rw [hn]
    split <;> omega
  rw [sign, exponent, fraction]

theorem pack_exact {s : Sign} {m : ℕ} {e : ℤ} (small : m ≤ 2 ^ 53) (least : -1074 ≤ e)
    (normal : 2 ^ 52 ≤ m ∨ e = -1074) (le : (m * 2 ^ e : ℚ) ≤ limit) :
    (pack (isSet s) m e).isFinite ∧ value (pack (isSet s) m e) = factor s * (m * 2 ^ e) := by
  have bound {k : ℕ} (hk : 2 ^ k ≤ m) : k + e ≤ 1023 := by
    have : (2 ^ (k + e) : ℚ) ≤ 2 ^ (1023 : ℤ) := by
      rw [zpow_add₀ (by norm_num), zpow_natCast]
      exact (mul_le_mul_of_nonneg_right (by exact_mod_cast hk) (by positivity)).trans le
    exact (zpow_le_zpow_iff_right₀ (by norm_num)).mp this
  obtain ⟨magnitude, hm⟩ : ∃ magnitude, magnitude = (e + 1074).toNat * 2 ^ 52 + m := ⟨_, rfl⟩
  have normal_le (h : 2 ^ 52 ≤ m) : e ≤ 971 := by
    have := bound h
    omega
  have grown_le (h : m = 2 ^ 53) : e ≤ 970 := by
    have := bound h.ge
    omega
  have fits : magnitude < 2047 * 2 ^ 52 := by omega
  have packed : pack (isSet s) m e =
      Float.ofBits (UInt64.ofNat (magnitude + if isSet s then 2 ^ 63 else 0)) := by
    unfold pack
    rw [hm]
    exact if_neg (not_le.mpr (hm ▸ fits))
  rw [isFinite_iff, value, packed, unpack_ofNat (by omega)]
  -- Fewer than 53 digits leave the exponent field at zero; a mantissa that has grown a digit carries into it.
  rcases lt_or_ge m (2 ^ 52) with low | long
  · have lowest : e = -1074 := normal.resolve_left (by omega)
    have high : magnitude / 2 ^ 52 = 0 := by omega
    have rest : magnitude % 2 ^ 52 = m := by omega
    rw [high, rest, ofFields, if_neg (by decide), if_pos rfl, lowest]
    split
    · rename_i zero
      rw [zero, Nat.cast_zero, zero_mul, mul_zero]
      exact ⟨trivial, rfl⟩
    · exact ⟨⟨by omega, le_rfl, .inr rfl⟩, rfl⟩
  · obtain ⟨stored, hs⟩ : ∃ stored, stored = magnitude / 2 ^ 52 := ⟨_, rfl⟩
    obtain ⟨fraction, hf⟩ : ∃ fraction, fraction = magnitude % 2 ^ 52 := ⟨_, rfl⟩
    have shape : (fraction + 2 ^ 52 = m ∧ (stored : ℤ) - 1075 = e) ∨
        (fraction = 0 ∧ m = 2 ^ 53 ∧ (stored : ℤ) - 1075 = e + 1) := by omega
    rw [← hs, ← hf, ofFields, if_neg (by omega), if_neg (by omega)]
    refine ⟨⟨by omega, by omega, .inl (by omega)⟩, ?_⟩
    rw [exact]
    rcases shape with ⟨same, exponent⟩ | ⟨none, grown, exponent⟩
    · rw [same, exponent]
    · rw [none, grown, exponent, zpow_add_one₀ (by norm_num)]
      push_cast
      ring

/-! Rounding of fractions. -/

theorem roundDiv_spec (num : ℕ) {den : ℕ} (h : 0 < den) :
    (∀ k : ℤ, (num / den : ℚ) ≤ k → (roundDiv num den : ℤ) ≤ k) ∧
      ∀ k : ℤ, (k : ℚ) ≤ num / den → k ≤ roundDiv num den := by
  have positive : (0 : ℚ) < den := by exact_mod_cast h
  have split := Nat.div_add_mod' num den
  have below := Nat.mod_lt num h
  have range : num / den ≤ roundDiv num den ∧ roundDiv num den ≤ num / den + 1 ∧
      (num % den = 0 → roundDiv num den = num / den) := by
    unfold roundDiv
    simp only
    split
    · omega
    · split <;> omega
  obtain ⟨ge, le, whole⟩ := range
  refine ⟨fun k hk => ?_, fun k hk => ?_⟩
  · have cross : (num : ℤ) ≤ k * den := by exact_mod_cast (div_le_iff₀ positive).mp hk
    have floor : ((num / den : ℕ) : ℤ) ≤ k := by
      push_cast
      exact Int.ediv_le_of_le_mul (by exact_mod_cast h) cross
    by_cases rest : num % den = 0
    · rw [whole rest]
      exact floor
    · have strict : ((num / den : ℕ) : ℤ) ≠ k := by
        rintro rfl
        have : num ≤ num / den * den := by exact_mod_cast cross
        omega
      omega
  · have cross : k * den ≤ (num : ℤ) := by exact_mod_cast (le_div_iff₀ positive).mp hk
    have : k ≤ ((num / den : ℕ) : ℤ) := by
      push_cast
      exact Int.le_ediv_of_mul_le (by exact_mod_cast h) cross
    omega

theorem scaled_spec (num : ℕ) {den : ℕ} (h : 0 < den) (e : ℤ) :
    0 < (scaled num den e).2 ∧
      ((scaled num den e).1 / (scaled num den e).2 : ℚ) = num / den / 2 ^ e := by
  have positive : (0 : ℚ) < den := by exact_mod_cast h
  unfold scaled
  split
  · refine ⟨Nat.mul_pos h (Nat.pow_pos (by decide)), ?_⟩
    show (num / (den * 2 ^ e.toNat : ℕ) : ℚ) = _
    rw [two_zpow_split (show 0 + (e.toNat : ℤ) = e by omega), zpow_zero, mul_one]
    push_cast
    rw [div_div]
  · refine ⟨h, ?_⟩
    show ((num * 2 ^ (-e).toNat : ℕ) / den : ℚ) = _
    have unit := two_zpow_split (show e + ((-e).toNat : ℤ) = 0 by omega)
    rw [zpow_zero] at unit
    rw [eq_div_iff (by positivity)]
    push_cast
    field_simp
    linear_combination (-(num : ℚ)) * unit

theorem binaryLength_spec {k : ℕ} (hk : 0 < k) :
    (2 ^ (binaryLength k : ℤ) : ℚ) ≤ 2 * k ∧ (k : ℚ) < 2 ^ (binaryLength k : ℤ) := by
  rw [binaryLength, if_neg hk.ne', zpow_natCast, pow_succ]
  constructor
  · rw [mul_comm]
    exact mul_le_mul_of_nonneg_left (by exact_mod_cast Nat.log2_self_le hk.ne') (by norm_num)
  · rw [← pow_succ]
    exact_mod_cast Nat.lt_log2_self

theorem guess_spec {num den : ℕ} (hn : 0 < num) (h : 0 < den) {guess : ℤ}
    (hg : guess = (binaryLength num : ℤ) - binaryLength den - 53) :
    (2 ^ 52 : ℚ) ≤ num / den / 2 ^ guess ∧ (num / den / 2 ^ guess : ℚ) < 2 ^ 54 := by
  have positive : (0 : ℚ) < den := by exact_mod_cast h
  have unit : (0 : ℚ) < 2 ^ (binaryLength den : ℤ) := by positivity
  have scale : (num / den / 2 ^ guess : ℚ) =
      num * 2 ^ 53 * 2 ^ (binaryLength den : ℤ) / (den * 2 ^ (binaryLength num : ℤ)) := by
    rw [hg, zpow_sub₀ (by norm_num), zpow_sub₀ (by norm_num)]
    field_simp
  obtain ⟨numLow, numHigh⟩ := binaryLength_spec hn
  obtain ⟨denLow, denHigh⟩ := binaryLength_spec h
  rw [scale]
  constructor
  · rw [le_div_iff₀ (by positivity)]
    nlinarith
  · rw [div_lt_iff₀ (by positivity)]
    nlinarith

theorem roundingExponent_spec (num : ℕ) {den : ℕ} (h : 0 < den) :
    -1074 ≤ roundingExponent num den ∧
    (num / den / 2 ^ roundingExponent num den : ℚ) < 2 ^ 53 ∧
      (roundingExponent num den = -1074 ∨
        (2 ^ 52 : ℚ) ≤ num / den / 2 ^ roundingExponent num den) := by
  -- The lengths bound the quotient up to a factor of four, so the first guess is right or one too small.
  by_cases zero : num = 0
  · rw [roundingExponent, if_pos zero, zero, Nat.cast_zero, zero_div, zero_div]
    exact ⟨le_rfl, by norm_num, .inl rfl⟩
  obtain ⟨guess, hg⟩ : ∃ guess : ℤ, guess = (binaryLength num : ℤ) - binaryLength den - 53 := ⟨_, rfl⟩
  obtain ⟨low, high⟩ := guess_spec (Nat.pos_of_ne_zero zero) h hg
  obtain ⟨positive, value⟩ := scaled_spec num h guess
  have digits : 2 ^ 53 ≤ (scaled num den guess).1 / (scaled num den guess).2 ↔
      (2 ^ 53 : ℚ) ≤ num / den / 2 ^ guess := by
    rw [Nat.le_div_iff_mul_le positive, ← value, le_div_iff₀ (by exact_mod_cast positive)]
    norm_cast
  obtain ⟨e, he, within⟩ : ∃ e, roundingExponent num den = max e (-1074) ∧
      (2 ^ 52 : ℚ) ≤ num / den / 2 ^ e ∧ (num / den / 2 ^ e : ℚ) < 2 ^ 53 := by
    have unfolded : roundingExponent num den = max (if 2 ^ 53 ≤ (scaled num den guess).1 /
        (scaled num den guess).2 then guess + 1 else guess) (-1074) := by
      rw [roundingExponent, if_neg zero, hg]
      rfl
    by_cases long : 2 ^ 53 ≤ (scaled num den guess).1 / (scaled num den guess).2
    · have next : (num / den / 2 ^ (guess + 1) : ℚ) = num / den / 2 ^ guess / 2 := by
        rw [zpow_add_one₀ (by norm_num), div_div _ _ (2 : ℚ)]
      rw [if_pos long] at unfolded
      refine ⟨_, unfolded, ?_, ?_⟩
      · rw [next]
        linarith [digits.mp long]
      · rw [next]
        linarith
    · rw [if_neg long] at unfolded
      exact ⟨_, unfolded, low, not_le.mp (digits.not.mp long)⟩
  rw [he]
  refine ⟨le_max_right _ _, ?_, ?_⟩
  · refine lt_of_le_of_lt ?_ within.2
    exact div_le_div_of_nonneg_left (by positivity) (by positivity)
      (zpow_le_zpow_right₀ (by norm_num) (le_max_left _ _))
  · rcases le_total e (-1074) with below | above
    · exact .inl (max_eq_right below)
    · rw [max_eq_left above]
      exact .inr within.1

theorem nearest_rounds {s : Sign} {num den : ℕ} (h : 0 < den) (le : (num / den : ℚ) ≤ limit) :
    (nearest (isSet s) num den).isFinite ∧
      Rounds (factor s * (num / den)) (value (nearest (isSet s) num den)) := by
  obtain ⟨e, he⟩ : ∃ e, e = roundingExponent num den := ⟨_, rfl⟩
  obtain ⟨least, below, normal⟩ := he ▸ roundingExponent_spec num h
  obtain ⟨positive, value⟩ := scaled_spec num h e
  obtain ⟨up, down⟩ := roundDiv_spec (scaled num den e).1 positive
  rw [value] at up down
  obtain ⟨m, hm⟩ : ∃ m, m = roundDiv (scaled num den e).1 (scaled num den e).2 := ⟨_, rfl⟩
  rw [← hm] at up down
  have small : m ≤ 2 ^ 53 := by
    exact_mod_cast up ((2 ^ 53 : ℕ) : ℤ) (by push_cast; exact below.le)
  have long (h : (2 ^ 52 : ℚ) ≤ num / den / 2 ^ e) : 2 ^ 52 ≤ m := by
    exact_mod_cast down ((2 ^ 52 : ℕ) : ℤ) (by push_cast; exact h)
  have rounds : Rounds (num / den) (m * 2 ^ e) := by
    have := Rounds.of_mantissa least normal small up down
    rwa [div_mul_cancel₀ _ (by positivity)] at this
  obtain ⟨finite, exact⟩ := pack_exact (s := s) small least (normal.symm.imp_left long)
    (rounds.le _ grid_limit le)
  have same : nearest (isSet s) num den = pack (isSet s) m e := by
    unfold nearest
    rw [hm, ← he]
  rw [same, exact]
  exact ⟨finite, rounds.signed s⟩

end ClauseFeatures.Double
