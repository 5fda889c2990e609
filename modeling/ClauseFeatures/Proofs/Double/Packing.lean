import ClauseFeatures.Double.Parts
import ClauseFeatures.Proofs.Double.Rounding

/-!
Doubles as bit patterns. What is unpacked from a pattern is in canonical form, and a canonical double
whose exponent fits is the same after packing and unpacking. So the operations on doubles are those on
unpacked doubles as long as no exponent is too large.
-/
namespace ClauseFeatures.Double

open Float.Model Float.Model.UnpackedFloat

/-- The double with a stored exponent of 11 bits and a stored fraction of 52 bits. -/
def ofFields (s : Sign) (stored fraction : ℕ) : UnpackedFloat :=
  if stored = 2047 then if fraction = 0 then .infinity s else .notANumber
  else if stored = 0 then
    if h : fraction = 0 then .zero s else .finite s fraction (-1074) (Nat.pos_of_ne_zero h)
  else .finite s (fraction + 2 ^ 52) (stored - 1075) (by omega)

/-- The forms that bit patterns have. -/
def Stored : UnpackedFloat → Prop
  | .finite _ m e _ => m < 2 ^ 53 ∧ -1074 ≤ e ∧ e ≤ 971 ∧ (2 ^ 52 ≤ m ∨ e = -1074)
  | _ => True

theorem stored_ofFields {s : Sign} {stored fraction : ℕ} (hs : stored < 2 ^ 11)
    (hf : fraction < 2 ^ 52) : Stored (ofFields s stored fraction) := by
  unfold ofFields
  split
  · split <;> trivial
  · split
    · split
      · trivial
      · exact ⟨by omega, by decide, by decide, .inr rfl⟩
    · exact ⟨by omega, by omega, by omega, .inl (by omega)⟩

theorem significand_toNat (f : BitVec 52) : (1#1 ++ f).toNat = f.toNat + 2 ^ 52 := by
  rw [BitVec.toNat_append, ← Nat.shiftLeft_add_eq_or_of_lt f.isLt]
  simp [Nat.shiftLeft_eq, Nat.add_comm]

theorem unpack_eq (b : BitVec Format.binary64.numBits) :
    UnpackedFloat.unpack Format.binary64 b = ofFields (Sign.ofBitVec (unpackSign b))
      (unpackExponent b).toNat (unpackMantissa b).toNat := by
  have special : (unpackExponent b).toNat = 2047 ↔ unpackExponent b = -1#_ :=
    (BitVec.toNat_eq (y := -1#11)).symm
  have low : (unpackExponent b).toNat = 0 ↔ unpackExponent b = 0#_ := (BitVec.toNat_eq (y := 0#11)).symm
  have empty : (unpackMantissa b).toNat = 0 ↔ unpackMantissa b = 0#_ :=
    (BitVec.toNat_eq (y := 0#52)).symm
  unfold UnpackedFloat.unpack ofFields
  simp only [special, low, empty]
  split
  · rfl
  · split
    · rename_i none
      split
      · rfl
      · congr 1
        rw [none]
        decide
    · congr 1
      exact significand_toNat _

theorem unpackMantissa_toNat (b : BitVec Format.binary64.numBits) :
    (unpackMantissa b).toNat = b.toNat % 2 ^ 52 := by
  simp [unpackMantissa]

theorem unpackExponent_toNat (b : BitVec Format.binary64.numBits) :
    (unpackExponent b).toNat = b.toNat / 2 ^ 52 % 2 ^ 11 := by
  simp [unpackExponent, Nat.shiftRight_eq_div_pow]

theorem unpackSign_eq (b : BitVec Format.binary64.numBits) :
    Sign.ofBitVec (unpackSign b) = if 2 ^ 63 ≤ b.toNat then .negative else .positive := by
  have bit : (unpackSign b).toNat = b.toNat / 2 ^ 63 % 2 := by
    simp [unpackSign, Nat.shiftRight_eq_div_pow]
  have range : b.toNat < 2 ^ 64 := b.isLt
  have clear : unpackSign b = 0#1 ↔ ¬ 2 ^ 63 ≤ b.toNat := by
    rw [BitVec.toNat_eq, bit]
    simp only [BitVec.toNat_ofNat]
    omega
  unfold Sign.ofBitVec
  simp only [clear, ite_not]

theorem unpackSign_packComponents {spec : Format} (s : Sign) (k : BitVec spec.exponentBits)
    (f : BitVec spec.mantissaBitsWithoutImplicit) :
    Sign.ofBitVec (unpackSign (packComponents spec s k f)) = s := by
  have bit : unpackSign (packComponents spec s k f) = s.toBitVec := by
    ext i hi
    obtain rfl : i = 0 := by omega
    simp [unpackSign, packComponents, BitVec.getLsbD_append, BitVec.getElem_append]
  rw [bit]
  cases s <;> rfl

theorem stored_unpack (b : BitVec Format.binary64.numBits) :
    Stored (UnpackedFloat.unpack Format.binary64 b) := by
  rw [unpack_eq]
  exact stored_ofFields (unpackExponent b).isLt (unpackMantissa b).isLt

theorem unpack_packComponents (s : Sign) (k : BitVec 11) (f : BitVec 52) :
    UnpackedFloat.unpack Format.binary64 (packComponents Format.binary64 s k f) =
      ofFields s k.toNat f.toNat := by
  rw [unpack_eq, unpackSign_packComponents, unpackExponent_packComponents,
    unpackMantissa_packComponents]

theorem finite_congr {s : Sign} {m m' : ℕ} {e e' : ℤ} {p : 0 < m} {p' : 0 < m'} (hm : m = m')
    (he : e = e') : UnpackedFloat.finite s m e p = .finite s m' e' p' := by
  subst hm he
  rfl

/-- Packing loses nothing of a double that some bit pattern has. -/
theorem unpack_pack {u : UnpackedFloat} (h : Stored u) :
    UnpackedFloat.unpack Format.binary64 (UnpackedFloat.pack Format.binary64 u) = u := by
  cases u with
  | notANumber => exact unpack_packComponents _ _ _
  | infinity s => exact unpack_packComponents _ _ _
  | zero s => exact unpack_packComponents _ _ _
  | finite s m e p =>
      obtain ⟨small, least, most, normal⟩ := h
      have bias : (Format.binary64.exponentBias : ℤ) = 1023 := by decide
      have bits : Format.binary64.mantissaBits = 53 := by decide
      obtain ⟨k, hk⟩ : ∃ k : ℕ, (e + 1023 + (52 : ℕ)).toNat = k := ⟨_, rfl⟩
      unfold UnpackedFloat.pack
      simp only [bias, bits, hk]
      rw [if_neg (by omega)]
      have digits : m.log2 + 1 = 53 ↔ 2 ^ 52 ≤ m := by
        have := log2_le (k := 52) small
        have := Nat.le_log2 (k := 52) p.ne'
        omega
      simp only [digits]
      split
      · rename_i long
        have exponent : (BitVec.ofNat 11 k).toNat = k := by
          rw [BitVec.toNat_ofNat]
          omega
        have fraction : (BitVec.ofNat 52 m).toNat = m - 2 ^ 52 := by
          rw [BitVec.toNat_ofNat]
          omega
        refine (unpack_packComponents _ _ _).trans ?_
        rw [exponent, fraction, ofFields, if_neg (by omega), if_neg (by omega)]
        exact finite_congr (by omega) (by omega)
      · have fraction : (BitVec.ofNat 52 m).toNat = m := by
          rw [BitVec.toNat_ofNat]
          omega
        refine (unpack_packComponents _ _ _).trans ?_
        rw [fraction, BitVec.toNat_zero, ofFields, if_neg (by decide), if_pos rfl, dif_neg p.ne']
        exact finite_congr rfl (by omega)

end ClauseFeatures.Double
