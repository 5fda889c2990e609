import ClauseFeatures.Proofs.Double.Operations
import ClauseFeatures.Proofs.Double.Packing

/-!
The rational number that a finite double stands for. Each operation on finite doubles gives a finite double
again if its exact result is not beyond `2 ^ 1023`, and the result is what the exact one rounds to. Comparison
of finite doubles is that of their values.
-/
namespace ClauseFeatures.Double

open Float.Model Float.Model.UnpackedFloat

/-- The number that a finite double stands for; `0` for the others. -/
def value (x : Float) : ℚ := exact x.toModel.unpack

variable {x y : Float} {q : ℚ} {u v : UnpackedFloat}

theorem stored (x : Float) : Stored x.toModel.unpack := stored_unpack _

theorem isFinite_iff : x.isFinite = true ↔ Canonical x.toModel.unpack := by
  have stored := stored x
  unfold Float.isFinite Float.Model.isFinite
  generalize x.toModel.unpack = u at stored ⊢
  cases u with
  | finite s m e p => exact ⟨fun _ => ⟨stored.1, stored.2.1, stored.2.2.2⟩, fun _ => rfl⟩
  | zero s => exact ⟨fun _ => trivial, fun _ => rfl⟩
  | infinity s | notANumber => exact ⟨nofun, False.elim⟩

theorem isNaN_of_isFinite (h : x.isFinite) : x.isNaN = false := by
  unfold Float.isFinite Float.Model.isFinite at h
  unfold Float.isNaN Float.Model.isNaN
  generalize x.toModel.unpack = u at h ⊢
  cases u with
  | notANumber => cases h
  | finite _ _ _ _ | zero _ | infinity _ => rfl

theorem isInf_of_isFinite (h : x.isFinite) : x.isInf = false := by
  unfold Float.isFinite Float.Model.isFinite at h
  unfold Float.isInf Float.Model.isInf
  generalize x.toModel.unpack = u at h ⊢
  cases u with
  | infinity _ => cases h
  | finite _ _ _ _ | zero _ | notANumber => rfl

theorem isFinite_of_not (number : x.isNaN = false) (bounded : x.isInf = false) : x.isFinite = true := by
  unfold Float.isNaN Float.Model.isNaN at number
  unfold Float.isInf Float.Model.isInf at bounded
  unfold Float.isFinite Float.Model.isFinite
  generalize x.toModel.unpack = u at number bounded ⊢
  cases u with
  | finite _ _ _ _ | zero _ => rfl
  | infinity _ => cases bounded
  | notANumber => cases number

theorem grid_value (h : x.isFinite) : Grid (value x) := (isFinite_iff.mp h).grid

theorem unpack_ofModel_pack (h : Stored u) : (Float.ofModel (.pack u)).toModel.unpack = u :=
  unpack_pack h

/-- The limit below which every result is taken to stay. -/
def limit : ℚ := 2 ^ (1023 : ℤ)

theorem grid_limit : Grid limit := Grid.two_zpow (by decide)

theorem one_le_limit : 1 ≤ limit := one_le_zpow₀ (by norm_num) (by decide)

theorem stored_of_le (h : Canonical u) (le : |exact u| ≤ limit) : Stored u := by
  cases u with
  | zero _ | infinity _ | notANumber => trivial
  | finite s m e p =>
      obtain ⟨small, least, normal⟩ := h
      refine ⟨small, least, ?_, normal⟩
      by_contra above
      have long : (2 ^ 52 : ℚ) ≤ m := by exact_mod_cast normal.resolve_right (by omega)
      have : |exact (.finite s m e p)| = m * 2 ^ e := by
        have positive : (0 : ℚ) ≤ m * 2 ^ e := by positivity
        cases s <;> simp [exact, factor, abs_of_nonneg positive]
      have : limit < m * 2 ^ e :=
        calc limit < 2 ^ (52 + e) := zpow_lt_zpow_right₀ (by norm_num) (by omega)
          _ = 2 ^ 52 * 2 ^ e := by rw [zpow_add₀ (by norm_num)]; norm_num
          _ ≤ m * 2 ^ e := mul_le_mul_of_nonneg_right long (by positivity)
      linarith

/-- What a number within the limit is rounded to is a finite double. -/
theorem pack_rounds (h : RoundsTo q u) (le : |q| ≤ limit) :
    (Float.ofModel (.pack u)).isFinite ∧ Rounds q (value (.ofModel (.pack u))) := by
  have stored := stored_of_le h.canonical (h.rounds.magnitude_le grid_limit le)
  rw [isFinite_iff, value, unpack_ofModel_pack stored]
  exact ⟨h.canonical, h.rounds⟩

section Operations

variable (hx : x.isFinite) (hy : y.isFinite)

include hx hy

theorem add_rounds (le : |value x + value y| ≤ limit) :
    (x + y).isFinite ∧ Rounds (value x + value y) (value (x + y)) :=
  pack_rounds (roundsTo_add (isFinite_iff.mp hx) (isFinite_iff.mp hy)) le

theorem sub_rounds (le : |value x - value y| ≤ limit) :
    (x - y).isFinite ∧ Rounds (value x - value y) (value (x - y)) :=
  pack_rounds (roundsTo_sub (isFinite_iff.mp hx) (isFinite_iff.mp hy)) le

theorem mul_rounds (le : |value x * value y| ≤ limit) :
    (x * y).isFinite ∧ Rounds (value x * value y) (value (x * y)) :=
  pack_rounds (roundsTo_mul (isFinite_iff.mp hx) (isFinite_iff.mp hy)) le

theorem div_rounds (nonzero : value y ≠ 0) (le : |value x / value y| ≤ limit) :
    (x / y).isFinite ∧ Rounds (value x / value y) (value (x / y)) :=
  pack_rounds (roundsTo_div (isFinite_iff.mp hx) (isFinite_iff.mp hy) nonzero) le

end Operations

theorem sqrt_rounds (hx : x.isFinite) (nonneg : 0 ≤ value x) (le : value x ≤ limit) :
    x.sqrt.isFinite ∧ ∃ q, 0 ≤ q ∧ q ≤ max 1 (value x) ∧ Rounds q (value x.sqrt) := by
  obtain ⟨q, positive, root, rounded⟩ := roundsTo_sqrt (isFinite_iff.mp hx) nonneg
  have small : |q| ≤ limit := by
    rw [abs_of_nonneg positive]
    exact root.trans (max_le one_le_limit le)
  obtain ⟨finite, rounds⟩ := pack_rounds rounded small
  exact ⟨finite, q, positive, root, rounds⟩

/-! Comparison. -/

theorem compare_congr {α β : Type} [LinearOrder α] [LinearOrder β] {a b : α} {c d : β}
    (lt : a < b ↔ c < d) (gt : b < a ↔ d < c) : compare a b = compare c d := by
  rcases lt_trichotomy a b with less | rfl | greater
  · rw [compare_lt_iff_lt.mpr less, compare_lt_iff_lt.mpr (lt.mp less)]
  · have equal : c = d := le_antisymm (not_lt.mp fun h => lt_irrefl a (gt.mpr h))
      (not_lt.mp fun h => lt_irrefl a (lt.mpr h))
    rw [compare_eq_iff_eq.mpr rfl, compare_eq_iff_eq.mpr equal]
  · rw [compare_gt_iff_gt.mpr greater, compare_gt_iff_gt.mpr (gt.mp greater)]

theorem lt_of_exponent {m n : ℕ} {e f : ℤ} (small : m < 2 ^ 53) (least : -1074 ≤ e)
    (normal : 2 ^ 52 ≤ n ∨ f = -1074) (h : e < f) : (m * 2 ^ e : ℚ) < n * 2 ^ f := by
  have long : (2 ^ 52 : ℚ) ≤ n := by exact_mod_cast normal.resolve_right (by omega)
  have step : (2 : ℚ) ^ (1 + e) ≤ 2 ^ f := zpow_le_zpow_right₀ (by norm_num) (by omega)
  calc (m * 2 ^ e : ℚ) < 2 ^ 53 * 2 ^ e :=
        mul_lt_mul_of_pos_right (by exact_mod_cast small) (by positivity)
    _ = 2 ^ 52 * 2 ^ (1 + e) := by rw [zpow_add₀ (by norm_num)]; ring
    _ ≤ n * 2 ^ f := mul_le_mul long step (by positivity) (by positivity)

/-- Mantissas in canonical form are compared after their exponents. -/
theorem compare_magnitudes {m n : ℕ} {e f : ℤ} {s t : Sign} {p : 0 < m} {p' : 0 < n}
    (hm : Canonical (.finite s m e p)) (hn : Canonical (.finite t n f p')) :
    (compare e f).then (compare m n) = compare (m * 2 ^ e : ℚ) (n * 2 ^ f) := by
  rcases lt_trichotomy e f with less | rfl | greater
  · rw [compare_lt_iff_lt.mpr less]
    exact (compare_lt_iff_lt.mpr (lt_of_exponent hm.1 hm.2.1 hn.2.2 less)).symm
  · have unit : (0 : ℚ) < 2 ^ e := by positivity
    rw [compare_eq_iff_eq.mpr rfl]
    refine compare_congr ?_ ?_
    · rw [mul_lt_mul_iff_left₀ unit, Nat.cast_lt]
    · rw [mul_lt_mul_iff_left₀ unit, Nat.cast_lt]
  · rw [compare_gt_iff_gt.mpr greater]
    exact (compare_gt_iff_gt.mpr (lt_of_exponent hn.1 hn.2.1 hm.2.2 greater)).symm

theorem compare_neg (a b : ℚ) : compare (-a) (-b) = (compare a b).swap := by
  rcases lt_trichotomy a b with less | rfl | greater
  · rw [compare_lt_iff_lt.mpr less]
    exact compare_gt_iff_gt.mpr (neg_lt_neg less)
  · rw [compare_eq_iff_eq.mpr rfl, compare_eq_iff_eq.mpr rfl]
    rfl
  · rw [compare_gt_iff_gt.mpr greater]
    exact compare_lt_iff_lt.mpr (neg_lt_neg greater)

theorem compare_eq (hu : Canonical u) (hv : Canonical v) :
    u.compare v = some (compare (exact u) (exact v)) := by
  have positive {m : ℕ} {e : ℤ} (p : 0 < m) : (0 : ℚ) < m * 2 ^ e :=
    mul_pos (by exact_mod_cast p) (by positivity)
  cases u with
  | infinity _ | notANumber => exact hu.elim
  | zero s =>
      cases v with
      | infinity _ | notANumber => exact hv.elim
      | zero t => rfl
      | finite t n f p =>
          have := positive (e := f) p
          cases t <;> simp only [UnpackedFloat.compare, exact, factor, Option.some.injEq] <;> symm
          · exact compare_gt_iff_gt.mpr (by linarith)
          · exact compare_lt_iff_lt.mpr (by linarith)
  | finite s m e p =>
      have := positive (e := e) p
      cases v with
      | infinity _ | notANumber => exact hv.elim
      | zero t =>
          cases s <;> simp only [UnpackedFloat.compare, exact, factor, Option.some.injEq] <;> symm
          · exact compare_lt_iff_lt.mpr (by linarith)
          · exact compare_gt_iff_gt.mpr (by linarith)
      | finite t n f p' =>
          have := positive (e := f) p'
          have magnitudes := compare_magnitudes hu hv
          cases s <;> cases t <;>
            simp only [UnpackedFloat.compare, exact, factor, Option.some.injEq, one_mul]
          · rw [magnitudes, neg_one_mul, neg_one_mul, compare_neg]
          · exact (compare_lt_iff_lt.mpr (by linarith)).symm
          · exact (compare_gt_iff_gt.mpr (by linarith)).symm
          · exact magnitudes

theorem lt_iff (hx : x.isFinite) (hy : y.isFinite) : x < y ↔ value x < value y := by
  have compared := compare_eq (isFinite_iff.mp hx) (isFinite_iff.mp hy)
  have lt : x < y ↔ (x.toModel.unpack.compare y.toModel.unpack == some .lt) = true := by
    show (decide (_ = true) = true) ↔ _
    simp [Float.Model.lt, UnpackedFloat.lt]
  rw [lt, compared]
  simp [value, compare_lt_iff_lt]

theorem beq_iff (hx : x.isFinite) (hy : y.isFinite) : (x == y) = true ↔ value x = value y := by
  have compared := compare_eq (isFinite_iff.mp hx) (isFinite_iff.mp hy)
  show (x.toModel.unpack.compare y.toModel.unpack == some .eq) = true ↔ _
  rw [compared]
  simp [value]

end ClauseFeatures.Double
