import Mathlib.Order.WithBot
import ClauseFeatures.Proofs.Size

/-!
The order of numbers. Truth values, integers and doubles are compared by the places of their exact values on one
line, with the two infinities at its ends and no place for a NaN. So comparison across the three sorts has the
laws of a linear order.
-/
namespace ClauseFeatures

namespace Double

open Float.Model Float.Model.UnpackedFloat

/-- The rational numbers with an end on each side. -/
abbrev Place : Type := WithBot (WithTop ℚ)

def Place.of (q : ℚ) : Place := (q : WithTop ℚ)

/-- The place of an unpacked double; a NaN has none. -/
def placeOf : UnpackedFloat → Option Place
  | .notANumber => none
  | .infinity .positive => some ⊤
  | .infinity .negative => some ⊥
  | u => some (.of (exact u))

/-- How two places compare, if there are both. -/
def comparePlaces (a b : Option Place) : Option Ordering := a.bind fun x => b.map (compare x)

variable {u v : UnpackedFloat} {x y : Float} {p q : ℚ}

theorem bot_lt_of (q : ℚ) : ⊥ < Place.of q := WithBot.bot_lt_coe _

theorem of_lt_top (q : ℚ) : Place.of q < ⊤ := WithBot.coe_lt_coe.mpr (WithTop.coe_lt_top q)

theorem of_lt_of : Place.of p < Place.of q ↔ p < q := WithBot.coe_lt_coe.trans WithTop.coe_lt_coe

theorem compare_of (p q : ℚ) : compare (Place.of p) (Place.of q) = compare p q :=
  compare_congr of_lt_of of_lt_of

theorem comparePlaces_swap (a b : Option Place) : (comparePlaces a b).map Ordering.swap = comparePlaces b a := by
  cases a with
  | none => cases b <;> rfl
  | some x =>
      cases b with
      | none => rfl
      | some y => exact congrArg some (show (compare x y).swap = compare y x from Std.OrientedCmp.eq_swap.symm)

theorem placeOf_canonical (h : Canonical u) : placeOf u = some (.of (exact u)) := by
  cases u with
  | finite _ _ _ _ | zero _ => rfl
  | infinity _ | notANumber => exact h.elim

theorem canonical_or (h : Stored u) : Canonical u ∨ u = .notANumber ∨ ∃ s, u = .infinity s := by
  cases u with
  | finite s m e p => exact .inl ⟨h.1, h.2.1, h.2.2.2⟩
  | zero s => exact .inl trivial
  | notANumber => exact .inr (.inl rfl)
  | infinity s => exact .inr (.inr ⟨s, rfl⟩)

/-- An infinity lies beyond every finite number, on its side. -/
theorem compare_infinity (hu : Canonical u) (s : Sign) :
    u.compare (.infinity s) = comparePlaces (placeOf u) (placeOf (.infinity s)) ∧
      (UnpackedFloat.infinity s).compare u = comparePlaces (placeOf (.infinity s)) (placeOf u) := by
  have finite : (∃ t, u = .zero t) ∨ ∃ t m e p, u = .finite t m e p := by
    cases u with
    | zero t => exact .inl ⟨t, rfl⟩
    | finite t m e p => exact .inr ⟨t, m, e, p, rfl⟩
    | infinity _ | notANumber => exact hu.elim
  have ends : u.compare (.infinity s) = some (match s with | .positive => .lt | .negative => .gt) ∧
      (UnpackedFloat.infinity s).compare u = some (match s with | .positive => .gt | .negative => .lt) := by
    rcases finite with ⟨t, rfl⟩ | ⟨t, m, e, p, rfl⟩ <;> cases s <;> exact ⟨rfl, rfl⟩
  rw [placeOf_canonical hu, ends.1, ends.2]
  cases s with
  | positive =>
      exact ⟨congrArg some (compare_lt_iff_lt.mpr (of_lt_top _)).symm,
        congrArg some (compare_gt_iff_gt.mpr (of_lt_top _)).symm⟩
  | negative =>
      exact ⟨congrArg some (compare_gt_iff_gt.mpr (bot_lt_of _)).symm,
        congrArg some (compare_lt_iff_lt.mpr (bot_lt_of _)).symm⟩

theorem compare_places (hu : Stored u) (hv : Stored v) :
    u.compare v = comparePlaces (placeOf u) (placeOf v) := by
  rcases canonical_or hu with hu | rfl | ⟨s, rfl⟩
  · rcases canonical_or hv with hv | rfl | ⟨t, rfl⟩
    · rw [compare_eq hu hv, placeOf_canonical hu, placeOf_canonical hv]
      exact congrArg some (compare_of _ _).symm
    · rw [placeOf_canonical hu]
      cases u <;> rfl
    · exact (compare_infinity hu t).1
  · cases v <;> rfl
  · rcases canonical_or hv with hv | rfl | ⟨t, rfl⟩
    · exact (compare_infinity hv s).2
    · cases s <;> rfl
    · cases s <;> cases t <;> rfl

def place (x : Float) : Option Place := placeOf x.toModel.unpack

theorem place_finite (h : x.isFinite) : place x = some (.of (value x)) := placeOf_canonical (isFinite_iff.mp h)

theorem compareDoubles_places (x y : Float) :
    Number.compareDoubles x y = comparePlaces (place x) (place y) := by
  have forward := compare_places (stored x) (stored y)
  have backward := compare_places (stored y) (stored x)
  have lt (a b : Float) : a < b ↔ (a.toModel.unpack.compare b.toModel.unpack == some .lt) = true := by
    show (decide (_ = true) = true) ↔ _
    simp [Float.Model.lt, UnpackedFloat.lt]
  have beq : (x == y) = (x.toModel.unpack.compare y.toModel.unpack == some .eq) := rfl
  rw [← comparePlaces_swap] at backward
  simp only [Number.compareDoubles, beq, lt, forward, backward, place]
  cases comparePlaces (placeOf x.toModel.unpack) (placeOf y.toModel.unpack) with
  | none => rfl
  | some o => cases o <;> rfl

theorem compareInt_places (x : Float) (n : ℤ) :
    compareInt x n = comparePlaces (place x) (some (.of n)) := by
  rcases canonical_or (stored x) with finite | nan | ⟨s, infinite⟩
  · have finite : x.isFinite := isFinite_iff.mpr finite
    rw [compareInt_eq finite, place_finite finite]
    exact congrArg some (compare_of _ _).symm
  · rw [compareInt, parts_eq, place, nan]
    rfl
  · rw [compareInt, parts_eq, place, infinite]
    cases s with
    | positive => exact congrArg some (compare_gt_iff_gt.mpr (of_lt_top _)).symm
    | negative => exact congrArg some (compare_lt_iff_lt.mpr (bot_lt_of _)).symm

end Double

namespace Number

open Double

/-- The place of a number; a NaN has none. -/
def place : Number → Option Place
  | truth b => some (.of b.toNat)
  | int n => some (.of n)
  | real x => Double.place x

variable {a b c : Number}

theorem compare_of_int (m n : ℤ) : some (compare m n) = comparePlaces (some (.of m)) (some (.of n)) := by
  refine congrArg some ((compare_congr ?_ ?_).trans (compare_of _ _).symm) <;> exact Int.cast_lt.symm

theorem compare_places (a b : Number) : a.compare? b = comparePlaces a.place b.place := by
  have whole (b : Bool) : ((if b then 1 else 0 : ℤ) : ℚ) = b.toNat := by cases b <;> simp
  cases a with
  | real x =>
      cases b with
      | real y => exact compareDoubles_places x y
      | int n => exact compareInt_places x n
      | truth b => exact (compareInt_places x _).trans (by rw [whole]; rfl)
  | int m =>
      cases b with
      | real y => rw [compare?, compareInt_places, comparePlaces_swap]; rfl
      | int n => exact compare_of_int m n
      | truth b => exact (compare_of_int m b.toNat).trans (by rw [Int.cast_natCast]; rfl)
  | truth a =>
      cases b with
      | real y => rw [compare?, compareInt_places, comparePlaces_swap, whole]; rfl
      | int n => exact (compare_of_int a.toNat n).trans (by rw [Int.cast_natCast]; rfl)
      | truth b =>
          have compared : compare a.toNat b.toNat = compare (a.toNat : ℤ) b.toNat :=
            compare_congr Int.ofNat_lt.symm Int.ofNat_lt.symm
          rw [compare?, compared, compare_of_int, Int.cast_natCast, Int.cast_natCast]
          rfl

theorem lt_iff : a.lt b = true ↔ ∃ x ∈ a.place, ∃ y ∈ b.place, x < y := by
  rw [Number.lt, compare_places, beq_iff_eq]
  cases a.place <;> cases b.place <;> simp [comparePlaces, compare_lt_iff_lt]

theorem le_iff : a.le b = true ↔ ∃ x ∈ a.place, ∃ y ∈ b.place, x ≤ y := by
  rw [Number.le, compare_places, Bool.or_eq_true, beq_iff_eq, beq_iff_eq]
  cases a.place <;> cases b.place <;> simp [comparePlaces, compare_lt_iff_lt, le_iff_lt_or_eq]

theorem equal_iff : a.equal b = true ↔ ∃ x ∈ a.place, x ∈ b.place := by
  rw [Number.equal, compare_places, beq_iff_eq]
  cases a.place with
  | none => simp [comparePlaces]
  | some x => cases b.place <;> simp [comparePlaces, eq_comm (a := x)]

/-- A number that is below a second one or equal to it is below everything that the second one is below. -/
theorem lt_of_le_of_lt (h : a.le b = true) (h' : b.lt c = true) : a.lt c = true := by
  obtain ⟨x, hx, y, hy, le⟩ := le_iff.mp h
  obtain ⟨z, hz, w, hw, lt⟩ := lt_iff.mp h'
  cases Option.mem_unique hy hz
  exact lt_iff.mpr ⟨x, hx, w, hw, le.trans_lt lt⟩

theorem le_of_equal (h : a.equal b = true) : a.le b = true := by
  obtain ⟨x, hx, hy⟩ := equal_iff.mp h
  exact le_iff.mpr ⟨x, hx, x, hy, le_rfl⟩

theorem equal_symm (h : a.equal b = true) : b.equal a = true := by
  obtain ⟨x, hx, hy⟩ := equal_iff.mp h
  exact equal_iff.mpr ⟨x, hy, hx⟩

/-- Numbers of equal value that are no doubles are the same integer. -/
theorem int?_eq_of_equal {m n : ℤ} (h : a.equal b = true) (ha : a.int? = some m) (hb : b.int? = some n) :
    m = n := by
  have placed {a : Number} {m : ℤ} (ha : a.int? = some m) : a.place = some (.of m) := by
    cases a with
    | real _ => cases ha
    | int _ => cases ha; rfl
    | truth b => cases ha; cases b <;> rfl
  obtain ⟨x, hx, hy⟩ := equal_iff.mp h
  rw [placed ha] at hx
  rw [placed hb] at hy
  cases hx
  exact_mod_cast WithTop.coe_injective (WithBot.coe_injective (Option.some.inj hy).symm)

end Number

end ClauseFeatures
