import Mathlib.Algebra.Order.Field.Basic
import ClauseFeatures.Arithmetic

/-!
Exact arithmetic in an ordered field, with which the laws of the formulas are stated apart from rounding.
Nothing is rounded and nothing overflows. A division by zero and the root of a negative number are failures
as they are for rounded numbers. What a field does not have is left open: roots may be any function, and
missing extremes may be reported as any number.
-/
namespace ClauseFeatures

/-- What exact arithmetic in a field is told from outside. -/
structure Reading (F : Type) where
  root : F → F
  /-- What a missing minimum is reported as. -/
  top : F
  /-- What a missing maximum is reported as. -/
  bottom : F
  text : F → String

/-- The numbers of a field, computed with exactly. -/
def Exact {F : Type} (_ : Reading F) : Type := F

namespace Exact

variable {F : Type} [Field F] [LinearOrder F] {r : Reading F}

instance : Field (Exact r) := inferInstanceAs (Field F)

instance : LinearOrder (Exact r) := inferInstanceAs (LinearOrder F)

instance [IsStrictOrderedRing F] : IsStrictOrderedRing (Exact r) := inferInstanceAs (IsStrictOrderedRing F)

def root (a : Exact r) : Exact r := r.root a

instance : Quantity (Exact r) where
  ofInt n := n
  one := 1
  lt a b := .ok (decide (a < b))
  isZero a := decide (a = 0)
  isNaN _ := false
  text x := .ok (r.text x)

instance : Element (Exact r) where
  zero := 0
  negativeZero := 0
  half := 1 / 2
  two := 2
  ofNat n := n
  lt a b := decide (a < b)
  isNaN _ := false
  isInfinite _ := false

instance : Arithmetic (Exact r) (Exact r) where
  zero := 0
  half := 1 / 2
  two := 2
  top := r.top
  bottom := r.bottom
  add a b := .ok (a + b)
  sub a b := .ok (a - b)
  mul a b := .ok (a * b)
  div a b := if b = 0 then .error .zeroDivision else .ok (a / b)
  square a := .ok (a * a)
  sqrt a := if a < 0 then .error .rootOfNegative else .ok a.root
  toElement a := .ok a
  toArray as := .ok as
  ofElement a := a

section Laws

variable (a b : Exact r)

@[simp] theorem lt_eq : Quantity.lt a b = .ok (decide (a < b)) := rfl

@[simp] theorem elementLt_eq : Element.lt a b = decide (a < b) := rfl

@[simp] theorem isZero_eq : Quantity.isZero a = decide (a = 0) := rfl

@[simp] theorem ofInt_eq (n : Int) : (Quantity.ofInt n : Exact r) = n := rfl

@[simp] theorem zero_eq : (Arithmetic.zero : Exact r) = 0 := rfl

@[simp] theorem add_eq : Arithmetic.add a b = .ok (a + b) := rfl

@[simp] theorem sub_eq : Arithmetic.sub a b = .ok (a - b) := rfl

@[simp] theorem square_eq : Arithmetic.square a = .ok (a * a) := rfl

@[simp] theorem toElement_eq : Arithmetic.toElement a = .ok a := rfl

@[simp] theorem ofElement_eq : (Arithmetic.ofElement a : Exact r) = a := rfl

@[simp] theorem toArray_eq (as : List (Exact r)) : Arithmetic.toArray as = .ok as := rfl

variable {a b}

theorem div_eq (h : b ≠ 0) : Arithmetic.div a b = .ok (a / b) := if_neg h

theorem sqrt_eq (h : 0 ≤ a) : Arithmetic.sqrt a = .ok a.root := if_neg (not_lt.mpr h)

end Laws

end Exact

end ClauseFeatures
