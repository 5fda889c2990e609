import ClauseFeatures.Number

/-!
Systems of numbers in which the features are computed.

The database, the ratios, the moments and the distributions are written once, over a type `K` of single
numbers and a type `E` of the numbers that arrays hold. Operations on single numbers can fail; operations
on array elements never do. `Number` with doubles is one instance, dynamic values with doubles are
another; exact arithmetic is a third, so that a law about the formulas can be stated apart from rounding.
-/
namespace ClauseFeatures

/-- Whether both hold. The second is not looked at unless the first holds. -/
def bothHold (first second : Except Failure Bool) : Except Failure Bool := do
  if ← first then second else pure false

/-- Numbers that can be compared and shown. -/
class Quantity (K : Type) where
  ofInt : Int → K
  /-- The unit of measured numbers. -/
  one : K
  /-- Strictly below; a failure if the two cannot be compared. -/
  lt : K → K → Except Failure Bool
  /-- Of the value zero. -/
  isZero : K → Bool
  /-- Whether a number compares with nothing, not even with itself. -/
  isNaN : K → Bool
  /-- The text of a number in a message. -/
  text : K → Except Failure String

/-- Numbers that arrays hold. -/
class Element (E : Type) extends Add E, Sub E, Mul E, Div E where
  zero : E
  /-- The neutral start of a sum that keeps the sign of a zero. -/
  negativeZero : E
  half : E
  two : E
  ofNat : Nat → E
  /-- Strictly below. -/
  lt : E → E → Bool
  isNaN : E → Bool
  isInfinite : E → Bool

/-- Single numbers with the four operations, which may fail, and their passage to array elements. -/
class Arithmetic (K : Type) (E : outParam Type) extends Quantity K where
  /-- The zero that measurements start from. -/
  zero : K
  half : K
  two : K
  /-- What a minimum is reported as when no number was ever below the starting point. -/
  top : K
  /-- What a maximum is reported as when no number was ever above the starting point. -/
  bottom : K
  add : K → K → Except Failure K
  sub : K → K → Except Failure K
  mul : K → K → Except Failure K
  div : K → K → Except Failure K
  square : K → Except Failure K
  sqrt : K → Except Failure K
  /-- The element that a single number counts as beside an array. -/
  toElement : K → Except Failure E
  /-- The array made from single numbers. -/
  toArray : List K → Except Failure (List E)
  ofElement : E → K

instance : Quantity Number where
  ofInt := .int
  one := .real 1
  lt a b := .ok (a.lt b)
  isZero n := n.equal 0
  isNaN := Number.isNaN
  text := Number.checkedText

instance : Element Float where
  zero := 0
  negativeZero := -0.0
  half := 0.5
  two := 2
  ofNat n := Double.nearest false n 1
  lt a b := a < b
  isNaN := Float.isNaN
  isInfinite := Float.isInf

instance : Arithmetic Number Float where
  zero := .real 0
  half := .real 0.5
  two := .real 2
  top := .real (Double.infinity false)
  bottom := .real (Double.infinity true)
  add := Number.add
  sub := Number.sub
  mul := Number.mul
  div := Number.div
  square := Number.square
  sqrt := Number.sqrt
  toElement := Number.toDouble
  toArray ns := ns.mapM Number.toDouble
  ofElement := .real

end ClauseFeatures
