import ClauseFeatures.Failure
import ClauseFeatures.Double.Text

/-!
Numbers as callers give them: truth values, integers of any size and doubles.

Integers stay exact until they meet a double. Comparison is always exact. Mixed arithmetic converts
the integer to the nearest double and fails with `overflow` if there is none; the quotient of two
integers is rounded once, from its exact value.
-/
namespace ClauseFeatures

/-- A number of one of the three sorts. A truth value counts as `0` or `1`. -/
inductive Number
  | truth (b : Bool)
  | int (n : Int)
  | real (x : Float)
deriving DecidableEq

namespace Number

instance : Inhabited Number := ⟨.int 0⟩

instance (n : Nat) : OfNat Number n := ⟨.int n⟩

/-- The integer that a number is, if it is no double. -/
def int? : Number → Option Int
  | truth b => some (if b then 1 else 0)
  | int n => some n
  | real _ => none

def toDouble : Number → Except Failure Float
  | real x => .ok x
  | truth b => .ok (if b then 1 else 0)
  | int n =>
    match Double.ofInt? n with
    | some x => .ok x
    | none => .error .overflow

def abs : Number → Number
  | real x => .real x.abs
  | n => .int (n.int?.getD 0).natAbs

def isNaN : Number → Bool
  | real x => x.isNaN
  | _ => false

/-- Compares two doubles; a NaN compares with nothing. -/
def compareDoubles (x y : Float) : Option Ordering :=
  if x < y then some .lt else if x == y then some .eq else if y < x then some .gt else none

/-- Compares two numbers by their exact values; a NaN compares with nothing. -/
def compare? : Number → Number → Option Ordering
  | real x, real y => compareDoubles x y
  | real x, truth b => Double.compareInt x (if b then 1 else 0)
  | real x, int n => Double.compareInt x n
  | truth b, real y => (Double.compareInt y (if b then 1 else 0)).map Ordering.swap
  | int n, real y => (Double.compareInt y n).map Ordering.swap
  | truth a, truth b => some (compare a.toNat b.toNat)
  | truth a, int n => some (compare (a.toNat : Int) n)
  | int m, truth b => some (compare m b.toNat)
  | int m, int n => some (compare m n)

def lt (a b : Number) : Bool := a.compare? b == some .lt

def le (a b : Number) : Bool := a.compare? b == some .lt || a.compare? b == some .eq

def equal (a b : Number) : Bool := a.compare? b == some .eq

/-- Applies an operation: the exact one on integers, else the one on doubles. -/
def combine (exact : Int → Int → Int) (rounded : Float → Float → Float) (a b : Number) :
    Except Failure Number :=
  match a.int?, b.int? with
  | some m, some n => .ok (int (exact m n))
  | _, _ => do
    let x ← a.toDouble
    let y ← b.toDouble
    pure (real (rounded x y))

def add : Number → Number → Except Failure Number := combine (· + ·) (· + ·)

def sub : Number → Number → Except Failure Number := combine (· - ·) (· - ·)

def mul : Number → Number → Except Failure Number := combine (· * ·) (· * ·)

/-- The quotient, always a double. -/
def div (a b : Number) : Except Failure Number :=
  match a.int?, b.int? with
  | some m, some n =>
    if n = 0 then .error .zeroDivision
    else
      match Double.ofQuotient? m n with
      | some x => .ok (real x)
      | none => .error .overflow
  | _, _ => do
    let x ← a.toDouble
    let y ← b.toDouble
    if y == 0 then .error .zeroDivision else .ok (real (x / y))

/-- The square. A finite double whose square is beyond the largest double is refused. The square of a double is
its rounded product with itself, from which a general power function may differ in the last place. -/
def square (a : Number) : Except Failure Number :=
  match a.int? with
  | some n => .ok (int (n * n))
  | none => do
    let x ← a.toDouble
    let y := x * x
    if x.isFinite && !y.isFinite then .error .overflow else .ok (real y)

/-- The square root, always a double. -/
def sqrt (a : Number) : Except Failure Number := do
  let x ← a.toDouble
  if x < 0 then .error .rootOfNegative else .ok (real x.sqrt)

def text : Number → String
  | truth b => if b then "True" else "False"
  | int n => if n < 0 then "-" ++ Double.digitText n.natAbs else Double.digitText n.natAbs
  | real x => Double.text .plain x

/-- Whether a number is an integer with too many digits to be written as text. -/
def isTooLong : Number → Bool
  | int n => Failure.isTooLong n
  | _ => false

/-- The text of a number; a failure if it is too long. -/
def checkedText (a : Number) : Except Failure String :=
  Failure.checked a.isTooLong a.text

end Number

end ClauseFeatures
