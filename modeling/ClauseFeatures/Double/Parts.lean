/-!
The parts of a double: its sign, mantissa and exponent, and the exact number they stand for.

A finite double is `(-1) ^ sign * mantissa * 2 ^ exponent` with an integer mantissa below `2 ^ 53` and
an exponent of at least `-1074`. Everything exact about doubles in this library (comparison with
integers, decimal text, truncation) is computed from these parts in integer arithmetic.
-/
namespace ClauseFeatures.Double

/-- The parts of a double. Zero has mantissa `0`; an infinity has a sign only. -/
inductive Parts
  | nan
  | infinite (negative : Bool)
  | finite (negative : Bool) (mantissa : Nat) (exponent : Int)
deriving DecidableEq, Repr

abbrev twoTo (n : Nat) : Nat := Nat.pow 2 n

abbrev tenTo (n : Nat) : Nat := Nat.pow 10 n

def leastExponent : Int := -1074

/-- Reads the parts off the bit pattern. A stored exponent of `0` marks a subnormal number, which has
no hidden leading bit. -/
def parts (x : Float) : Parts :=
  let bits := x.toBits.toNat
  let negative := twoTo 63 ≤ bits
  let stored : Nat := bits / twoTo 52 % twoTo 11
  let fraction : Nat := bits % twoTo 52
  if stored = twoTo 11 - 1 then
    if fraction = 0 then .infinite negative else .nan
  else if stored = 0 then
    .finite negative fraction leastExponent
  else
    .finite negative (fraction + twoTo 52) (leastExponent + stored - 1)

/-- Whether the sign bit is set; for a NaN this is of no importance and `false`. -/
def isNegative (x : Float) : Bool :=
  match parts x with
  | .nan => false
  | .infinite negative | .finite negative _ _ => negative

/-- The value of a mantissa at an exponent as a fraction: numerator and positive denominator. -/
def fraction (mantissa : Nat) (exponent : Int) : Nat × Nat :=
  if 0 ≤ exponent then (mantissa * twoTo exponent.toNat, 1) else (mantissa, twoTo (-exponent).toNat)

/-- Compares a double with an integer by their exact values; a NaN compares with nothing. -/
def compareInt (x : Float) (n : Int) : Option Ordering :=
  match parts x with
  | .nan => none
  | .infinite negative => some (if negative then .lt else .gt)
  | .finite negative mantissa exponent =>
    let (num, den) := fraction mantissa exponent
    let signed : Int := if negative then -num else num
    some (compare signed (n * den))

/-- The integer that remains when the places after the point are dropped; `none` if the double is
infinite or a NaN. -/
def truncate? (x : Float) : Option Int :=
  match parts x with
  | .finite negative mantissa exponent =>
    let (num, den) := fraction mantissa exponent
    let whole : Int := (num / den : Nat)
    some (if negative then -whole else whole)
  | _ => none

def nan : Float := Float.ofBits 0x7FF8000000000000

def infinity (negative : Bool) : Float :=
  Float.ofBits (if negative then 0xFFF0000000000000 else 0x7FF0000000000000)

end ClauseFeatures.Double
