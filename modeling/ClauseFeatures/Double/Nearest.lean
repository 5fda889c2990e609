import ClauseFeatures.Double.Parts

/-!
The double nearest to an exact fraction.

Both the division of integers and the reading of decimal text round an exact fraction once, to the
nearest double, a tie going to the even mantissa. `nearest` does this in integer arithmetic: it
chooses the exponent at which the quotient has 53 binary digits (fewer only at the least exponent)
and rounds there.
-/
namespace ClauseFeatures.Double

/-- The quotient rounded to the nearest integer, a tie to the even one. -/
def roundDiv (num den : Nat) : Nat :=
  let whole := num / den
  let twice := 2 * (num % den)
  if twice < den then whole
  else if den < twice then whole + 1
  else whole + whole % 2

/-- The number of binary digits; `0` has none. -/
def binaryLength (n : Nat) : Nat := if n = 0 then 0 else n.log2 + 1

/-- `num / (den * 2 ^ exponent)` as a fraction of integers. -/
def scaled (num den : Nat) (exponent : Int) : Nat × Nat :=
  if 0 ≤ exponent then (num, den * twoTo exponent.toNat) else (num * twoTo (-exponent).toNat, den)

/-- The exponent at which the whole part of `num / den` has 53 binary digits, or the least exponent if
that one is smaller still or the number is zero. -/
def roundingExponent (num den : Nat) : Int :=
  if num = 0 then leastExponent
  else
    let guess : Int := binaryLength num - binaryLength den - 53
    let (n, d) := scaled num den guess
    -- The guess is exact or one too small.
    let exponent := if twoTo 53 ≤ n / d then guess + 1 else guess
    max exponent leastExponent

/-- Packs a sign, a mantissa of at most `2 ^ 53` and an exponent. A mantissa below `2 ^ 52` is only
given at the least exponent; what lies beyond the largest double is an infinity. -/
def pack (negative : Bool) (mantissa : Nat) (exponent : Int) : Float :=
  let magnitude := (exponent - leastExponent).toNat * twoTo 52 + mantissa
  if 2047 * twoTo 52 ≤ magnitude then infinity negative
  else Float.ofBits (UInt64.ofNat (magnitude + if negative then twoTo 63 else 0))

/-- The double nearest to `± num / den`, for a positive `den`; an infinity beyond the largest double.
The sign is kept also for a zero. -/
def nearest (negative : Bool) (num den : Nat) : Float :=
  let exponent := roundingExponent num den
  let (n, d) := scaled num den exponent
  pack negative (roundDiv n d) exponent

/-- The double nearest to an integer; `none` if the integer is beyond the largest double. -/
def ofInt? (n : Int) : Option Float :=
  let x := nearest (n < 0) n.natAbs 1
  if x.isFinite then some x else none

/-- The double nearest to the quotient of two integers, the second not zero; `none` if the quotient is
beyond the largest double. The sign is negative if exactly one of the integers is, so `0` divided by a
negative integer is the negative zero. -/
def ofQuotient? (a b : Int) : Option Float :=
  let x := nearest ((a < 0) != (b < 0)) a.natAbs b.natAbs
  if x.isFinite then some x else none

/-- The double nearest to `± digits * 10 ^ exponent`. Numbers that are far beyond the largest or below
the smallest double are told by their number of digits, so that no large power is computed. -/
def ofDecimal (negative : Bool) (digits : Nat) (exponent : Int) : Float :=
  if digits = 0 then nearest negative 0 1
  else
    let top : Int := (Nat.toDigits 10 digits).length + exponent
    if 310 < top then infinity negative
    else if top < -330 then nearest negative 0 1
    else if 0 ≤ exponent then nearest negative (digits * tenTo exponent.toNat) 1
    else nearest negative digits (tenTo (-exponent).toNat)

end ClauseFeatures.Double
