import ClauseFeatures.Double.Nearest

/-!
The shortest decimal digits of a double.

Around a double lies the interval of numbers that round to it. `shortest` finds the coarsest decimal
grid with a point in that interval: for one digit, two digits and so on it tests the two grid points
next to the double and takes the nearer one that lies inside. Seventeen digits always suffice.
-/
namespace ClauseFeatures.Double

/-- A decimal number `digits * 10 ^ exponent`. -/
structure Decimal where
  digits : Nat
  exponent : Int
deriving DecidableEq, Repr

/-- The numbers that round to a double, as numerators over one common denominator: the double itself
and the two ends of its interval. The ends belong to the interval if the mantissa is even. -/
structure Neighbourhood where
  low : Nat
  value : Nat
  high : Nat
  den : Nat
  closed : Bool

/-- The neighbourhood of `mantissa * 2 ^ exponent`. The gap below a power of two is half as wide as the
gap above it, save at the least exponent. -/
def neighbourhood (mantissa : Nat) (exponent : Int) : Neighbourhood :=
  let (scale, den) := fraction 1 (exponent - 2)
  let below := if mantissa = twoTo 52 ∧ leastExponent < exponent then 1 else 2
  { low := (4 * mantissa - below) * scale
    value := 4 * mantissa * scale
    high := (4 * mantissa + 2) * scale
    den
    closed := mantissa % 2 = 0 }

def Neighbourhood.contains (nb : Neighbourhood) (num den : Nat) : Bool :=
  let n := num * nb.den
  if nb.closed then nb.low * den ≤ n && n ≤ nb.high * den
  else nb.low * den < n && n < nb.high * den

/-- The decimal order of magnitude: the least `e` with `num / den < 10 ^ e`, for a positive `num`. The
estimate from the binary lengths is at most one too small. -/
def decimalMagnitude (num den : Nat) : Int :=
  let binary : Int := binaryLength num - binaryLength den
  -- A binary digit is worth slightly more than 0.30102 decimal digits.
  let estimate := Int.fdiv ((binary - 1) * 30102) 100000
  let below (e : Int) : Bool :=
    if 0 ≤ e then num < den * tenTo e.toNat else num * tenTo (-e).toNat < den
  if below (estimate - 1) then estimate - 1
  else if below estimate then estimate
  else if below (estimate + 1) then estimate + 1
  else estimate + 2

/-- The grid point with `count` digits that is nearest to the double among the two next to it that round
to the double; of two equally near ones the even one. -/
def Neighbourhood.onGrid (nb : Neighbourhood) (magnitude : Int) (count : Nat) : Option Decimal :=
  let exponent := magnitude - count
  let (unit, unitDen) := if 0 ≤ exponent then (tenTo exponent.toNat, 1) else (1, tenTo (-exponent).toNat)
  -- The double lies between `floor` and `floor + 1` units.
  let num := nb.value * unitDen
  let den := nb.den * unit
  let floor := num / den
  let isInside (d : Nat) : Bool := nb.contains (d * unit) unitDen
  match isInside floor, isInside (floor + 1) with
  | false, false => none
  | true, false => some ⟨floor, exponent⟩
  | false, true => some ⟨floor + 1, exponent⟩
  | true, true => some ⟨roundDiv num den, exponent⟩

/-- The first grid with a hit, from `count` digits on. -/
def Neighbourhood.search (nb : Neighbourhood) (magnitude : Int) (count : Nat) : Nat → Decimal
  | 0 => ⟨0, 0⟩
  | fuel + 1 =>
    match nb.onGrid magnitude count with
    | some d => d
    | none => nb.search magnitude (count + 1) fuel

/-- The digits without the zeros at their end. -/
def Decimal.trim (d : Decimal) : Decimal :=
  go d.digits d.exponent 400
where
  /-- Divides by ten as long as the last digit is a zero. -/
  go (digits : Nat) (exponent : Int) : Nat → Decimal
    | 0 => ⟨digits, exponent⟩
    | fuel + 1 =>
      if digits ≠ 0 ∧ digits % 10 = 0 then go (digits / 10) (exponent + 1) fuel
      else ⟨digits, exponent⟩

/-- The shortest decimal that reads back as the double `mantissa * 2 ^ exponent`, and of those the one
nearest to it; zero for a zero mantissa. -/
def shortest (mantissa : Nat) (exponent : Int) : Decimal :=
  if mantissa = 0 then ⟨0, 0⟩
  else
    let nb := neighbourhood mantissa exponent
    (nb.search (decimalMagnitude nb.value nb.den) 1 18).trim

end ClauseFeatures.Double
