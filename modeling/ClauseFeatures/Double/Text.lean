import ClauseFeatures.Double.Shortest

/-!
The text of doubles: the shortest form that reads back, and the form with a fixed number of places.

The decisions of the format (where positional writing ends, how an exponent is written, the names of
the values that are no numbers) are gathered in one record, `Style`.
-/
namespace ClauseFeatures.Double

/-- How a shortest decimal is laid out. A number whose first digit stands for `10 ^ e` is written
positionally if `leastPositional ≤ e < exponentFrom`. -/
structure Style where
  leastPositional : Int
  exponentFrom : Int
  /-- The least number of digits of an exponent. -/
  exponentDigits : Nat
  /-- Whether a mantissa before an exponent always has a point. -/
  pointInMantissa : Bool
  infinity : String
  nan : String

/-- The layout of numbers in messages and answers. -/
def Style.plain : Style where
  leastPositional := -4
  exponentFrom := 16
  exponentDigits := 2
  pointInMantissa := false
  infinity := "inf"
  nan := "nan"

def digitText (n : Nat) : String := String.ofList (Nat.toDigits 10 n)

/-- A text filled up with zeros on its left. -/
def padLeft (width : Nat) (s : String) : String :=
  String.ofList (List.replicate (width - s.length) '0') ++ s

/-- The digits with a point after the first `point` of them. Zeros fill the places that the digits do not
reach, and at least one digit stands on each side of the point. -/
def positional (digits : String) (point : Int) : String :=
  if point ≤ 0 then
    "0." ++ String.ofList (List.replicate (-point).toNat '0') ++ digits
  else
    let chars := digits.toList
    let whole := chars.take point.toNat ++ List.replicate (point.toNat - chars.length) '0'
    let rest := chars.drop point.toNat
    String.ofList whole ++ "." ++ if rest.isEmpty then "0" else String.ofList rest

/-- The digits with a point after the first of them, and the exponent that this leaves. -/
def scientific (style : Style) (digits : String) (exponent : Int) : String :=
  let mantissa :=
    match digits.toList with
    | [] => "0"
    | [c] => if style.pointInMantissa then String.ofList [c] ++ ".0" else String.ofList [c]
    | c :: rest => String.ofList (c :: '.' :: rest)
  let sign := if exponent < 0 then "-" else "+"
  mantissa ++ "e" ++ sign ++ padLeft style.exponentDigits (digitText exponent.natAbs)

def Decimal.text (style : Style) (d : Decimal) : String :=
  let digits := digitText d.digits
  let point : Int := digits.length + d.exponent
  if style.leastPositional ≤ point - 1 ∧ point - 1 < style.exponentFrom then positional digits point
  else scientific style digits (point - 1)

/-- The shortest text of a double that reads back as the same double. -/
def text (style : Style) (x : Float) : String :=
  match parts x with
  | .nan => style.nan
  | .infinite negative => (if negative then "-" else "") ++ style.infinity
  | .finite negative mantissa exponent =>
    (if negative then "-" else "") ++ (shortest mantissa exponent).text style

/-- The text of a double with exactly `places` digits after the point, rounded from its exact value, a
tie to the even digit. -/
def fixedText (places : Nat) (x : Float) : String :=
  match parts x with
  | .nan => Style.plain.nan
  | .infinite negative => (if negative then "-" else "") ++ Style.plain.infinity
  | .finite negative mantissa exponent =>
    let (num, den) := fraction mantissa exponent
    let units := padLeft (places + 1) (digitText (roundDiv (num * tenTo places) den))
    let whole := units.toList.take (units.length - places)
    let rest := units.toList.drop (units.length - places)
    (if negative then "-" else "") ++ String.ofList whole ++
      (if places = 0 then "" else "." ++ String.ofList rest)

end ClauseFeatures.Double
