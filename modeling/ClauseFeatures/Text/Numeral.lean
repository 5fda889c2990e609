import ClauseFeatures.Failure
import ClauseFeatures.Double.Text
import ClauseFeatures.Text.Quoted

/-!
Reading numbers from text.

Blanks may surround a number, the digits may be those of any script, and single low lines may stand
between digits. A decimal number may have a point and an exponent, or be one of the words for infinity
and for no number; a whole number has an optional sign and digits only.
-/
namespace ClauseFeatures.Text

/-- Whether a character may stand around a number: the white space of the standard, without the four
separators of information U+001C to U+001F. -/
def isBlank (c : Char) : Bool :=
  let n := c.toNat
  (0x9 ≤ n && n ≤ 0xD) || n == 0x20 || n == 0x85 || n == 0xA0 || n == 0x1680 ||
    (0x2000 ≤ n && n ≤ 0x200A) || n == 0x2028 || n == 0x2029 || n == 0x202F || n == 0x205F ||
    n == 0x3000

def trimBlanks (cs : List Char) : List Char :=
  ((cs.dropWhile isBlank).reverse.dropWhile isBlank).reverse

/-- The digit zero of each script that has decimal digits. In each script the ten digits stand together, from zero to
nine. -/
def zeros : List Nat := [
  0x30, 0x660, 0x6F0, 0x7C0, 0x966, 0x9E6, 0xA66, 0xAE6, 0xB66, 0xBE6, 0xC66, 0xCE6, 0xD66, 0xDE6,
  0xE50, 0xED0, 0xF20, 0x1040, 0x1090, 0x17E0, 0x1810, 0x1946, 0x19D0, 0x1A80, 0x1A90, 0x1B50,
  0x1BB0, 0x1C40, 0x1C50, 0xA620, 0xA8D0, 0xA900, 0xA9D0, 0xA9F0, 0xAA50, 0xABF0, 0xFF10, 0x104A0,
  0x10D30, 0x11066, 0x110F0, 0x11136, 0x111D0, 0x112F0, 0x11450, 0x114D0, 0x11650, 0x116C0, 0x11730,
  0x118E0, 0x11950, 0x11C50, 0x11D50, 0x11DA0, 0x16A60, 0x16AC0, 0x16B50, 0x1D7CE, 0x1D7D8, 0x1D7E2,
  0x1D7EC, 0x1D7F6, 0x1E140, 0x1E2F0, 0x1E950, 0x1FBF0]

/-- The value of a decimal digit of any script. -/
def digitValue? (c : Char) : Option Nat :=
  (zeros.find? fun start => start ≤ c.toNat && c.toNat < start + 10).map (c.toNat - ·)

/-- A character with a digit of any script replaced by the one from `0` to `9`. -/
def plainDigit (c : Char) : Char :=
  match digitValue? c with
  | some v => Char.ofNat (48 + v)
  | none => c

/-- The characters without low lines, each of which has to stand between two digits. `last` is the
character before. -/
def dropLowLines (last : Option Char) : List Char → Option (List Char)
  | [] => if last = some '_' then none else some []
  | c :: cs =>
    if c = '_' then
      if last.any Char.isDigit then dropLowLines (some '_') cs else none
    else if last = some '_' && !c.isDigit then none
    else (dropLowLines (some c) cs).map (c :: ·)

/-- A digit or the low line that may stand between digits. -/
def isDigitOrLow (c : Char) : Bool := c.isDigit || c == '_'

/-- The characters of a number without the freedoms of writing: blanks, scripts and low lines. -/
def numeralChars (cs : List Char) : Option (List Char) :=
  dropLowLines none ((trimBlanks cs).map plainDigit)

def digitsValue (cs : List Char) : Nat := cs.foldl (fun n c => 10 * n + (c.toNat - 48)) 0

/-- An optional sign: whether it is a minus, and what follows it. -/
def splitSign : List Char → Bool × List Char
  | '-' :: cs => (true, cs)
  | '+' :: cs => (false, cs)
  | cs => (false, cs)

/-- Digits and nothing else, at least one. -/
def readDigits (cs : List Char) : Option Nat :=
  if !cs.isEmpty && cs.all Char.isDigit then some (digitsValue cs) else none

/-- The exponent after a mantissa: none at all, or a mark, an optional sign and digits. -/
def readExponent : List Char → Option Int
  | [] => some 0
  | c :: cs =>
    if c = 'e' || c = 'E' then
      let (negative, digits) := splitSign cs
      (readDigits digits).map fun n => if negative then -(n : Int) else n
    else none

/-- An unsigned decimal number: digits with an optional point, then an optional exponent. -/
def readUnsigned (negative : Bool) (cs : List Char) : Option Float :=
  let whole := cs.takeWhile Char.isDigit
  let rest := cs.dropWhile Char.isDigit
  let (places, rest) :=
    match rest with
    | '.' :: after => (after.takeWhile Char.isDigit, after.dropWhile Char.isDigit)
    | _ => ([], rest)
  let digits := whole ++ places
  if digits.isEmpty then none
  else
    (readExponent rest).map fun exponent =>
      Double.ofDecimal negative (digitsValue digits) (exponent - places.length)

/-- A decimal number, or a word for infinity or for no number in any case of letters. -/
def readSigned (cs : List Char) : Option Float :=
  let (negative, rest) := splitSign cs
  let word := String.ofList (rest.map Char.toLower)
  if word = "inf" || word = "infinity" then some (Double.infinity negative)
  else if word = "nan" then some Double.nan
  else readUnsigned negative rest

/-- Reads a decimal number as the nearest double. A surrogate is no part of a number. -/
def readDecimal (cs : List Code) : Except Failure Float :=
  match (numeralChars (cs.map Code.toChar)).bind readSigned with
  | some x => .ok x
  | none => .error (.notDecimal (String.ofList (quotedCodes cs)))

/-- The most characters of a text that is no whole number that a message quotes. -/
def quoteLimit : Nat := 200

/-- Reads a whole number. The number of digits is looked at before what follows them. -/
def readInteger (cs : List Code) : Except Failure Int :=
  let refused : Failure := .notInteger (String.ofList ((quotedCodes cs).take quoteLimit))
  let (negative, rest) := splitSign (((cs.map Code.toChar).dropWhile isBlank).map plainDigit)
  match dropLowLines none (rest.takeWhile isDigitOrLow) with
  | none => .error refused
  | some digits =>
    if Failure.digitLimit < digits.length then .error (.tooManyDigits digits.length)
    else if digits.isEmpty || !(rest.dropWhile isDigitOrLow).all isBlank then .error refused
    else .ok (if negative then -(digitsValue digits : Int) else digitsValue digits)

end ClauseFeatures.Text
