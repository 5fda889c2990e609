import ClauseFeatures.Text.Numeral
import ClauseFeatures.Text.Path
import ClauseFeatures.Value.Basic
import ClauseFeatures.Yaml.Quoted

/-!
What scalars stand for.

A quoted scalar is text. A plain one is told by its form: it may be a truth value, a number, null, or one
of the marks of YAML 1.1, and otherwise it is text. Text that has one of these forms has to be quoted
where it is written.
-/
namespace ClauseFeatures.Yaml

inductive Form
  | truth (b : Bool)
  | decimal
  | integer
  | null
  /-- The key that stands for the entries of another mapping. -/
  | merge
  /-- The key that stands for the value of the mapping itself. -/
  | own
  | date
  | text
deriving DecidableEq, Repr

def truthWords : List (String × Bool) :=
  [("yes", true), ("no", false), ("true", true), ("false", false), ("on", true), ("off", false)]

def capitalized : List Char → List Char
  | [] => []
  | c :: cs => c.toUpper :: cs

/-- Whether text is a word in lower case, in upper case or with a capital letter. -/
def isWord (word : List Char) (cs : List Char) : Bool :=
  cs == word || cs == capitalized word || cs == word.map Char.toUpper

def truth? (cs : List Char) : Option Bool :=
  (truthWords.find? fun entry => isWord entry.1.toList cs).map Prod.snd

def isNull (cs : List Char) : Bool := cs.isEmpty || cs == ['~'] || isWord "null".toList cs

/-- Characters of one class, at least one. -/
def isRun (isMember : Char → Bool) (cs : List Char) : Bool := !cs.isEmpty && cs.all isMember

/-- Digits with low lines, of which the first character is a digit. -/
def isWhole : List Char → Bool
  | [] => false
  | c :: cs => c.isDigit && cs.all Text.isDigitOrLow

/-- A number below sixty in one or two digits. -/
def isSixtieth : List Char → Bool
  | [c] => c.isDigit
  | [c, d] => c.isDigit && decide (c < '6') && d.isDigit
  | _ => false

/-- Whole numbers without a sign: binary, hexadecimal, octal after a zero, or decimal, the last with
sixtieths after colons. -/
def isUnsignedInteger : List Char → Bool
  | ['0'] => true
  | '0' :: 'b' :: ds => isRun (fun c => c == '0' || c == '1' || c == '_') ds
  | '0' :: 'x' :: ds => isRun (fun c => (hexValue? c).isSome || c == '_') ds
  | '0' :: ds => isRun (fun c => Text.isDigitOrLow c && c != '8' && c != '9') ds
  | ds =>
    match Text.cut ':' ds with
    | [] => false
    | whole :: sixtieths => isWhole whole && sixtieths.all isSixtieth

def isInteger (cs : List Char) : Bool := isUnsignedInteger (Text.splitSign cs).2

/-- An exponent, whose sign must be there, or nothing. -/
def isExponent : List Char → Bool
  | [] => true
  | mark :: sign :: digits =>
    (mark == 'e' || mark == 'E') && (sign == '-' || sign == '+') && isRun Char.isDigit digits
  | _ => false

/-- The places after a point and an exponent. -/
def isPlaces (cs : List Char) : Bool := isExponent (cs.dropWhile Text.isDigitOrLow)

/-- Whether text is the word for infinity after its sign. -/
def isInfinity (cs : List Char) : Bool :=
  match cs with
  | '.' :: word => isWord "inf".toList word
  | _ => false

def isNaN (cs : List Char) : Bool := cs == ".nan".toList || cs == ".NaN".toList || cs == ".NAN".toList

/-- The form of decimal numbers. There must be a point; before it stand digits, maybe with sixtieths, in
which case no exponent may follow. Without digits before the point there must be no sign. -/
def isDecimal (cs : List Char) : Bool :=
  let unsigned := (Text.splitSign cs).2
  isInfinity unsigned || isNaN cs ||
    match cs with
    | '.' :: c :: places => c.isDigit && isPlaces places
    | _ =>
      match unsigned.dropWhile (· != '.'), Text.cut ':' (unsigned.takeWhile (· != '.')) with
      | '.' :: places, [whole] => isWhole whole && isPlaces places
      | '.' :: places, whole :: sixtieths =>
        isWhole whole && sixtieths.all isSixtieth && places.all Text.isDigitOrLow
      | _, _ => false

/-- The rest after at least `least` and at most `most` digits. -/
def dropDigits? (least most : Nat) (cs : List Char) : Option (List Char) :=
  let count := ((cs.take most).takeWhile Char.isDigit).length
  if least ≤ count then some (cs.drop count) else none

def dropChar? (c : Char) : List Char → Option (List Char)
  | d :: cs => if d = c then some cs else none
  | [] => none

/-- The mark of the world's time or a difference from it. -/
def isZone (cs : List Char) : Bool :=
  match cs with
  | ['Z'] => true
  | sign :: hours =>
    (sign == '-' || sign == '+') &&
      match dropDigits? 1 2 hours with
      | some [] => true
      | some rest => (dropChar? ':' rest).bind (dropDigits? 2 2) == some []
      | none => false
  | [] => false

/-- A time of day: hour, minute and second, maybe with places and a zone. -/
def isClock (cs : List Char) : Bool :=
  let seconds := do
    let cs ← dropChar? ':' (← dropDigits? 1 2 cs)
    let cs ← dropChar? ':' (← dropDigits? 2 2 cs)
    dropDigits? 2 2 cs
  match seconds with
  | none => false
  | some rest =>
    let rest := ((dropChar? '.' rest).map (·.dropWhile Char.isDigit)).getD rest
    rest.isEmpty || isZone (rest.dropWhile isSpace)

/-- The form of dates, with or without a time of day. -/
def isDate (cs : List Char) : Bool :=
  let day := fun least => do
    let cs ← dropChar? '-' (← dropDigits? 4 4 cs)
    let cs ← dropChar? '-' (← dropDigits? least 2 cs)
    dropDigits? least 2 cs
  day 2 == some [] ||
    match day 1 with
    | some (c :: rest) =>
      if c == 'T' || c == 't' then isClock rest
      else isSpace c && isClock (rest.dropWhile isSpace)
    | _ => false

def form (cs : List Char) : Form :=
  match truth? cs with
  | some b => .truth b
  | none =>
    if isDecimal cs then .decimal
    else if isInteger cs then .integer
    else if isNull cs then .null
    else if cs = ['<', '<'] then .merge
    else if cs = ['='] then .own
    else if isDate cs then .date
    else .text

/-- Text without the low lines that may stand between digits. -/
def withoutLows (cs : List Char) : List Char := cs.filter (· != '_')

/-- The value of digits in a base, of which there has to be one. -/
def digitsIn (base : Nat) (ds : List Char) : Except Failure Nat :=
  if ds.isEmpty then .error (.emptyNumeral base)
  else .ok (ds.foldl (fun n d => base * n + (hexValue? d).getD 0) 0)

def wholeValue (ds : List Char) : Except Failure Nat :=
  if Failure.digitLimit < ds.length then .error (.tooManyDigits ds.length)
  else .ok (Text.digitsValue ds)

/-- The value of a whole number without a sign and low lines. -/
def unsignedValue : List Char → Except Failure Nat
  | '0' :: 'b' :: ds => digitsIn 2 ds
  | '0' :: 'x' :: ds => digitsIn 16 ds
  | '0' :: ds => digitsIn 8 ('0' :: ds)
  | ds => do
    let parts ← (Text.cut ':' ds).mapM wholeValue
    pure (parts.foldl (fun n part => 60 * n + part) 0)

def integerValue (cs : List Char) : Except Failure Int := do
  let (negative, ds) := Text.splitSign (withoutLows cs)
  let n ← unsignedValue ds
  pure (if negative then -(n : Int) else n)

/-- The sum of sixtieths, the last of them first; each counts `base` times. -/
def sumSixtieths (base : Nat) (total : Number) : List Float → Except Failure Number
  | [] => .ok total
  | part :: parts => do
    let total ← total.add (← Number.mul (.real part) (.int base))
    sumSixtieths (60 * base) total parts

/-- A decimal number without a sign, an exponent, infinities and sixtieths. -/
def readPart (cs : List Char) : Except Failure Float :=
  match Text.readUnsigned false cs with
  | some x => .ok x
  | none => .error (.notDecimal (Text.quoted (String.ofList cs)))

def decimalValue (cs : List Char) : Except Failure Number := do
  let (negative, unsigned) := Text.splitSign (withoutLows cs)
  if isInfinity unsigned then pure (.real (Double.infinity negative))
  else if isNaN unsigned then pure (.real Double.nan)
  else
    match Text.cut ':' unsigned with
    | [digits] =>
      let x ← readPart digits
      pure (.real (if negative then -x else x))
    | parts =>
      let total ← sumSixtieths 1 (.real 0) (← parts.mapM readPart).reverse
      Number.mul (.int (if negative then -1 else 1)) total

/-- What a plain scalar stands for. A date is kept as its text. -/
def resolve (cs : List Char) : Except Fault Value :=
  match form cs with
  | .truth b => .ok (.truth b)
  | .decimal => ((decimalValue cs).map Value.number).mapError .failure
  | .integer => ((integerValue cs).map Value.int).mapError .failure
  | .null => .ok .null
  | .merge | .own => .error .malformed
  | .date | .text => .ok (.text (String.ofList cs))

end ClauseFeatures.Yaml
