import ClauseFeatures.Yaml.Plain
import ClauseFeatures.Yaml.Scalar

/-!
The style in which a scalar is written: plain where a reader takes the plain form for the same text, else
between single quotes, and between double quotes what needs escapes.
-/
namespace ClauseFeatures.Yaml

inductive Style
  | plain
  | single
  | double
deriving DecidableEq, Repr

def isSpecial (c : Char) : Bool := c != '\n' && !(decide (0x20 ≤ c.toNat) && decide (c.toNat ≤ 0x7E))

/-- Whether two characters stand side by side in a text. -/
def hasPair (a b : Char) : List Char → Bool
  | c :: d :: cs => (c == a && d == b) || hasPair a b (d :: cs)
  | _ => false

/-- Whether a text begins as something else than a plain scalar would. -/
def beginsIndicated : List Char → Bool
  | [] => false
  | c :: cs =>
    "#,[]\x7b\x7d&*!|>'\"%@\x60".toList.contains c || ("?:-".toList.contains c && isGap cs) ||
      (c == '-' && cs.take 2 == ['-', '-']) || (c == '.' && cs.take 2 == ['.', '.'])

/-- Whether a plain scalar would end inside a text, at a colon or at a comment. -/
def hasEnd : List Char → Bool
  | [] => false
  | c :: cs =>
    (c == ':' && isGap cs) || ((isSpace c || isBreak c) && cs.head? == some '#') || hasEnd cs

def styleOf (cs : List Char) : Style :=
  if cs.any isSpecial || hasPair ' ' '\n' cs || hasPair '\n' ' ' cs then .double
  else if form cs != .text || cs.contains '\n' || cs.head? == some ' ' || cs.getLast? == some ' ' ||
      beginsIndicated cs || hasEnd cs then .single
  else .plain

/-- Writes a text that begins at a column; its further lines are indented by `indent`. -/
def writeText (indent : Nat) (folds : Bool) (column : Nat) (text : List Char) : List Char :=
  match styleOf text with
  | .plain => writePlain indent folds column text
  | .single => writeSingle indent folds column text
  | .double => writeDouble indent folds column (text.map .char)

/-- The layout of numbers. A mantissa needs a point to be read back as a number. -/
def numberStyle : Double.Style :=
  { Double.Style.plain with pointInMantissa := true, infinity := ".inf", nan := ".nan" }

def writeNumber : Number → List Char
  | .truth b => if b then "true".toList else "false".toList
  | .int n => (Number.int n).text.toList
  | .real x => (Double.text numberStyle x).toList

end ClauseFeatures.Yaml
