/-!
Characters of YAML streams.
-/
namespace ClauseFeatures.Yaml

/-- The mark that may stand before a stream to tell its encoding. -/
def byteOrderMark : Char := '\uFEFF'

/-- Whether a character ends a line. Line ends of other systems are replaced before reading. -/
def isBreak (c : Char) : Bool := c == '\n' || c == '\x85' || c == '\u2028' || c == '\u2029'

/-- A line break as it counts inside a scalar. -/
def breakValue (c : Char) : Char := if c == '\x85' then '\n' else c

/-- A space or a tab. -/
def isSpace (c : Char) : Bool := c == ' ' || c == '\t'

/-- Whether the rest of a stream begins with a space, a tab or a line break, or is empty. -/
def isGap : List Char → Bool
  | [] => true
  | c :: _ => isSpace c || isBreak c

/-- Whether a stream may contain a character at all. -/
def isAllowed (c : Char) : Bool :=
  let n := c.toNat
  n == 0x9 || n == 0xA || n == 0xD || (0x20 ≤ n && n ≤ 0x7E) || n == 0x85 ||
    (0xA0 ≤ n && n ≤ 0xD7FF) || (0xE000 ≤ n && n ≤ 0xFFFD) || 0x10000 ≤ n

/-- Three times the same character and then a gap: the mark of a document's start or end, if it begins a
line. -/
def isMarker (mark : Char) : List Char → Bool
  | a :: b :: c :: rest => a == mark && b == mark && c == mark && isGap rest
  | _ => false

/-- Whether a line begins with the mark of a document's start or end. -/
def isSeparator (cs : List Char) : Bool := isMarker '-' cs || isMarker '.' cs

/-- The length of the stretches in which a stream is taken in. -/
def stretchLength : Nat := 4096

/-- Every end of line, in the manner of any system, as one line feed. -/
def unifyLines : List Char → List Char
  | '\r' :: '\n' :: cs => '\n' :: unifyLines cs
  | '\r' :: cs => '\n' :: unifyLines cs
  | c :: cs => c :: unifyLines cs
  | [] => []

end ClauseFeatures.Yaml
