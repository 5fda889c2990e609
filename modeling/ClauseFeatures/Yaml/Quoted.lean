import ClauseFeatures.Failure
import ClauseFeatures.Text.Quoted
import ClauseFeatures.Yaml.Character

/-!
Quoted scalars: reading and writing.

Between single quotes only the quote itself is special and is doubled. Between double quotes a backslash
begins an escape. In both a line break counts as a space, and `n` more line breaks after it as `n` line
breaks; spaces around them do not count.
-/
namespace ClauseFeatures.Yaml

/-- Why a stream has no value: it is no document of the subset of YAML that is read, or a number or a
code in it cannot be understood. -/
inductive Fault
  | malformed
  | failure (cause : Failure)
deriving DecidableEq, Repr

/-- The line breaks that follow one, with the spaces between them, and the rest. A mark of a document's
start or end cannot stand inside a scalar. -/
def takeBreaks : Nat → List Char → Except Fault (List Char × List Char)
  | 0, _ => .error .malformed
  | fuel + 1, cs =>
    if isSeparator cs then .error .malformed
    else
      match cs.dropWhile isSpace with
      | [] => .ok ([], [])
      | c :: rest =>
        if isBreak c then do
          let (breaks, rest) ← takeBreaks fuel rest
          pure (breakValue c :: breaks, rest)
        else .ok ([], c :: rest)

/-- What a line break and those that follow it count as. -/
def foldedBreak (first : Char) (more : List Char) : List Char :=
  if breakValue first ≠ '\n' then breakValue first :: more
  else if more.isEmpty then [' ']
  else more

/-- The spaces and line breaks at the start of a stream, as they count inside a quoted scalar. -/
def takeSpaces (cs : List Char) : Except Fault (List Char × List Char) :=
  match cs.dropWhile isSpace with
  | [] => .error .malformed
  | c :: rest =>
    if isBreak c then do
      let (more, rest) ← takeBreaks (rest.length + 1) rest
      pure (foldedBreak c more, rest)
    else .ok (cs.takeWhile isSpace, c :: rest)

/-- The characters of a single-quoted scalar after its opening quote, and the rest of the stream. -/
def readSingle : Nat → List Char → Except Fault (List Char × List Char)
  | 0, _ => .error .malformed
  | fuel + 1, cs =>
    match cs with
    | [] => .error .malformed
    | '\x27' :: '\x27' :: rest => do
      let (more, rest) ← readSingle fuel rest
      pure ('\x27' :: more, rest)
    | '\x27' :: rest => .ok ([], rest)
    | c :: rest =>
      if isSpace c || isBreak c then do
        let (spaces, rest) ← takeSpaces (c :: rest)
        let (more, rest) ← readSingle fuel rest
        pure (spaces ++ more, rest)
      else do
        let (more, rest) ← readSingle fuel rest
        pure (c :: more, rest)

/-- The escapes of one letter, each with the character that it stands for. -/
def escapes : List (Char × Char) := [
  ('0', '\x00'), ('a', '\x07'), ('b', '\x08'), ('t', '\x09'), ('n', '\x0A'), ('v', '\x0B'),
  ('f', '\x0C'), ('r', '\x0D'), ('e', '\x1B'), ('"', '"'), ('\x5C', '\x5C'), ('N', '\x85'),
  ('_', '\xA0'), ('L', '\u2028'), ('P', '\u2029')]

/-- The escapes that are read but never written. -/
def readOnlyEscapes : List (Char × Char) := [('\t', '\t'), (' ', ' '), ('/', '/')]

/-- The escapes by code, each with its number of hexadecimal digits. -/
def codeEscapes : List (Char × Nat) := [('x', 2), ('u', 4), ('U', 8)]

def hexValue? (c : Char) : Option Nat :=
  if c.isDigit then some (c.toNat - 48)
  else if 'a' ≤ c ∧ c ≤ 'f' then some (c.toNat - 87)
  else if 'A' ≤ c ∧ c ≤ 'F' then some (c.toNat - 55)
  else none

/-- The code point of a number. What is no code point at all is refused by its size. -/
def codeOf (n : Nat) : Except Fault Text.Code :=
  match Text.Code.ofNat? n with
  | some code => .ok code
  | none => .error (.failure (if n < 0x80000000 then .noCharacter else .codeOverflow))

/-- The code point written in a number of hexadecimal digits, and the rest. -/
def readCode (width : Nat) (cs : List Char) : Except Fault (Text.Code × List Char) := do
  let digits := cs.take width
  match digits.mapM hexValue? with
  | some values =>
    if values.length < width then throw .malformed
    let code ← codeOf (values.foldl (fun n d => 16 * n + d) 0)
    pure (code, cs.drop width)
  | none => throw .malformed

/-- What an escape after its backslash stands for, and the rest. An escaped line break stands for nothing
but the line breaks that follow it. -/
def readEscape : List Char → Except Fault (List Text.Code × List Char)
  | [] => .error .malformed
  | c :: rest =>
    match (escapes ++ readOnlyEscapes).lookup c, codeEscapes.lookup c with
    | some v, _ => .ok ([.char v], rest)
    | none, some width => do
      let (v, rest) ← readCode width rest
      pure ([v], rest)
    | none, none =>
      if isBreak c then do
        let (breaks, rest) ← takeBreaks (rest.length + 1) rest
        pure (breaks.map .char, rest)
      else .error .malformed

/-- The code points of a double-quoted scalar after its opening quote, and the rest of the stream. -/
def readDouble : Nat → List Char → Except Fault (List Text.Code × List Char)
  | 0, _ => .error .malformed
  | fuel + 1, cs =>
    match cs with
    | [] => .error .malformed
    | '"' :: rest => .ok ([], rest)
    | '\x5C' :: rest => do
      let (value, rest) ← readEscape rest
      let (more, rest) ← readDouble fuel rest
      pure (value ++ more, rest)
    | c :: rest =>
      if isSpace c || isBreak c then do
        let (spaces, rest) ← takeSpaces (c :: rest)
        let (more, rest) ← readDouble fuel rest
        pure (spaces.map .char ++ more, rest)
      else do
        let (more, rest) ← readDouble fuel rest
        pure (.char c :: more, rest)

/-- The width that lines are folded to where a scalar allows it. -/
def lineWidth : Nat := 80

/-- A stretch of text: a word, spaces, or line breaks. -/
inductive Stretch
  | word (cs : List Char)
  | spaces (n : Nat)
  | breaks (n : Nat)
deriving DecidableEq, Repr

/-- Cuts text into its longest stretches. -/
def stretches : List Char → List Stretch
  | [] => []
  | c :: cs =>
    match c, stretches cs with
    | ' ', .spaces n :: rest => .spaces (n + 1) :: rest
    | ' ', rest => .spaces 1 :: rest
    | '\n', .breaks n :: rest => .breaks (n + 1) :: rest
    | '\n', rest => .breaks 1 :: rest
    | c, .word w :: rest => .word (c :: w) :: rest
    | c, rest => .word [c] :: rest

def indentation (indent : Nat) : List Char := List.replicate indent ' '

/-- Lays stretches out from a column on. A single space between words becomes the end of a line that has
grown too long; `n` line breaks are written as `n + 1`. -/
def layOut (word : List Char → List Char) (indent : Nat) (folds : Bool) :
    Nat → Bool → List Stretch → List Char
  | _, _, [] => []
  | column, _, .word w :: rest =>
    let written := word w
    written ++ layOut word indent folds (column + written.length) false rest
  | column, isFirst, .spaces n :: rest =>
    if n = 1 && decide (lineWidth < column) && folds && !isFirst && !rest.isEmpty then
      '\n' :: indentation indent ++ layOut word indent folds indent false rest
    else List.replicate n ' ' ++ layOut word indent folds (column + n) false rest
  | _, _, .breaks n :: rest =>
    List.replicate (n + 1) '\n' ++ indentation indent ++ layOut word indent folds indent false rest

def doubleQuotes (w : List Char) : List Char :=
  w.flatMap fun c => if c = '\x27' then ['\x27', '\x27'] else [c]

def writeSingle (indent : Nat) (folds : Bool) (column : Nat) (text : List Char) : List Char :=
  '\x27' :: layOut doubleQuotes indent folds (column + 1) true (stretches text) ++ ['\x27']

/-- The escape for a code of one, two or four bytes. -/
def codeEscape (n : Nat) : List Char :=
  let hex (width : Nat) : List Char := (Text.hexText width n).map Char.toUpper
  '\x5C' ::
    if n ≤ 0xFF then 'x' :: hex 2
    else if n ≤ 0xFFFF then 'u' :: hex 4
    else 'U' :: hex 8

/-- The written form of a code point between double quotes, if it is not a character that stands for
itself. -/
def escapeOf? (code : Text.Code) : Option (List Char) :=
  match escapes.find? fun e => .char e.2 = code with
  | some e => some ['\x5C', e.1]
  | none =>
    if 0x20 ≤ code.toNat ∧ code.toNat ≤ 0x7E then none else some (codeEscape code.toNat)

/-- The characters between double quotes. `pending` are the plain ones since the last break of the line,
`column` is where they begin. Before a space, or after an escape, a line that has grown too long ends
with a backslash; a space that would begin the next line gets a backslash as well. -/
def doubleBody (indent : Nat) (folds : Bool) :
    Bool → List Char → Nat → List Text.Code → List Char
  | _, pending, _, [] => pending
  | isFirst, pending, column, code :: rest =>
    let mayFold := folds && !isFirst && !rest.isEmpty
    match escapeOf? code with
    | some e =>
      let written := pending ++ e
      let column := column + written.length
      if mayFold && decide (lineWidth < column - 1) then
        let next := '\x5C' :: '\n' :: indentation indent
        if rest.head? = some (.char ' ') then
          written ++ next ++ '\x5C' :: doubleBody indent folds false [] (indent + 1) rest
        else written ++ next ++ doubleBody indent folds false [] indent rest
      else written ++ doubleBody indent folds false [] column rest
    | none =>
      let c := code.toChar
      if mayFold && (c = ' ' || pending.isEmpty) && decide (lineWidth < column + pending.length) then
        let next := pending ++ '\x5C' :: '\n' :: indentation indent
        if c = ' ' then
          next ++ '\x5C' :: doubleBody indent folds false [c] (indent + 1) rest
        else next ++ doubleBody indent folds false [c] indent rest
      else doubleBody indent folds false (pending ++ [c]) column rest

def writeDouble (indent : Nat) (folds : Bool) (column : Nat) (text : List Text.Code) : List Char :=
  '"' :: doubleBody indent folds true [] (column + 1) text ++ ['"']

end ClauseFeatures.Yaml
