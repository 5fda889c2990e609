import ClauseFeatures.Yaml.Quoted

/-!
Plain scalars: text without quotes. A plain scalar ends at a colon before a gap, at a comment, inside
brackets at an indicator, and at a line that is indented too little. Its line breaks fold like those of
quoted scalars.
-/
namespace ClauseFeatures.Yaml

/-- Whether a character separates or encloses the items of a flow collection. -/
def isFlowIndicator (c : Char) : Bool :=
  c == ',' || c == '[' || c == ']' || c == '\x7b' || c == '\x7d'

/-- Whether a plain scalar cannot go on at the start of a stream. -/
def endsPlain (inFlow : Bool) : List Char → Bool
  | [] => true
  | c :: rest =>
    isSpace c || isBreak c ||
      (c == ':' && (isGap rest || (inFlow && rest.head?.any isFlowIndicator))) ||
      (inFlow && (isFlowIndicator c || c == '?'))

/-- The characters up to a place where a plain scalar may end, and the rest. -/
def takePlain (inFlow : Bool) : List Char → List Char × List Char
  | [] => ([], [])
  | c :: rest =>
    if endsPlain inFlow (c :: rest) then ([], c :: rest)
    else
      let (word, rest) := takePlain inFlow rest
      (c :: word, rest)

/-- The spaces and line breaks after a word of a plain scalar: what they count as if the scalar goes on,
and on a new line the column at which it would. -/
structure PlainGap where
  value : List Char
  newLine : Option Nat
  rest : List Char

/-- The line breaks after one, with the spaces between them, the column reached and the rest. Nothing is
known of the value if a mark of a document's start or end comes first. -/
def takePlainBreaks : Nat → List Char → Option (List Char) × Nat × List Char
  | column, [] => (some [], column, [])
  | column, c :: rest =>
    if c == ' ' then takePlainBreaks (column + 1) rest
    else if isBreak c then
      if isSeparator rest then (none, 0, rest)
      else
        let (more, column, rest) := takePlainBreaks 0 rest
        (more.map (breakValue c :: ·), column, rest)
    else (some [], column, c :: rest)

/-- The gap after a word of a plain scalar. It has no value if the scalar cannot go on. -/
def takePlainGap (cs : List Char) : PlainGap :=
  let spaces := cs.takeWhile (· == ' ')
  match cs.dropWhile (· == ' ') with
  | [] => ⟨spaces, none, []⟩
  | c :: rest =>
    if isBreak c then
      if isSeparator rest then ⟨[], some 0, rest⟩
      else
        match takePlainBreaks 0 rest with
        | (some more, column, rest) => ⟨foldedBreak c more, some column, rest⟩
        | (none, column, rest) => ⟨[], some column, rest⟩
    else ⟨spaces, none, c :: rest⟩

/-- What is read of a plain scalar: its text, whether a line break followed its last word, and the rest. -/
structure PlainText where
  text : List Char
  brokeLine : Bool
  rest : List Char

/-- Reads words and gaps as long as the scalar goes on. `gap` is what stands before the next word, and a
new line has to be indented by at least `indent`. -/
def readPlain (inFlow : Bool) (indent : Int) : Nat → List Char → Bool → List Char → PlainText
  | 0, _, brokeLine, cs => ⟨[], brokeLine, cs⟩
  | fuel + 1, gap, brokeLine, cs =>
    if cs.head? = some '#' then ⟨[], brokeLine, cs⟩
    else
      let (word, rest) := takePlain inFlow cs
      if word.isEmpty then ⟨[], brokeLine, cs⟩
      else
        let next := takePlainGap rest
        let goesOn := !next.value.isEmpty && next.rest.head? != some '#' &&
          (inFlow || next.newLine.all fun column => decide (indent ≤ (column : Int)))
        let more :=
          if goesOn then readPlain inFlow indent fuel next.value next.newLine.isSome next.rest
          else ⟨[], next.newLine.isSome, next.rest⟩
        { more with text := gap ++ word ++ more.text }

/-- Whether a plain scalar can begin at the start of a stream. -/
def beginsPlain (inFlow : Bool) : List Char → Bool
  | [] => false
  | c :: rest =>
    !(isSpace c || isBreak c || "-?:,[]\x7b\x7d#&*!|>'\"%@\x60".toList.contains c) ||
      (!isGap rest && (c == '-' || (!inFlow && (c == '?' || c == ':'))))

def writePlain (indent : Nat) (folds : Bool) (column : Nat) (text : List Char) : List Char :=
  layOut id indent folds column true (stretches text)

end ClauseFeatures.Yaml
