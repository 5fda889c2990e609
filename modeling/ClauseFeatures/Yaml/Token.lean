import ClauseFeatures.Yaml.Plain

/-!
Tokens of a YAML stream.

Block collections are told by indentation: a token marks where one begins and where one ends. That
something is a key only shows at the colon after it, so the scanner remembers where a key might have begun
and puts the mark of the key there afterwards. A possible key has to end on its line and within 1024
characters; one that stands where a block mapping needs a key has to become one.
-/
namespace ClauseFeatures.Yaml

inductive Token
  | directive
  | documentStart
  | documentEnd
  | streamEnd
  | blockSequenceStart
  | blockMappingStart
  | blockEnd
  | flowSequenceStart
  | flowSequenceEnd
  | flowMappingStart
  | flowMappingEnd
  | blockEntry
  | flowEntry
  | key
  | value
  | plain (text : List Char)
  | quoted (text : List Text.Code)
  /-- What is found instead of a token. -/
  | fault (f : Fault)
deriving DecidableEq, Repr

/-- A place in a stream: the characters from there on, how many came before, and line and column. -/
structure Place where
  rest : List Char
  index : Nat := 0
  line : Nat := 0
  column : Nat := 0

namespace Place

def next (p : Place) : Place :=
  match p.rest with
  | [] => p
  | c :: rest =>
    if isBreak c then { rest, index := p.index + 1, line := p.line + 1, column := 0 }
    else if c == byteOrderMark then { p with rest, index := p.index + 1 }
    else { p with rest, index := p.index + 1, column := p.column + 1 }

def forward : Nat → Place → Place
  | 0, p => p
  | n + 1, p => forward n p.next

/-- The place at which only a given rest, an end of the present one, is left. -/
def skipTo (p : Place) (rest : List Char) : Place := p.forward (p.rest.length - rest.length)

end Place

/-- A place where a key may have begun, and the number of tokens before it. -/
structure PossibleKey where
  tokenCount : Nat
  isRequired : Bool
  index : Nat
  line : Nat
  column : Nat

/-- What the scanner knows between two tokens. -/
structure Scan where
  place : Place
  tokens : List Token := []
  /-- The indentation of the present block collection, `-1` outside of all. -/
  indent : Int := -1
  /-- The indentations of the collections around it, innermost first. -/
  outer : List Int := []
  /-- How many flow collections are open. -/
  depth : Nat := 0
  /-- Whether a key may begin here. -/
  allowsKey : Bool := true
  /-- Possible keys by the number of open flow collections around them. -/
  keys : List (Nat × PossibleKey) := []

namespace Scan

def emit (s : Scan) (t : Token) : Scan := { s with tokens := s.tokens ++ [t] }

/-- Whether a possible key can no longer become one. -/
def isStale (s : Scan) (k : PossibleKey) : Bool :=
  k.line != s.place.line || decide (1024 < s.place.index - k.index)

def livingKeys (s : Scan) : List (Nat × PossibleKey) := s.keys.filter fun (_, k) => !s.isStale k

/-- Forgets the possible keys that can no longer become keys; none of them may be required. -/
def dropStale (s : Scan) : Except Fault Scan :=
  if s.keys.any fun (_, k) => s.isStale k && k.isRequired then .error .malformed
  else .ok { s with keys := s.livingKeys }

/-- Forgets the possible key among the items of the present collection; it must not be required. -/
def dropKey (s : Scan) : Except Fault Scan :=
  if s.keys.any fun (depth, k) => depth == s.depth && k.isRequired then .error .malformed
  else .ok { s with keys := s.keys.filter fun (depth, _) => depth != s.depth }

def saveKey (s : Scan) : Except Fault Scan :=
  if s.allowsKey then do
    let s ← s.dropKey
    let k : PossibleKey := {
      tokenCount := s.tokens.length
      isRequired := s.depth == 0 && s.indent == s.place.column
      index := s.place.index
      line := s.place.line
      column := s.place.column }
    pure { s with keys := (s.depth, k) :: s.keys }
  else .ok s

/-- The ends of the block collections that are indented deeper than a column, the indentation that is
left, and those around it. -/
def closing (column : Int) : Int → List Int → List Token × Int × List Int
  | indent, [] => ([], indent, [])
  | indent, out :: outer =>
    if column < indent then
      let (ends, indent, outer) := closing column out outer
      (.blockEnd :: ends, indent, outer)
    else ([], indent, out :: outer)

/-- Ends the block collections that are indented deeper than a column. Inside a flow collection
indentation does not count. -/
def unwind (s : Scan) (column : Int) : Scan :=
  if s.depth = 0 then
    let (ends, indent, outer) := closing column s.indent s.outer
    { s with tokens := s.tokens ++ ends, indent, outer }
  else s

/-- Begins a block collection at a column if the present one is indented less; `at?` is where its mark is
put among the tokens. -/
def indentTo (s : Scan) (column : Nat) (start : Token) (position : Nat) : Scan :=
  if s.indent < column then
    { s with
      indent := column
      outer := s.indent :: s.outer
      tokens := s.tokens.insertIdx position start }
  else s

/-- The rest of a stream after spaces, comments and line breaks, and whether there was a line break. -/
def skipIdle (inComment : Bool) : List Char → List Char × Bool
  | [] => ([], false)
  | c :: cs =>
    if isBreak c then ((skipIdle false cs).1, true)
    else if inComment || c == ' ' then skipIdle inComment cs
    else if c == '#' then skipIdle true cs
    else (c :: cs, false)

/-- Goes to the next token. A key may begin after a line break. -/
def toNextToken (s : Scan) : Scan :=
  let (rest, brokeLine) := skipIdle false s.place.rest
  { s with
    place := s.place.skipTo rest
    allowsKey := s.allowsKey || (brokeLine && s.depth == 0) }

def take (s : Scan) (count : Nat) (t : Token) : Scan :=
  { s with place := s.place.forward count }.emit t

/-- A mark of a document's start or end, or a directive: all block collections end. -/
def takeMark (s : Scan) (count : Nat) (t : Token) : Except Fault Scan := do
  let s ← (s.unwind (-1)).dropKey
  pure { s.take count t with allowsKey := false }

/-- The opening bracket of a flow collection, which may itself be a key. -/
def openFlow (s : Scan) (t : Token) : Except Fault Scan := do
  let s ← s.saveKey
  pure { s.take 1 t with depth := s.depth + 1, allowsKey := true }

/-- The closing bracket of a flow collection; there has to be one open. -/
def closeFlow (s : Scan) (t : Token) : Except Fault Scan := do
  if s.depth = 0 then throw .malformed
  let s ← s.dropKey
  pure { s.take 1 t with depth := s.depth - 1, allowsKey := false }

/-- The comma between the items of a flow collection. -/
def flowEntry (s : Scan) : Except Fault Scan := do
  let s ← s.dropKey
  pure { s.take 1 .flowEntry with allowsKey := true }

/-- The dash before an item of a block sequence. -/
def blockEntry (s : Scan) : Except Fault Scan := do
  if s.depth = 0 && !s.allowsKey then throw .malformed
  let s :=
    if s.depth = 0 then s.indentTo s.place.column .blockSequenceStart s.tokens.length else s
  let s ← s.dropKey
  pure { s.take 1 .blockEntry with allowsKey := true }

def explicitKey (s : Scan) : Except Fault Scan := do
  if s.depth = 0 && !s.allowsKey then throw .malformed
  let s :=
    if s.depth = 0 then s.indentTo s.place.column .blockMappingStart s.tokens.length else s
  let s ← s.dropKey
  pure { s.take 1 .key with allowsKey := s.depth == 0 }

/-- The colon before a value. If a key may have begun before, its mark is put there now. -/
def keyedValue (s : Scan) : Except Fault Scan :=
  match s.keys.lookup s.depth with
  | some k =>
    let s := { s with
      keys := s.keys.filter fun (depth, _) => depth != s.depth
      tokens := s.tokens.insertIdx k.tokenCount .key }
    let s := if s.depth = 0 then s.indentTo k.column .blockMappingStart k.tokenCount else s
    .ok { s.take 1 .value with allowsKey := false }
  | none => do
    if s.depth = 0 && !s.allowsKey then throw .malformed
    let s :=
      if s.depth = 0 then s.indentTo s.place.column .blockMappingStart s.tokens.length else s
    let s ← s.dropKey
    pure { s.take 1 .value with allowsKey := s.depth == 0 }

/-- A scalar whose quotes are of one of the two kinds. -/
def quotedScalar (s : Scan) (read : Nat → List Char → Except Fault (List Text.Code × List Char)) :
    Except Fault Scan := do
  let s ← s.saveKey
  let body := s.place.rest.drop 1
  let (text, rest) ← read (body.length + 1) body
  pure ({ s with place := s.place.skipTo rest, allowsKey := false }.emit (.quoted text))

def readSingleCodes (fuel : Nat) (cs : List Char) : Except Fault (List Text.Code × List Char) := do
  let (text, rest) ← readSingle fuel cs
  pure (text.map .char, rest)

/-- A plain scalar. A key may begin after it if a line break followed. -/
def plainScalar (s : Scan) : Except Fault Scan := do
  let s ← s.saveKey
  let cs := s.place.rest
  let read := readPlain (s.depth != 0) (s.indent + 1) (cs.length + 1) [] false cs
  pure ({ s with place := s.place.skipTo read.rest, allowsKey := read.brokeLine }.emit
    (.plain read.text))

/-- The characters of a directive up to the end of its line. -/
def directiveLength (cs : List Char) : Nat := (cs.takeWhile fun c => !isBreak c).length

/-- Reads the next token, whose first character is known. Anchors, aliases, tags and block scalars are
not part of the subset that is read. -/
def takeToken (s : Scan) (c : Char) (rest : List Char) : Except Fault Scan :=
  let cs := c :: rest
  let startsLine := s.place.column = 0
  let inFlow := s.depth ≠ 0
  if c = '%' ∧ startsLine then s.takeMark (directiveLength cs) .directive
  else if startsLine ∧ isMarker '-' cs then s.takeMark 3 .documentStart
  else if startsLine ∧ isMarker '.' cs then s.takeMark 3 .documentEnd
  else if c = '[' then s.openFlow .flowSequenceStart
  else if c = '\x7b' then s.openFlow .flowMappingStart
  else if c = ']' then s.closeFlow .flowSequenceEnd
  else if c = '\x7d' then s.closeFlow .flowMappingEnd
  else if c = ',' then s.flowEntry
  else if c = '-' ∧ isGap rest then s.blockEntry
  else if c = '?' ∧ (inFlow ∨ isGap rest) then s.explicitKey
  else if c = ':' ∧ (inFlow ∨ isGap rest) then s.keyedValue
  else if c = '\x27' then s.quotedScalar readSingleCodes
  else if c = '"' then s.quotedScalar readDouble
  else if beginsPlain inFlow cs then s.plainScalar
  else .error .malformed

/-- Reads the next token, or takes the end of the stream for it. -/
def advance (s : Scan) : Except Fault Scan := do
  let s ← s.dropStale
  let s := s.unwind s.place.column
  match s.place.rest with
  | [] =>
    let s ← (s.unwind (-1)).dropKey
    pure (s.emit .streamEnd)
  | c :: rest => s.takeToken c rest

/-- The tokens before a fault. While something may still turn out to be a key, its token and those after
it are not told, so the fault shows before them. -/
def toldBefore (s : Scan) (f : Fault) : List Token :=
  let told := s.livingKeys.foldl (fun n (_, k) => min n k.tokenCount) s.tokens.length
  s.tokens.take told ++ [.fault f]

/-- Reads tokens up to the end of the stream or up to a fault. -/
def run : Nat → Scan → List Token
  | 0, s => s.toldBefore .malformed
  | fuel + 1, s =>
    let ahead := s.toNextToken
    match ahead.advance with
    | .error f => s.toldBefore f
    | .ok next => if ahead.place.rest.isEmpty then next.tokens else run fuel next

end Scan

/-- The tokens of a stream, without the mark of its encoding. The last one is the stream's end or a fault. -/
def tokens (cs : List Char) : List Token :=
  let start : Place := { rest := cs }
  let start := if cs.head? = some byteOrderMark then start.next else start
  Scan.run (cs.length + 1) { place := start }

end ClauseFeatures.Yaml
