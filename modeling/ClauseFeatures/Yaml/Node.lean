import ClauseFeatures.Yaml.Scalar
import ClauseFeatures.Yaml.Token

/-!
Nodes: the structure of a YAML document, and the value that it has.

A subset of YAML 1.1 is read: one document of plain and quoted scalars in block and flow collections, nested as deeply
as one likes, with comments, directives and marks of the document. Tags, anchors, aliases, block scalars and merge keys
are not part of it and are taken for malformed; a date is read as its text.

Tokens are read by recursive descent. What may be left out (a key, a value, an item after its dash) is
null. A node in a block may be anything; between brackets only scalars and bracketed collections stand;
and the key or the value in a block mapping may also be a sequence whose dashes are not indented.

Values are found level by level from the outside, so of several faults the one that lies least deep counts.
-/
namespace ClauseFeatures.Yaml

inductive Node
  | plain (text : List Char)
  | quoted (text : List Text.Code)
  | sequence (items : List Node)
  | mapping (entries : List (Node × Node))

namespace Node

def missing : Node := .plain []

/-- The fault of tokens that do not go on as they should: the one found instead of a token, if that is why. -/
def faultAt : List Token → Fault
  | .fault f :: _ => f
  | _ => .malformed

inductive Setting
  | block
  | blockEntry
  | flow
deriving DecidableEq

/-- Reads a node, or takes it as missing if one of some tokens is next. -/
def orMissing (stops : List Token) (read : List Token → Except Fault (Node × List Token)) (ts : List Token) :
    Except Fault (Node × List Token) :=
  if ts.head?.any stops.contains then .ok (missing, ts) else read ts

/-- Reads a node after a token, or takes it as missing if one of some tokens follows or the token itself
is not there. -/
def after (mark : Token) (stops : List Token) (read : List Token → Except Fault (Node × List Token))
    (ts : List Token) : Except Fault (Node × List Token) :=
  if ts.head? = some mark then orMissing stops read ts.tail else .ok (missing, ts)

/-- Goes to the next item between brackets: a comma has to stand before all but the first, and may stand
before the closing bracket. -/
def toFlowItem (isFirst : Bool) (close : Token) (ts : List Token) : Except Fault (List Token) :=
  if isFirst || ts.head? = some close then .ok ts
  else if ts.head? = some .flowEntry then .ok ts.tail
  else .error (faultAt ts)

mutual

def read : Nat → Setting → List Token → Except Fault (Node × List Token)
  | 0, _, _ => .error .malformed
  | fuel + 1, setting, ts =>
    match ts with
    | .plain text :: rest => .ok (.plain text, rest)
    | .quoted text :: rest => .ok (.quoted text, rest)
    | .flowSequenceStart :: rest => do
      let (items, rest) ← readFlowItems fuel true rest
      pure (.sequence items, rest)
    | .flowMappingStart :: rest => do
      let (entries, rest) ← readFlowEntries fuel true rest
      pure (.mapping entries, rest)
    | .blockSequenceStart :: rest =>
      if setting = .flow then .error .malformed
      else do
        let (items, rest) ← readItems fuel [.blockEntry, .blockEnd] rest
        if rest.head? = some .blockEnd then pure (.sequence items, rest.tail)
        else throw (faultAt rest)
    | .blockMappingStart :: rest =>
      if setting = .flow then .error .malformed
      else do
        let (entries, rest) ← readEntries fuel rest
        pure (.mapping entries, rest)
    | .blockEntry :: _ =>
      if setting = .blockEntry then do
        let (items, rest) ← readItems fuel [.blockEntry, .key, .value, .blockEnd] ts
        pure (.sequence items, rest)
      else .error .malformed
    | _ => .error (faultAt ts)

/-- Reads the items of a block sequence. An item is missing if one of some tokens follows its dash. -/
def readItems : Nat → List Token → List Token → Except Fault (List Node × List Token)
  | 0, _, _ => .error .malformed
  | fuel + 1, stops, ts =>
    match ts with
    | .blockEntry :: rest => do
      let (item, rest) ← orMissing stops (read fuel .block) rest
      let (items, rest) ← readItems fuel stops rest
      pure (item :: items, rest)
    | _ => .ok ([], ts)

/-- Reads the entries of a block mapping and its end. -/
def readEntries : Nat → List Token → Except Fault (List (Node × Node) × List Token)
  | 0, _ => .error .malformed
  | fuel + 1, ts =>
    match ts with
    | .key :: _ => do
      let stops := [.key, .value, .blockEnd]
      let (key, rest) ← after .key stops (read fuel .blockEntry) ts
      let (value, rest) ← after .value stops (read fuel .blockEntry) rest
      let (entries, rest) ← readEntries fuel rest
      pure ((key, value) :: entries, rest)
    | .blockEnd :: rest => .ok ([], rest)
    | _ => .error (faultAt ts)

/-- Reads the items between square brackets and the closing one. A key is a mapping of one entry. -/
def readFlowItems : Nat → Bool → List Token → Except Fault (List Node × List Token)
  | 0, _, _ => .error .malformed
  | fuel + 1, isFirst, ts => do
    let ts ← toFlowItem isFirst .flowSequenceEnd ts
    match ts with
    | .flowSequenceEnd :: rest => .ok ([], rest)
    | .key :: _ => do
      let stops := [.flowEntry, .flowSequenceEnd]
      let (key, rest) ← after .key (.value :: stops) (read fuel .flow) ts
      let (value, rest) ← after .value stops (read fuel .flow) rest
      let (items, rest) ← readFlowItems fuel false rest
      pure (.mapping [(key, value)] :: items, rest)
    | _ => do
      let (item, rest) ← read fuel .flow ts
      let (items, rest) ← readFlowItems fuel false rest
      pure (item :: items, rest)

/-- Reads the entries between braces and the closing one. A node that is no key has the value null. -/
def readFlowEntries : Nat → Bool → List Token → Except Fault (List (Node × Node) × List Token)
  | 0, _, _ => .error .malformed
  | fuel + 1, isFirst, ts => do
    let ts ← toFlowItem isFirst .flowMappingEnd ts
    match ts with
    | .flowMappingEnd :: rest => .ok ([], rest)
    | .key :: _ => do
      let stops := [.flowEntry, .flowMappingEnd]
      let (key, rest) ← after .key (.value :: stops) (read fuel .flow) ts
      let (value, rest) ← after .value stops (read fuel .flow) rest
      let (entries, rest) ← readFlowEntries fuel false rest
      pure ((key, value) :: entries, rest)
    | _ => do
      let (key, rest) ← read fuel .flow ts
      let (entries, rest) ← readFlowEntries fuel false rest
      pure ((key, missing) :: entries, rest)

end

/-- The node of a document after its start, which may be empty. -/
def readDocument (ts : List Token) : Except Fault (Node × List Token) :=
  let read := read (4 * ts.length + 4) .block
  match ts with
  | .directive :: _ | .documentStart :: _ =>
    match ts.dropWhile (· = .directive) with
    | .documentStart :: rest =>
      orMissing [.directive, .documentStart, .documentEnd, .streamEnd] read rest
    | rest => .error (faultAt rest)
  | _ => read ts

/-- The node of a stream of at most one document. A stream without one has the missing node. -/
def ofTokens (ts : List Token) : Except Fault Node :=
  if ts = [.streamEnd] then .ok missing
  else do
    let (node, rest) ← readDocument ts
    match rest.dropWhile (· = .documentEnd) with
    | [.streamEnd] => pure node
    | rest => throw (faultAt (rest.dropWhile (· = .directive)))

/-- How many characters are looked at before the one at an index that is not allowed: the first stretch
is twice as long as all others, and a stretch with such a character is refused as a whole. -/
def readableBefore (index : Nat) : Nat :=
  if index < 2 * stretchLength then 0 else index / stretchLength * stretchLength

/-- The node of a stream of characters. A character that is not allowed makes the stream malformed, unless
a failure shows in what is looked at before. -/
def ofChars (cs : List Char) : Except Fault Node :=
  let cs := unifyLines cs
  match cs.findIdx? fun c => !isAllowed c with
  | none => ofTokens (tokens cs)
  | some index =>
    match ofTokens (tokens (cs.take (readableBefore index))) with
    | .error (.failure cause) => .error (.failure cause)
    | _ => .error .malformed

/-- Whether a scalar is the key that, where it stands, stands for itself. -/
def isOwnKey : Node → Bool
  | .plain text => form text = .own
  | _ => false

/-- What comes of a part of a document, or a fault and how deep in the document it lies. -/
abbrev Placed (A : Type) : Type := Except (Nat × Fault) A

/-- Two parts together. Of two faults the one that lies less deep counts, and the first of equally deep
ones. -/
def both {A B : Type} (a : Placed A) (b : Placed B) : Placed (A × B) :=
  match a, b with
  | .ok a, .ok b => .ok (a, b)
  | .error e, .ok _ => .error e
  | .ok _, .error e => .error e
  | .error e, .error e' => .error (if e'.1 < e.1 then e' else e)

/-- The value of a key, which has to be a scalar. -/
def keyValue (depth : Nat) (key : Node) : Placed Value :=
  match key with
  | .plain text =>
    if key.isOwnKey then .ok (.text "=") else (resolve text).mapError (depth, ·)
  | .quoted text => .ok (.ofCodes text)
  | .sequence _ | .mapping _ => .error (depth, .malformed)

mutual

/-- The value of a node at a depth. Of entries with equal keys the last one counts. -/
def valueAt (depth : Nat) : Node → Placed Value
  | .plain text => (resolve text).mapError (depth, ·)
  | .quoted text => .ok (.ofCodes text)
  | .sequence items => do pure (.list (← valuesAt (depth + 1) items))
  | .mapping entries => do
    let pairs ← entriesAt (depth + 1) entries
    pure (.mapping (pairs.foldl (fun known pair => Value.insertEntry pair.1 pair.2 known) []))

def valuesAt (depth : Nat) : List Node → Placed (List Value)
  | [] => .ok []
  | node :: nodes => do
    let (v, vs) ← both (node.valueAt depth) (valuesAt depth nodes)
    pure (v :: vs)

def entriesAt (depth : Nat) : List (Node × Node) → Placed (List (Value × Value))
  | [] => .ok []
  | (key, node) :: entries => do
    let (pair, pairs) ←
      both (both (key.keyValue depth) (node.valueAt depth)) (entriesAt depth entries)
    pure (pair :: pairs)

end

def value (node : Node) : Except Fault Value := (node.valueAt 0).mapError Prod.snd

end Node

/-- The value of a text in the subset of YAML that is read: what lies outside of it is malformed here, a date stays its
text, and collections may be nested without bound. -/
def read (text : String) : Except Fault Value := do
  let node ← Node.ofChars text.toList
  node.value

end ClauseFeatures.Yaml
