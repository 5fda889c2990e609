import ClauseFeatures.Literal.Candidate
import ClauseFeatures.Value.Same

/-!
Watch entries and watch lists.

Each literal has a list of entries. A binary or ternary clause lies in the lists of all its literals,
written out as its other literals; a long clause lies in the lists of its two watched literals as an
offset into the clause store. A marker is an entry for bookkeeping and stands for no clause.
-/
namespace ClauseFeatures

/-- What an entry in the list of a literal says. -/
inductive Watch.Body
  /-- The clause of the list's literal and `other`. -/
  | binary (other : Literal) (red : Bool)
  /-- The clause of the list's literal and two others in ascending order. -/
  | ternary (second third : Literal) (red : Bool)
  /-- The clause at an offset of the store. -/
  | long (offset : Value)
  /-- A bookkeeping marker. -/
  | marker (index : Value)
  /-- An entry of a kind that is none of these. -/
  | unknown (kind : Value)
deriving DecidableEq

/-- An entry written out in columns, as callers give it. Which columns matter depends on the kind; an
offset or an index that is not given is null. -/
structure Watch.Columns where
  second : Option Literal.Candidate := none
  third : Option Literal.Candidate := none
  red : Value := .truth false
  offset : Value := .null
  index : Value := .null
deriving DecidableEq

/-- A watch entry: what it says, and all its columns as they were given. -/
structure Watch where
  body : Watch.Body
  columns : Watch.Columns
deriving DecidableEq

namespace Watch

/-- Refuses columns that lack what a kind of entry needs. The literals of a ternary clause must ascend.
Nothing is asked of a kind that is unknown. -/
def Columns.check (c : Columns) (kind : Value) : Except Failure Unit :=
  match kind with
  | .text "binary" => if c.second.isSome then .ok () else .error .binaryIncomplete
  | .text "ternary" =>
    match c.second, c.third with
    | some second, some third => do
      if !second.lt third then throw (.ternaryUnordered (← second.text) (← third.text))
    | _, _ => .error .ternaryIncomplete
  | .text "clause" => if c.offset = .null then .error .longWithoutOffset else .ok ()
  | .text "idx" => if c.index = .null then .error .markerWithoutIndex else .ok ()
  | _ => .ok ()

/-- What columns that were checked say. -/
def Columns.body (c : Columns) (kind : Value) : Except Failure Body :=
  match kind, c.second, c.third with
  | .text "binary", some other, _ => do pure (.binary (← other.literal) c.red.isTrue)
  | .text "ternary", some second, some third => do
    pure (.ternary (← second.literal) (← third.literal) c.red.isTrue)
  | .text "clause", _, _ => .ok (.long c.offset)
  | .text "idx", _, _ => .ok (.marker c.index)
  | _, _, _ => .ok (.unknown kind)

/-- The entry of a named kind with given columns. -/
def ofColumns (kind : Value) (c : Columns) : Except Failure Watch := do
  c.check kind
  pure ⟨← c.body kind, c⟩

/-- The entry of a binary clause in the list of one literal, naming the other one. -/
def binary (other : Literal) (red : Bool) : Watch :=
  ⟨.binary other red, { second := some (.ofLiteral other), red := .truth red }⟩

/-- The entry of a ternary clause in the list of one literal, naming the two others, which have to
ascend. -/
def ternary (second third : Literal) (red : Bool) : Except Failure Watch :=
  if second < third then
    .ok ⟨.ternary second third red,
      { second := some (.ofLiteral second), third := some (.ofLiteral third), red := .truth red }⟩
  else do throw (.ternaryUnordered (← second.text) (← third.text))

def long (offset : Nat) : Watch := ⟨.long (.int offset), { offset := .int offset }⟩

/-- The entry of a marker, which has to have an index. -/
def marker (index : Value) : Except Failure Watch :=
  if index = .null then .error .markerWithoutIndex else .ok ⟨.marker index, { index }⟩

def kind (w : Watch) : Value :=
  match w.body with
  | .binary _ _ => .text "binary"
  | .ternary _ _ _ => .text "ternary"
  | .long _ => .text "clause"
  | .marker _ => .text "idx"
  | .unknown kind => kind

end Watch

/-- One list of entries for each literal, by the literal's code. -/
structure WatchLists where
  lists : Array (List Watch)

namespace WatchLists

/-- Adds empty lists up to a number of lists; never shrinks. -/
def extend (ws : WatchLists) (size : Nat) : WatchLists :=
  ⟨ws.lists ++ Array.replicate (size - ws.lists.size) []⟩

def resize (ws : WatchLists) (vars : Nat) : WatchLists := ws.extend (2 * vars)

def ofVars (vars : Nat) : WatchLists := ⟨Array.replicate (2 * vars) []⟩

def size (ws : WatchLists) : Nat := ws.lists.size

def get (ws : WatchLists) (l : Literal) : Except Failure (List Watch) :=
  match ws.lists[l.code]? with
  | some entries => .ok entries
  | none => .error .outsideList

/-- Puts an entry at the end of the list of a literal. -/
def attach (ws : WatchLists) (l : Literal) (w : Watch) : Except Failure WatchLists :=
  if l.code < ws.lists.size then .ok ⟨ws.lists.modify l.code (· ++ [w])⟩
  else .error .outsideList

def totalEntries (ws : WatchLists) : Nat := ws.lists.toList.flatten.length

end WatchLists

end ClauseFeatures
