import ClauseFeatures.Number
import ClauseFeatures.Text.Quoted

/-!
Dynamic values: what configuration files, metrics and unchecked arguments are made of.

A mapping keeps its entries in the order in which they were given. Equality is by value across the sorts
of number, so `1`, `1.0` and the truth value true are equal, and a NaN differs from itself. Text with
surrogates among its code points is kept apart from text proper, which has characters only.
-/
namespace ClauseFeatures

inductive Value
  | null
  | number (n : Number)
  | text (s : String)
  | rawText (cs : List Text.Code)
  | list (items : List Value)
  | mapping (entries : List (Value × Value))

namespace Value

instance : Inhabited Value := ⟨.null⟩

abbrev int (n : Int) : Value := .number (.int n)

abbrev real (x : Float) : Value := .number (.real x)

abbrev truth (b : Bool) : Value := .number (.truth b)

/-- The name of a value's type in messages. -/
def typeName : Value → String
  | null => "NoneType"
  | number (.truth _) => "bool"
  | number (.int _) => "int"
  | number (.real _) => "float"
  | text _ | rawText _ => "str"
  | list _ => "list"
  | mapping _ => "dict"

def ofCodes (cs : List Text.Code) : Value :=
  match cs.mapM Text.Code.char? with
  | some chars => .text (String.ofList chars)
  | none => .rawText cs

def codes? : Value → Option (List Text.Code)
  | text s => some (Text.Code.ofString s)
  | rawText cs => some cs
  | _ => none

def number? : Value → Option Number
  | number n => some n
  | _ => none

mutual

/-- Of equal value. Two mappings are equal if they have equally many entries and each entry of the first
is one of the second. -/
def equal : Value → Value → Bool
  | null, null => true
  | number a, number b => a.equal b
  | text a, text b => a == b
  | rawText a, rawText b => a == b
  | list as, list bs => equalItems as bs
  | mapping as, mapping bs => as.length == bs.length && entriesWithin as bs
  | _, _ => false

def equalItems : List Value → List Value → Bool
  | [], [] => true
  | a :: as, b :: bs => a.equal b && equalItems as bs
  | _, _ => false

/-- Whether every entry of the first list has an equal one in the second. -/
def entriesWithin : List (Value × Value) → List (Value × Value) → Bool
  | [], _ => true
  | (key, value) :: rest, others =>
    others.any (fun other => key.equal other.1 && value.equal other.2) && entriesWithin rest others

end

mutual

/-- The text of a value inside a list or mapping, and wherever a message quotes it. -/
def shown : Value → String
  | null => "None"
  | number n => n.text
  | text s => Text.quoted s
  | rawText cs => String.ofList (Text.quotedCodes cs)
  | list items => "[" ++ ", ".intercalate (shownItems items) ++ "]"
  | mapping entries => "\x7b" ++ ", ".intercalate (shownEntries entries) ++ "\x7d"

def shownItems : List Value → List String
  | [] => []
  | item :: items => item.shown :: shownItems items

def shownEntries : List (Value × Value) → List String
  | [] => []
  | (key, value) :: entries => (key.shown ++ ": " ++ value.shown) :: shownEntries entries

end

/-- The text of a value on its own; only here a text stands for itself. -/
def plain : Value → String
  | text s => s
  | rawText cs => String.ofList (cs.map Text.Code.toChar)
  | v => v.shown

mutual

/-- Why a value has no text, if it has none: an integer in it has too many digits, or a part of it is inside more
collections than `levels`, where these are bounded. The first such part counts. -/
def untold? (levels : Option Nat) : Value → Option Failure
  | number n => if n.isTooLong then some .integerTooLong else none
  | list items => untoldItem? levels items
  | mapping entries => untoldPair? levels entries
  | _ => none

def untoldItem? (levels : Option Nat) : List Value → Option Failure
  | [] => none
  | item :: items =>
    if levels = some 0 then some .tooDeep
    else (untold? (levels.map Nat.pred) item).or (untoldItem? levels items)

def untoldPair? (levels : Option Nat) : List (Value × Value) → Option Failure
  | [] => none
  | (key, value) :: entries =>
    if levels = some 0 then some .tooDeep
    else ((untold? (levels.map Nat.pred) key).or (untold? (levels.map Nat.pred) value)).or
      (untoldPair? levels entries)

end

/-- A text made of a value, unless the value has none. -/
def checked (levels : Option Nat) (v : Value) (text : String) : Except Failure String :=
  match v.untold? levels with
  | some e => .error e
  | none => .ok text

/-- The text of a value on its own. -/
def told (v : Value) : Except Failure String := v.checked none v.plain

/-- The text of a value that a message quotes. -/
def quoted (v : Value) : Except Failure String := v.checked none v.shown

def lookup (key : String) (entries : List (Value × Value)) : Option Value :=
  (entries.find? fun entry => entry.1.equal (.text key)).map Prod.snd

/-- Whether two values are the same key; all NaNs are. -/
def isSameKey (a b : Value) : Bool :=
  a.equal b || (a.number?.any Number.isNaN && b.number?.any Number.isNaN)

/-- Puts an entry into a mapping. A key that is already there keeps its place and gets the new value. -/
def insertEntry (key value : Value) : List (Value × Value) → List (Value × Value)
  | [] => [(key, value)]
  | entry :: rest =>
    if entry.1.isSameKey key then (entry.1, value) :: rest else entry :: insertEntry key value rest

/-- Whether a value counts as true: all do but null, zero and what is empty. -/
def isTrue : Value → Bool
  | null => false
  | number n => !n.equal 0
  | text s => !s.isEmpty
  | rawText cs => !cs.isEmpty
  | list items => !items.isEmpty
  | mapping entries => !entries.isEmpty

/-- Whether a value can be a key or a member of a set. -/
def isKey : Value → Bool
  | list _ | mapping _ => false
  | _ => true

end Value

end ClauseFeatures
