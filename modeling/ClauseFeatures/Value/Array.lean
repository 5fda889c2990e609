import ClauseFeatures.Text.Numeral
import ClauseFeatures.Value.Basic

/-!
Arrays of doubles made from values.

A list of values becomes an array; nested lists may stand in it if they are regular, that is if lists side
by side always have the same shape. What is missing is held as a NaN, and text is read as a decimal number.
-/
namespace ClauseFeatures.Value

/-- The double that a value counts as beside an array of doubles. -/
def toDouble : Value → Except Failure Float
  | number n => n.toDouble
  | _ => .error .wrongType

/-- A failure to read a text as a double, in the words of an array. -/
def asArrayText (e : Failure) : Failure :=
  match e with
  | .notDecimal quoted => .notDecimal s!"np.str_({quoted})"
  | _ => e

/-- The double that an array of doubles holds for a value. What is missing is held as a NaN, and text is
read as a decimal number. -/
def toMember (v : Value) : Except Failure Float :=
  match v with
  | null => .ok Double.nan
  | _ =>
    match v.codes? with
    | some cs => (Text.readDecimal cs).mapError asArrayText
    | none => v.toDouble

def commonStart : List Nat → List Nat → List Nat
  | m :: ms, n :: ns => if m = n then m :: commonStart ms ns else []
  | _, _ => []

mutual

/-- The lengths of nested lists level by level, as far as all lists of a level agree. -/
def shape : Value → List Nat
  | list items => items.length :: commonShape items
  | _ => []

def commonShape : List Value → List Nat
  | [] => []
  | [item] => item.shape
  | item :: items => commonStart item.shape (commonShape items)

end

mutual

/-- Whether nested lists have the same shape wherever they stand side by side. -/
def isRegular : Value → Bool
  | list items => areRegular (commonShape items) items
  | _ => true

/-- Whether all items are regular and have a given shape. -/
def areRegular (expected : List Nat) : List Value → Bool
  | [] => true
  | item :: items => item.shape == expected && item.isRegular && areRegular expected items

end

mutual

/-- The doubles in nested lists, or in a single value, one after the other. -/
def leaves : Value → Except Failure (List Float)
  | list items => leavesOf items
  | v => do pure [← v.toMember]

def leavesOf : List Value → Except Failure (List Float)
  | [] => .ok []
  | item :: items => do
    let first ← item.leaves
    let rest ← leavesOf items
    pure (first ++ rest)

end

/-- The array of doubles made from a value, nested lists flattened; they have to be regular. -/
def doubles (v : Value) : Except Failure (List Float) :=
  if v.isRegular then v.leaves else .error (.ragged v.shape)

end ClauseFeatures.Value
