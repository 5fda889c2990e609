import ClauseFeatures.Arithmetic
import ClauseFeatures.Literal
import ClauseFeatures.Value.Order

/-!
The checks at the boundary of the library. Each check either lets its argument pass or fails with the
reason; what passed is trusted further in. A number is refused only if a comparison speaks against it,
so a NaN passes wherever the comparison is asked the other way round.
-/
namespace ClauseFeatures.Check

variable {K E : Type}

def positive [Quantity K] (x : K) (name : String) : Except Failure Unit := do
  let isNegative ← Quantity.lt x (Quantity.ofInt 0)
  if isNegative || Quantity.isZero x then throw (.notPositive name (← Quantity.text x))

def nonNegative [Quantity K] (x : K) (name : String) : Except Failure Unit := do
  let isNegative ← Quantity.lt x (Quantity.ofInt 0)
  if isNegative then throw (.negative name (← Quantity.text x))

/-- The integer from zero on that a value is; truth values are no integers here. -/
def countOf? : Value → Option Nat
  | .number (.int n) => if 0 ≤ n then some n.toNat else none
  | _ => none

/-- Refuses what is no integer from zero on. -/
def count (v : Value) (name : String) : Except Failure Nat :=
  match countOf? v with
  | some n => .ok n
  | none => do throw (.notCount name (← v.quoted))

def inRange (v low high : Value) (name : String) : Except Failure Unit := do
  let inside ← bothHold (low.le v) (v.le high)
  if inside then pure () else throw (.outOfRange name (← low.told) (← high.told) (← v.told))

/-- Refuses a literal whose variable does not exist. -/
def existing (l : Literal) (vars : Nat) (name : String) : Except Failure Unit :=
  if l.var < vars then .ok ()
  else do throw (.unknownVariable name (← Failure.integerText l.var) (← Failure.integerText vars))

/-- Refuses a variable number that does not exist, both numbers given as values. -/
def existingNumber (var vars : Value) (name : String) : Except Failure Unit := do
  let inside ← bothHold (Value.le (.int 0) var) (var.lt vars)
  if inside then pure () else throw (.unknownVariable name (← var.told) (← vars.told))

def distinct {α : Type} [DecidableEq α] (items : List α) (name : String) : Except Failure Unit :=
  if items.Nodup then .ok () else .error (.duplicates name)

def allDifferent : List Value → Bool
  | [] => true
  | v :: vs => !vs.any v.equal && allDifferent vs

/-- Refuses a sequence with a repeated item, given as a value: a list, a text (a sequence of characters)
or a mapping (a sequence of keys). Only items that can be keys can be compared. -/
def distinctItems (v : Value) (name : String) : Except Failure Unit := do
  let items ←
    match v with
    | .list items => pure items
    | .mapping entries => pure (entries.map Prod.fst)
    | _ =>
      match v.codes? with
      | some cs => pure (cs.map fun c => .ofCodes [c])
      | none => throw .wrongType
  if !items.all Value.isKey then throw .wrongType
  if allDifferent items then pure () else throw (.duplicates name)

/-- Refuses array elements among which one is no number or, failing that, infinite; says how many. -/
def finite [Element E] (xs : List E) (name : String) : Except Failure Unit :=
  let nans := xs.countP Element.isNaN
  let infinities := xs.countP Element.isInfinite
  if 0 < nans then .error (.nanValues name nans)
  else if 0 < infinities then .error (.infiniteValues name infinities)
  else .ok ()

end ClauseFeatures.Check
