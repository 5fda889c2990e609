import ClauseFeatures.Value.Basic

/-!
The order of dynamic values. Numbers are ordered by value, texts by their code points, lists by the
first items that differ; all other pairs of values have no order, and asking for it is a failure.
-/
namespace ClauseFeatures.Value

/-- Two lists of code points, the first difference deciding. -/
def compareCodes : List Text.Code → List Text.Code → Ordering
  | [], [] => .eq
  | [], _ :: _ => .lt
  | _ :: _, [] => .gt
  | a :: as, b :: bs => if a = b then compareCodes as bs else compare a.toNat b.toNat

/-- Whether the first text is below the second, or is also allowed to be equal to it. -/
def textBelow (orEqual : Bool) (as bs : List Text.Code) : Bool :=
  let order := compareCodes as bs
  order == .lt || (orEqual && order == .eq)

mutual

/-- Whether the first value is below the second, or is also allowed to be equal to it. -/
def isBelow (orEqual : Bool) : Value → Value → Except Failure Bool
  | number a, number b => .ok (if orEqual then a.le b else a.lt b)
  | list as, list bs => itemsBelow orEqual as bs
  | v, w =>
    match v.codes?, w.codes? with
    | some as, some bs => .ok (textBelow orEqual as bs)
    | _, _ => .error .wrongType

/-- The order of two lists: that of the first items that are not equal, else that of the lengths. -/
def itemsBelow (orEqual : Bool) : List Value → List Value → Except Failure Bool
  | [], [] => .ok orEqual
  | [], _ :: _ => .ok true
  | _ :: _, [] => .ok false
  | a :: as, b :: bs => if a.equal b then itemsBelow orEqual as bs else isBelow orEqual a b

end

def lt (a b : Value) : Except Failure Bool := isBelow false a b

def le (a b : Value) : Except Failure Bool := isBelow true a b

/-- Inserts a value into a sorted list, before the first one that is not below it. -/
def insertSorted (v : Value) : List Value → Except Failure (List Value)
  | [] => .ok [v]
  | w :: ws => do
    if ← lt w v then
      let rest ← insertSorted v ws
      pure (w :: rest)
    else pure (v :: w :: ws)

/-- The values in ascending order; a failure if two of them have no order. -/
def sorted : List Value → Except Failure (List Value)
  | [] => .ok []
  | v :: vs => do
    let rest ← sorted vs
    insertSorted v rest

end ClauseFeatures.Value
