import ClauseFeatures.Arithmetic
import ClauseFeatures.Value.Array
import ClauseFeatures.Value.Order

/-!
Dynamic values in the place of numbers.

A computation may be given anything where it asks for a number. It goes on as long as only what every
value has is asked for (equality, text, an order among values of one sort) and fails with `wrongType` at
the first operation that only numbers have. What it never looks at never fails.
-/
namespace ClauseFeatures.Value

def onNumber (f : Number → Except Failure Number) : Value → Except Failure Value
  | number a => (f a).map number
  | _ => .error .wrongType

def onNumbers (f : Number → Number → Except Failure Number) : Value → Value → Except Failure Value
  | number a, number b => (f a b).map number
  | _, _ => .error .wrongType

instance : Quantity Value where
  ofInt := int
  one := real 1
  lt := lt
  isZero v := v.equal (int 0)
  isNaN v := v.number?.any Number.isNaN
  text := told

instance : Arithmetic Value Float where
  zero := real 0
  half := real 0.5
  two := real 2
  top := real (Double.infinity false)
  bottom := real (Double.infinity true)
  add := onNumbers Number.add
  sub := onNumbers Number.sub
  mul := onNumbers Number.mul
  div := onNumbers Number.div
  square := onNumber Number.square
  sqrt := onNumber Number.sqrt
  toElement := toDouble
  toArray vs := (list vs).doubles
  ofElement := real

end ClauseFeatures.Value
