import ClauseFeatures.Statistic

/-!
The ratios that describe clauses and variables.

The polarity of a clause (or variable) with `pos` positive occurrences among `size` is
`1/2 + (2 * pos - size) / (2 * size)`: `0` if all are negative, `1/2` if they balance, `1` if all are
positive. It is computed for single numbers, for array elements, and for arguments of either form.
-/
namespace ClauseFeatures.Ratio

variable {K E : Type} [Element E] [Arithmetic K E]

def polarity (pos size : K) : Except Failure K := do
  let twicePos ← Arithmetic.mul Arithmetic.two pos
  let balance ← Arithmetic.sub twicePos size
  let twiceSize ← Arithmetic.mul Arithmetic.two size
  let quotient ← Arithmetic.div balance twiceSize
  Arithmetic.add Arithmetic.half quotient

def elementPolarity (pos size : E) : E :=
  Element.half + (Element.two * pos - size) / (Element.two * size)

/-- An argument that is a single number or an array. -/
inductive Operand (K E : Type)
  | single (x : K)
  | array (xs : List E)

/-- The elements of an argument; a single number counts as an array of one. -/
def Operand.elements : Operand K E → Except Failure (List E)
  | single x => do pure [← Arithmetic.toElement x]
  | array xs => .ok xs

/-- Combines two arrays element by element. An array of one element is repeated as often as the other
one needs; else the lengths have to agree. -/
def broadcast {A B C : Type} (f : A → B → C) (as : List A) (bs : List B) : Except Failure (List C) :=
  match as, bs with
  | [a], bs => .ok (bs.map (f a))
  | as, [b] => .ok (as.map (f · b))
  | as, bs =>
    if as.length = bs.length then .ok (as.zipWith f bs)
    else .error (.shapeMismatch as.length bs.length)

/-- The polarity of arguments of either form: an array if one of them is an array. -/
def operandPolarity : Operand K E → Operand K E → Except Failure (Operand K E)
  | .single pos, .single size => do pure (.single (← polarity pos size))
  | pos, size => do
    let pos ← pos.elements
    let size ← size.elements
    pure (.array (← broadcast elementPolarity pos size))

/-- The standard deviation divided by the mean: the root of `squares / population`, over `mean`. It is
zero unless the sum of squares and the mean are both above `eps` and there is a population; each of these
is only asked if the one before holds. -/
def relativeDeviation (squares population mean eps : K) : Except Failure K := do
  let counts ← bothHold (Quantity.lt eps squares)
    (bothHold (Quantity.lt eps mean) (Quantity.lt (Quantity.ofInt 0) population))
  if counts then
    let variance ← Arithmetic.div squares population
    let deviation ← Arithmetic.sqrt variance
    Arithmetic.div deviation mean
  else pure Arithmetic.zero

end ClauseFeatures.Ratio
