import ClauseFeatures.Check
import ClauseFeatures.Clause
import ClauseFeatures.Summation

/-!
Mean and variance of size, glue and activity over a population of stored clauses.

Activities are divided by the current increment: the increment grows with time, so activities from
different moments are only comparable in its units.
-/
namespace ClauseFeatures

variable {K E : Type} [Element E] [Arithmetic K E]

/-- Mean and variance of three measures of a clause population. -/
structure Distribution (K : Type) where
  sizeMean : K
  sizeVar : K
  glueMean : K
  glueVar : K
  activityMean : K
  activityVar : K
deriving DecidableEq

namespace Distribution

def zero : Distribution K :=
  ⟨Arithmetic.zero, Arithmetic.zero, Arithmetic.zero, Arithmetic.zero, Arithmetic.zero,
    Arithmetic.zero⟩

def mean (xs : List E) : E := arraySum xs / Element.ofNat xs.length

/-- Population mean and variance of an array with a first element. If the least and the greatest element
agree, the mean is the first element and the variance zero, without rounding. -/
def meanVar (x : E) (xs : List E) : E × E :=
  let low := arrayMin x xs
  let high := arrayMax x xs
  if Element.isNaN low || Element.lt low high then
    let all := x :: xs
    let m := mean all
    (m, arraySum (all.map fun y => (m - y) * (m - y)) / Element.ofNat all.length)
  else (x, Element.zero)

/-- Mean and variance of an array as single numbers; zero for an array without elements. -/
def measure : List E → K × K
  | [] => (Arithmetic.zero, Arithmetic.zero)
  | x :: xs =>
    let (m, v) := meanVar x xs
    (Arithmetic.ofElement m, Arithmetic.ofElement v)

def ofBodies (bodies : List (Clause K)) (increment : K) : Except Failure (Distribution K) := do
  let sizes : List E := bodies.map fun c => Element.ofNat c.size
  let glues ← Arithmetic.toArray (bodies.map Clause.glue)
  let activities ← Arithmetic.toArray (bodies.map Clause.activity)
  let unit ← Arithmetic.toElement increment
  let size : K × K := measure sizes
  let glue : K × K := measure glues
  let activity : K × K := measure (activities.map (· / unit))
  pure {
    sizeMean := size.1
    sizeVar := size.2
    glueMean := glue.1
    glueVar := glue.2
    activityMean := activity.1
    activityVar := activity.2 }

/-- The distribution of the clauses at some offsets of a store; all zero if there are none. The offsets
are looked up in order. -/
def ofOffsets (store : ClauseStore K) (offsets : List Value) (increment : K) :
    Except Failure (Distribution K) := do
  Check.positive increment "cla_inc"
  if offsets.isEmpty then pure zero
  else
    let bodies ← offsets.mapM store.get
    ofBodies bodies increment

end Distribution

end ClauseFeatures
