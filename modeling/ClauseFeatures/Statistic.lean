import ClauseFeatures.Summation

/-!
Running statistics of a stream of ratios, and the summary that is drawn from them.
-/
namespace ClauseFeatures

variable {K E : Type} [Element E] [Arithmetic K E]

/-- The summary of one ratio over a population. `std` is the standard deviation divided by the mean. An
empty population leaves every field at zero. -/
structure Summary (K : Type) where
  min : K
  max : K
  spread : K
  mean : K
  std : K
deriving DecidableEq

def Summary.zero : Summary K :=
  ⟨Arithmetic.zero, Arithmetic.zero, Arithmetic.zero, Arithmetic.zero, Arithmetic.zero⟩

/-- The running extremes, sum and number of a stream. An extreme is missing until a number has set it. -/
structure RunningStat (K : Type) where
  min : Option K
  max : Option K
  total : K
  count : Nat
deriving DecidableEq

namespace RunningStat

def empty : RunningStat K := ⟨none, none, Arithmetic.zero, 0⟩

/-- Replaces an extreme by a better number. A missing extreme is replaced by any number that compares;
what cannot even be compared with zero is refused. -/
def improve (better : K → K → Except Failure Bool) (extreme : Option K) (x : K) :
    Except Failure (Option K) := do
  let isBetter ← better x (extreme.getD Arithmetic.zero)
  match extreme with
  | none => pure (if Quantity.isNaN x then none else some x)
  | some e => pure (some (if isBetter then x else e))

/-- The statistic with a new least and greatest number taken into the extremes. -/
def extend (s : RunningStat K) (low high : K) : Except Failure (RunningStat K) := do
  let min ← improve Quantity.lt s.min low
  let max ← improve (fun a b => Quantity.lt b a) s.max high
  pure { s with min, max }

/-- Adds `count` numbers with the given extremes and sum. If only the sum fails, the extremes are kept. -/
def merge (s : RunningStat K) (low high sum : K) (count : Nat) :
    RunningStat K × Except Failure Unit :=
  match s.extend low high with
  | .error e => (s, .error e)
  | .ok extended =>
    match Arithmetic.add s.total sum with
    | .ok total => ({ extended with total, count := s.count + count }, .ok ())
    | .error e => (extended, .error e)

def add (s : RunningStat K) (x : K) : RunningStat K × Except Failure Unit := s.merge x x x 1

def addArray (s : RunningStat K) : List E → RunningStat K × Except Failure Unit
  | [] => (s, .ok ())
  | x :: xs =>
    s.merge (Arithmetic.ofElement (arrayMin x xs)) (Arithmetic.ofElement (arrayMax x xs))
      (Arithmetic.ofElement (arraySum (x :: xs))) (xs.length + 1)

def least (s : RunningStat K) : K := s.min.getD Arithmetic.top

def greatest (s : RunningStat K) : K := s.max.getD Arithmetic.bottom

/-- The sum divided by a population; zero unless both are positive. The population is not looked at
unless the sum is. -/
def meanOver (s : RunningStat K) (population : K) : Except Failure K := do
  let counts ← bothHold (Quantity.lt (Quantity.ofInt 0) s.total)
    (Quantity.lt (Quantity.ofInt 0) population)
  if counts then Arithmetic.div s.total population else pure Arithmetic.zero

/-- The summary over a population, with the standard deviation still at zero. -/
def summary (s : RunningStat K) (population : K) : Except Failure (Summary K) :=
  if s.count = 0 then .ok .zero
  else do
    let spread ← Arithmetic.sub s.greatest s.least
    let mean ← s.meanOver population
    pure { min := s.least, max := s.greatest, spread, mean, std := Arithmetic.zero }

end RunningStat

end ClauseFeatures
