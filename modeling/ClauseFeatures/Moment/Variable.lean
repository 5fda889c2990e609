import ClauseFeatures.Ratio
import ClauseFeatures.Occurrence

/-!
First and second moments over the active variables.

The ratios of a variable are its occurrences over the number of clauses, its polarity, and its
occurrences in Horn clauses over the number of clauses. They are computed as arrays over the variables
that occur at all.
-/
namespace ClauseFeatures

variable {K E : Type} [Element E] [Arithmetic K E]

structure VariableMoments (K : Type) where
  /-- Occurrences over the number of clauses. -/
  density : Summary K
  /-- Polarity of the occurrences. -/
  polarity : Summary K
  /-- Occurrences in Horn clauses over the number of clauses. -/
  horn : Summary K
deriving DecidableEq

/-- The ratios of the active variables, one array for each ratio. -/
structure VariableRatios (E : Type) where
  density : List E
  polarity : List E
  horn : List E

namespace VariableRatios

/-- The members of a list whose flag is set. The lists have to be equally long, but no flags at all
select nothing from any list. -/
def select {A : Type} (flags : List Bool) (items : List A) : Except Failure (List A) :=
  if flags.isEmpty || flags.length = items.length then
    .ok ((flags.zip items).filterMap fun (flag, item) => if flag then some item else none)
  else .error .outsideList

/-- The counts of active variables as array elements. -/
def selected (flags : List Bool) (counts : List Int) : Except Failure (List E) := do
  let chosen ← select flags counts
  chosen.mapM fun n => Arithmetic.toElement (Quantity.ofInt n : K)

def ofOccurrences (occ : Occurrences) (clauses : K) : Except Failure (VariableRatios E) := do
  let size : List E ← selected (K := K) occ.active occ.size
  let pos : List E ← selected (K := K) occ.active occ.pos
  let horn : List E ← selected (K := K) occ.active occ.horn
  let count : E ← Arithmetic.toElement clauses
  pure {
    density := size.map (· / count)
    polarity := pos.zipWith Ratio.elementPolarity size
    horn := horn.map (· / count) }

end VariableRatios

namespace VariableMoments

/-- The features of a database without clauses or without active variables. -/
def zero : VariableMoments K := ⟨.zero, .zero, .zero⟩

/-- Extremes and mean of an array of ratios over a number of variables. -/
def summaryOf (ratios : List E) (vars : K) : Except Failure (Summary K) := do
  let (stat, added) := (RunningStat.empty : RunningStat K).addArray ratios
  added
  stat.summary vars

/-- Extremes and means of the three ratios. -/
def first (occ : Occurrences) (vars clauses : K) : Except Failure (VariableMoments K) :=
  if Quantity.isZero vars || Quantity.isZero clauses then .ok zero
  else do
    let ratios ← VariableRatios.ofOccurrences occ clauses
    let density ← summaryOf ratios.density vars
    let polarity ← summaryOf ratios.polarity vars
    let horn ← summaryOf ratios.horn vars
    pure { density, polarity, horn }

def sumOfSquares (mean : E) (ratios : List E) : E :=
  arraySum (ratios.map fun x => (mean - x) * (mean - x))

def withDeviation (s : Summary K) (ratios : List E) (vars eps : K) :
    Except Failure (Summary K) := do
  let mean ← Arithmetic.toElement s.mean
  let squares : K := Arithmetic.ofElement (sumOfSquares mean ratios)
  let std ← Ratio.relativeDeviation squares vars s.mean eps
  pure { s with std }

/-- Fills in the relative deviations. -/
def second (occ : Occurrences) (m : VariableMoments K) (vars clauses eps : K) :
    Except Failure (VariableMoments K) :=
  if Quantity.isZero vars || Quantity.isZero clauses then .ok m
  else do
    let ratios ← VariableRatios.ofOccurrences occ clauses
    let density ← withDeviation m.density ratios.density vars eps
    let polarity ← withDeviation m.polarity ratios.polarity vars eps
    let horn ← withDeviation m.horn ratios.horn vars eps
    pure { density, polarity, horn }

end VariableMoments

end ClauseFeatures
