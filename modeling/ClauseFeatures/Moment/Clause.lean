import ClauseFeatures.Ratio
import ClauseFeatures.Traversal

/-!
First and second moments over the irredundant clauses.

The first pass gives the fractions of clause kinds and the extremes and mean of two ratios: the size of
a clause over the number of variables, and its polarity. The second pass needs the means and fills in
the relative deviations.
-/
namespace ClauseFeatures

variable {K E : Type} [Element E] [Arithmetic K E]

structure ClauseMoments (K : Type) where
  /-- The fraction of binary clauses. -/
  binary : K
  /-- The fraction of ternary clauses. -/
  ternary : K
  /-- The fraction of clauses with at most one positive literal. -/
  horn : K
  /-- Clause size over the number of variables. -/
  density : Summary K
  /-- Clause polarity. -/
  polarity : Summary K
deriving DecidableEq

namespace ClauseMoments

def zero : ClauseMoments K :=
  ⟨Arithmetic.zero, Arithmetic.zero, Arithmetic.zero, .zero, .zero⟩

def densityOf (v : ClauseView) (vars : K) : Except Failure K :=
  Arithmetic.div (Quantity.ofInt v.size) vars

def polarityOf (v : ClauseView) : Except Failure K :=
  Ratio.polarity (Quantity.ofInt v.pos) (Quantity.ofInt v.size)

/-- Adds the ratios of a clause to the two running statistics. Without variables, or for a clause without
literals, there are no ratios. -/
def addRatios (vars : K) (stats : RunningStat K × RunningStat K) (v : ClauseView) :
    Except Failure (RunningStat K × RunningStat K) :=
  if v.size = 0 || Quantity.isZero vars then .ok stats
  else do
    let (density, added) := stats.1.add (← densityOf v vars)
    added
    let (polarity, added) := stats.2.add (← polarityOf v)
    added
    pure (density, polarity)

/-- Extremes, means and fractions from the number of active variables, of clauses and of Horn clauses. -/
def first (db : Database K) (vars clauses horn : K) : Except Failure (ClauseMoments K) :=
  if Quantity.isZero clauses then .ok zero
  else do
    let stats ← db.traversal.fold (addRatios vars) (.empty, .empty)
    let binary ← Arithmetic.div (Quantity.ofInt db.inline.irredBinary) clauses
    let ternary ← Arithmetic.div (Quantity.ofInt db.inline.irredTernary) clauses
    let horn ← Arithmetic.div horn clauses
    let density ← stats.1.summary clauses
    let polarity ← stats.2.summary clauses
    pure { binary, ternary, horn, density, polarity }

/-- Adds the square of the difference between a mean and a number to a sum. -/
def addSquare (mean sum x : K) : Except Failure K := do
  let difference ← Arithmetic.sub mean x
  let square ← Arithmetic.square difference
  Arithmetic.add sum square

def addDeviations (m : ClauseMoments K) (vars : K) (sums : K × K) (v : ClauseView) :
    Except Failure (K × K) :=
  if v.size = 0 then .ok sums
  else do
    let density ← addSquare m.density.mean sums.1 (← densityOf v vars)
    let polarity ← addSquare m.polarity.mean sums.2 (← polarityOf v)
    pure (density, polarity)

/-- Fills in the relative deviations. -/
def second (db : Database K) (m : ClauseMoments K) (vars clauses eps : K) :
    Except Failure (ClauseMoments K) :=
  if Quantity.isZero clauses || Quantity.isZero vars then .ok m
  else do
    let sums ← db.traversal.fold (m.addDeviations vars) (Arithmetic.zero, Arithmetic.zero)
    let density ← Ratio.relativeDeviation sums.1 clauses m.density.mean eps
    let polarity ← Ratio.relativeDeviation sums.2 clauses m.polarity.mean eps
    pure { m with
      density := { m.density with std := density }
      polarity := { m.polarity with std := polarity } }

end ClauseMoments

end ClauseFeatures
