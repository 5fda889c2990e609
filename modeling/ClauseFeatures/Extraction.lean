import ClauseFeatures.Moment.Clause
import ClauseFeatures.Moment.Variable
import ClauseFeatures.Record

/-!
The extraction of the feature record from a database.

The stages in order: occurrences of variables, first moments of clauses and of variables, second moments
of clauses and of variables, distributions of redundant and of irredundant long clauses. The first
failure of a stage is the failure of the extraction. The last step refuses a record that holds an
infinite number or a NaN.
-/
namespace ClauseFeatures

variable {K E : Type} [Element E] [Arithmetic K E]

namespace Database

/-- The offsets of redundant long clauses in a tier. A double is no index, whatever its value. -/
def tierOffsets (db : Database K) (tier : Number) : Except Failure (List Value) :=
  match tier.int? with
  | none => .error .wrongType
  | some t =>
    match itemAt? db.longRed t with
    | some offsets => .ok offsets
    | none => .error .outsideList

/-- The feature record of a database, before it is checked for infinite numbers and NaNs. -/
def record (db : Database K) (eps : K) (tier : Number) : Except Failure (FeatureRecord K) := do
  let occ ← Occurrences.ofDatabase db
  let vars : K := Quantity.ofInt occ.activeCount
  let clauses : K := Quantity.ofInt db.irredCount
  let ratio ←
    if 0 < occ.activeCount ∧ 0 < db.irredCount then Arithmetic.div vars clauses
    else pure Arithmetic.zero
  let clauseFirst ← ClauseMoments.first db vars clauses (Quantity.ofInt occ.hornClauses)
  let varFirst ← VariableMoments.first occ vars clauses
  let clauseSide ← clauseFirst.second db vars clauses eps
  let varSide ← VariableMoments.second occ varFirst vars clauses eps
  let redundant ← Distribution.ofOffsets db.store (← db.tierOffsets tier) db.increment
  let irredundant ← Distribution.ofOffsets db.store db.longIrred db.increment
  pure {
    numVars := vars
    numClauses := clauses
    varClauseRatio := ratio
    binary := clauseSide.binary
    ternary := clauseSide.ternary
    horn := clauseSide.horn
    clauseDensity := clauseSide.density
    clausePolarity := clauseSide.polarity
    varDensity := varSide.density
    varPolarity := varSide.polarity
    varHorn := varSide.horn
    redundant
    irredundant }

/-- The feature record of a database. Deviations are computed where they exceed `eps`; `tier` chooses the
redundant long clauses that are summarised. -/
def extract (db : Database K) (eps : K) (tier : Number) : Except Failure (FeatureRecord K) := do
  let r ← db.record eps tier
  let vector ← r.vector
  Check.finite vector "feature vector"
  pure r

end Database

end ClauseFeatures
