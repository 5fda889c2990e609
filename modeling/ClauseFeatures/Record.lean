import ClauseFeatures.Distribution
import ClauseFeatures.Statistic

/-!
The feature record of one database, its named fields and its vector form.
-/
namespace ClauseFeatures

variable {K E : Type} [Element E] [Arithmetic K E]

/-- The features of the irredundant clauses of a database, with the distributions of the long ones. -/
structure FeatureRecord (K : Type) where
  /-- Variables that occur in some irredundant clause. -/
  numVars : K
  /-- Irredundant clauses of every size. -/
  numClauses : K
  /-- Variables over clauses. -/
  varClauseRatio : K
  /-- The fraction of binary clauses. -/
  binary : K
  /-- The fraction of ternary clauses. -/
  ternary : K
  /-- The fraction of clauses with at most one positive literal. -/
  horn : K
  /-- Clause size over the number of variables. -/
  clauseDensity : Summary K
  /-- Clause polarity. -/
  clausePolarity : Summary K
  /-- Variable occurrences over the number of clauses. -/
  varDensity : Summary K
  /-- Variable polarity. -/
  varPolarity : Summary K
  /-- Variable occurrences in Horn clauses over the number of clauses. -/
  varHorn : Summary K
  /-- Redundant long clauses of the chosen tier. -/
  redundant : Distribution K
  /-- Irredundant long clauses. -/
  irredundant : Distribution K
deriving DecidableEq

namespace Summary

def fieldNames : List String := ["mean", "std", "min", "max", "spread"]

def fieldValues (s : Summary K) : List K := [s.mean, s.std, s.min, s.max, s.spread]

end Summary

namespace Distribution

def fieldNames : List String :=
  ["size_distr_mean", "size_distr_var", "glue_distr_mean", "glue_distr_var",
    "activity_distr_mean", "activity_distr_var"]

def fieldValues (d : Distribution K) : List K :=
  [d.sizeMean, d.sizeVar, d.glueMean, d.glueVar, d.activityMean, d.activityVar]

end Distribution

namespace FeatureRecord

def zero : FeatureRecord K where
  numVars := Quantity.ofInt 0
  numClauses := Quantity.ofInt 0
  varClauseRatio := Arithmetic.zero
  binary := Arithmetic.zero
  ternary := Arithmetic.zero
  horn := Arithmetic.zero
  clauseDensity := .zero
  clausePolarity := .zero
  varDensity := .zero
  varPolarity := .zero
  varHorn := .zero
  redundant := .zero
  irredundant := .zero

def scalarNames : List String :=
  ["num_vars", "num_clauses", "var_cl_ratio", "binary", "trinary", "horn"]

def scalarValues (r : FeatureRecord K) : List K :=
  [r.numVars, r.numClauses, r.varClauseRatio, r.binary, r.ternary, r.horn]

/-- The leading words under which the summaries stand in a record. -/
def summaryNames : List String := ["vcg_var", "vcg_cls", "pnr_var", "pnr_cls", "horn"]

def summaries (r : FeatureRecord K) : List (Summary K) :=
  [r.varDensity, r.clauseDensity, r.varPolarity, r.clausePolarity, r.varHorn]

/-- The leading words under which the distributions stand in a record. -/
def distributionNames : List String := ["red", "irred"]

def distributions (r : FeatureRecord K) : List (Distribution K) := [r.redundant, r.irredundant]

def names : List String :=
  scalarNames ++
    summaryNames.flatMap (fun word => Summary.fieldNames.map fun field => word ++ "_" ++ field) ++
    distributionNames.flatMap fun word => Distribution.fieldNames.map fun field => word ++ "_" ++ field

def dimension : Nat := names.length

def values (r : FeatureRecord K) : List K :=
  r.scalarValues ++ r.summaries.flatMap Summary.fieldValues ++
    r.distributions.flatMap Distribution.fieldValues

def toList (r : FeatureRecord K) : List (String × K) := names.zip r.values

def equal (a b : FeatureRecord Value) : Bool :=
  (a.values.zip b.values).all fun (x, y) => x.equal y

def vector (r : FeatureRecord K) : Except Failure (List E) := Arithmetic.toArray r.values

end FeatureRecord

end ClauseFeatures
