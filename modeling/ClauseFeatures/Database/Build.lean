import ClauseFeatures.Database.Candidate

/-!
Building a database from clauses written as signed numbers.
-/
namespace ClauseFeatures.Database

variable {K : Type} [Quantity K]

/-- The largest variable of a list of clauses, counted from one; `0` if there is none. Of equal numbers
the first is meant. -/
def largestVariable (clauses : List (List Number)) : Number :=
  match clauses.flatten.map Number.abs with
  | [] => 0
  | n :: ns => ns.foldl (fun largest n => if largest.lt n then n else largest) n

/-- Adds a clause of signed numbers with default glue, activity and tier. -/
def addDimacs (red : Bool) (db : Database K) (clause : List Number) : Except Failure (Database K) := do
  let candidates ← clause.mapM Literal.Candidate.ofDimacs
  match db.addCandidates candidates fun lits => { lits, red, activity := Quantity.ofInt 0 } with
  | (db, .ok _) => .ok db
  | (_, .error e) => .error e

/-- The database of irredundant and redundant clauses. Without a number of variables the largest
variable mentioned decides. -/
def ofClauses (irred red : List (List Number)) (vars : Option Value) : Except Failure (Database K) := do
  let db ← ofVars (vars.getD (.number (largestVariable (irred ++ red))))
  let db ← irred.foldlM (addDimacs false) db
  red.foldlM (addDimacs true) db

end ClauseFeatures.Database
