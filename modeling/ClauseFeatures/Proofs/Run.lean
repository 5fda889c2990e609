import ClauseFeatures.Database.Basic

/-!
Runs of calls on a database, and the history of the calls that succeeded. Every statement about a reachable
database is stated over a run from the empty one.
-/
namespace ClauseFeatures

variable {K : Type}

inductive Call (K : Type)
  | newVar
  | newVars (n : Value)
  | setIncrement (x : K)
  | addClause (p : Proposal K)
  | addMarker (l : Literal) (index : Value)

namespace Call

def isMarker : Call K → Bool
  | addMarker _ _ => true
  | _ => false

/-- Whether the tier that a call gives for a clause is an index, that is no double and nothing but a
number. -/
def isTyped : Call K → Bool
  | addClause p => (p.tier.number?.bind Number.int?).isSome
  | _ => true

def irredundant? : Call K → Option (List Literal)
  | addClause p => if p.red then none else some p.lits
  | _ => none

end Call

namespace Database

variable [Quantity K]

/-- Makes a call: the database that it leaves behind, and its answer. Only a new variable and a long
clause answer with a number. -/
def call (db : Database K) : Call K → Database K × Except Failure (Option Nat)
  | .newVar => (db.newVar.1, .ok (some db.newVar.2))
  | .newVars n => ((db.newVars n).1, (db.newVars n).2.map fun _ => none)
  | .setIncrement x => ((db.setIncrement x).1, (db.setIncrement x).2.map fun _ => none)
  | .addClause p => db.addClause p
  | .addMarker l index => ((db.addMarker l index).1, (db.addMarker l index).2.map fun _ => none)

/-- The database after a run of calls, some of which may have failed. -/
def run (db : Database K) : List (Call K) → Database K
  | [] => db
  | c :: cs => (db.call c).1.run cs

/-- The calls of a run that succeeded, in order, each with its answer. -/
def history (db : Database K) : List (Call K) → List (Call K × Option Nat)
  | [] => []
  | c :: cs =>
    match (db.call c).2 with
    | .ok answer => (c, answer) :: (db.call c).1.history cs
    | .error _ => (db.call c).1.history cs

theorem run_append (db : Database K) (cs ds : List (Call K)) : db.run (cs ++ ds) = (db.run cs).run ds := by
  induction cs generalizing db with
  | nil => rfl
  | cons c cs ih => exact ih _

theorem history_append (db : Database K) (cs ds : List (Call K)) :
    db.history (cs ++ ds) = db.history cs ++ (db.run cs).history ds := by
  induction cs generalizing db with
  | nil => rfl
  | cons c cs ih =>
      rw [List.cons_append, history, history, ih, run]
      cases (db.call c).2 <;> rfl

end Database

end ClauseFeatures
