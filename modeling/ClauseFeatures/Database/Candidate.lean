import ClauseFeatures.Database.Basic
import ClauseFeatures.Literal.Candidate

/-!
Adding clauses whose literals are given as candidates. A clause with a double among its codes is always
refused, but for the first reason that shows: its size, a repeated code, or in order a variable that does
not exist or a code that has no variable.
-/
namespace ClauseFeatures

variable {K : Type}

/-- Why a variable of a candidate cannot be had, if it cannot. -/
def Literal.Candidate.refusal? (c : Candidate) (vars : Nat) : Option Failure :=
  match c.literal with
  | .error e => some e
  | .ok l =>
    match Check.existing l vars "literal" with
    | .error e => some e
    | .ok () => none

/-- Why candidates that are not all literals make up no clause. -/
def Literal.Candidate.refusal (cs : List Candidate) (vars : Nat) : Failure :=
  if cs.length < 2 then .tooShort cs.length
  else if (distinct cs).length < cs.length then .duplicates "clause literals"
  else (cs.findSome? (refusal? · vars)).getD .wrongType

/-- Adds a clause of candidates, which is proposed once they are known to be literals. -/
def Database.addCandidates [Quantity K] (db : Database K) (cs : List Literal.Candidate)
    (propose : List Literal → Proposal K) : Database K × Except Failure (Option Nat) :=
  match cs.mapM Literal.Candidate.literal? with
  | some lits => db.addClause (propose lits)
  | none => (db, .error (Literal.Candidate.refusal cs db.vars))

end ClauseFeatures
