import ClauseFeatures.Traversal

/-!
Occurrence counts of variables over the irredundant clauses, filled by one traversal.
-/
namespace ClauseFeatures

/-- Counts per variable. A variable that stands in a clause with both signs is counted twice. -/
structure Occurrences where
  /-- Occurrences in clauses. -/
  size : List Int
  /-- Occurrences that are not negated. -/
  pos : List Int
  /-- Occurrences in clauses with at most one literal that is not negated. -/
  horn : List Int
  /-- The number of clauses with at most one literal that is not negated. -/
  hornClauses : Int := 0
deriving DecidableEq, Repr

namespace Occurrences

def zeros (vars : Nat) : Occurrences where
  size := List.replicate vars 0
  pos := List.replicate vars 0
  horn := List.replicate vars 0

/-- The least count that takes more than 64 bits, sign included. -/
def countLimit : Int := Nat.pow 2 63

/-- The least number of counts that take more bytes than can be numbered. -/
def lengthLimit : Int := Nat.pow 2 60

/-- No occurrences of a number of variables that has to be checked. -/
def zeros? (vars : Int) : Except Failure Occurrences :=
  if vars < -countLimit || countLimit ≤ vars then .error .sizeOverflow
  else if vars < 0 then .error .negativeLength
  else if lengthLimit ≤ vars then .error .arrayTooLarge
  else .ok (zeros vars.toNat)

def active (occ : Occurrences) : List Bool := occ.size.map fun n => decide (0 < n)

/-- The number of variables with a count of occurrences other than zero. -/
def activeCount (occ : Occurrences) : Nat := occ.size.countP (· ≠ 0)

def bump (counts : List Int) (var : Nat) : List Int := counts.modify var (· + 1)

def addLiteral (horn : Bool) (occ : Occurrences) (l : Literal) : Except Failure Occurrences :=
  if l.var < occ.size.length then
    .ok { occ with
      size := bump occ.size l.var
      pos := if l.negated then occ.pos else bump occ.pos l.var
      horn := if horn then bump occ.horn l.var else occ.horn }
  else .error .outsideList

def addClause (occ : Occurrences) (v : ClauseView) : Except Failure Occurrences :=
  let occ := if v.isHorn then { occ with hornClauses := occ.hornClauses + 1 } else occ
  v.lits.foldlM (addLiteral v.isHorn) occ

def ofDatabase {K : Type} (db : Database K) : Except Failure Occurrences :=
  db.traversal.fold addClause (zeros db.vars)

end Occurrences

end ClauseFeatures
