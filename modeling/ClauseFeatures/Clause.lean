import ClauseFeatures.Arithmetic
import ClauseFeatures.Literal
import ClauseFeatures.Value.Order

/-!
Clause bodies and the store that keeps the long ones. The store only grows: a clause is addressed by the
offset at which it was put, and an offset never changes its meaning.
-/
namespace ClauseFeatures

/-! Positions in a list count from the start; a negative one counts from the end, so `-1` is the last. -/

/-- The index of a position in a list of a given length, if the position lies inside. -/
def resolvePosition (length : Nat) (position : Int) : Option Nat :=
  let index := if position < 0 then position + length else position
  if 0 ≤ index ∧ index < length then some index.toNat else none

def itemAt? {α : Type} (items : List α) (position : Int) : Option α :=
  (resolvePosition items.length position).bind (items[·]?)

variable {K : Type}

/-- The body of a clause. The first two literals are the watched ones. -/
structure Clause (K : Type) where
  lits : List Literal
  /-- Whether the clause was learned and is redundant. -/
  red : Bool
  /-- The number of decision levels in the clause when it was learned. -/
  glue : K
  /-- How much the clause was used, in units of the database's increment. -/
  activity : K
deriving DecidableEq

namespace Clause

def size (c : Clause K) : Nat := c.lits.length

def literalAt (c : Clause K) (position : Int) : Except Failure Literal :=
  match itemAt? c.lits position with
  | some l => .ok l
  | none => .error .outsideList

end Clause

structure ClauseStore (K : Type) where
  bodies : Array (Clause K)

namespace ClauseStore

def empty : ClauseStore K := ⟨#[]⟩

def size (s : ClauseStore K) : Nat := s.bodies.size

/-- Puts a clause at the end; its offset is the former size. -/
def push (s : ClauseStore K) (c : Clause K) : ClauseStore K := ⟨s.bodies.push c⟩

/-- The clause at an offset, if one was put there. -/
def get? (s : ClauseStore K) (offset : Int) : Option (Clause K) :=
  if offset < 0 then none else s.bodies[offset.toNat]?

/-- The clause at an offset, which may be any value. What is outside the store was never allocated; a
double inside is no offset all the same. -/
def get (s : ClauseStore K) (offset : Value) : Except Failure (Clause K) := do
  let isInside ← bothHold (Value.le (.int 0) offset) (offset.lt (.int s.size))
  if !isInside then throw (.unallocated (← offset.told))
  match (offset.number?.bind Number.int?).bind s.get? with
  | some c => pure c
  | none => throw .wrongType

end ClauseStore

end ClauseFeatures
