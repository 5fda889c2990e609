import ClauseFeatures.Literal
import ClauseFeatures.Number

/-!
Literals as callers give them: by a code that may be any number.

Only whole numbers and truth values are codes of literals. A double is kept nonetheless, and compared
like any other number, until something is asked that only a literal can answer.
-/
namespace ClauseFeatures

/-- What is given as a literal, by its code, which is not below zero. -/
structure Literal.Candidate where
  code : Number
deriving DecidableEq

namespace Literal.Candidate

def ofLiteral (l : Literal) : Candidate := ⟨.int l.code⟩

/-- The candidate with a code; negative codes are refused. -/
def ofCode (code : Number) : Except Failure Candidate := do
  if code.lt 0 then throw (.negativeCode (← code.checkedText))
  pure ⟨code⟩

def make (var : Number) (sign : Int) : Except Failure Candidate := do
  let twice ← var.add var
  ofCode (← twice.add (.int sign))

/-- The candidate of a signed number counted from one. -/
def ofDimacs (value : Number) : Except Failure Candidate :=
  match value with
  | .real x =>
    if x == 0 then .error .zeroLiteral
    else make (.real (x.abs - 1)) (if x < 0 then 1 else 0)
  | _ => (Literal.ofDimacs (value.int?.getD 0)).map ofLiteral

/-- The literal that a candidate is, unless its code is a double. -/
def literal? (c : Candidate) : Option Literal := c.code.int?.map fun n => ⟨n.toNat⟩

def literal (c : Candidate) : Except Failure Literal :=
  match c.literal? with
  | some l => .ok l
  | none => .error .wrongType

def lt (a b : Candidate) : Bool := a.code.lt b.code

def le (a b : Candidate) : Bool := a.code.le b.code

def equal (a b : Candidate) : Bool := a.code.equal b.code

/-- The lesser of two candidates, the first if neither is below the other. -/
def min (a b : Candidate) : Candidate := if b.lt a then b else a

/-- The greater of two candidates, the first if neither is below the other. -/
def max (a b : Candidate) : Candidate := if a.lt b then b else a

/-- Candidates in ascending order; equal ones keep their order. -/
def sort (cs : List Candidate) : List Candidate := cs.mergeSort fun a b => !b.lt a

/-- Candidates without those that are equal to an earlier one. -/
def distinct (cs : List Candidate) : List Candidate := List.eraseDupsBy equal cs

/-- The text of a candidate, which only a literal has. -/
def text (c : Candidate) : Except Failure String := do (← c.literal).text

end Literal.Candidate

end ClauseFeatures
