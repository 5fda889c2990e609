import ClauseFeatures.Failure

/-!
Literals. A literal is a variable with a sign, encoded as `2 * variable + sign`, where the sign `1` marks
the negated variable. Literals are ordered by their codes; the order chooses a canonical watcher of each
clause and has no logical meaning.
-/
namespace ClauseFeatures

/-- A literal by its code. -/
structure Literal where
  code : Nat
deriving DecidableEq, Repr

namespace Literal

instance : Inhabited Literal := ⟨⟨0⟩⟩

instance : LT Literal := ⟨fun a b => a.code < b.code⟩

instance : LE Literal := ⟨fun a b => a.code ≤ b.code⟩

instance (a b : Literal) : Decidable (a < b) := inferInstanceAs (Decidable (a.code < b.code))

instance (a b : Literal) : Decidable (a ≤ b) := inferInstanceAs (Decidable (a.code ≤ b.code))

instance : Min Literal := ⟨fun a b => if b < a then b else a⟩

instance : Max Literal := ⟨fun a b => if a < b then b else a⟩

def var (l : Literal) : Nat := l.code / 2

def negated (l : Literal) : Bool := l.code % 2 == 1

def negate (l : Literal) : Literal := ⟨l.code ^^^ 1⟩

/-- The literal of a code; negative codes are refused. -/
def ofCode (code : Int) : Except Failure Literal :=
  if code < 0 then do throw (.negativeCode (← Failure.integerText code)) else .ok ⟨code.toNat⟩

/-- The literal of a variable and a sign. The sign is added as a number. -/
def make (var sign : Int) : Except Failure Literal := ofCode (var + var + sign)

/-- The literal of a signed number counted from one, as formula files write it; `0` ends a clause there
and is no literal. -/
def ofDimacs (value : Int) : Except Failure Literal :=
  if value = 0 then .error .zeroLiteral
  else make (value.natAbs - 1) (if value < 0 then 1 else 0)

/-- The signed number of a literal, counted from one. -/
def toDimacs (l : Literal) : Int :=
  if l.negated then -(l.var + 1) else l.var + 1

/-- The text of a literal in messages; a failure if its variable has too many digits. -/
def text (l : Literal) : Except Failure String := do
  let number ← Failure.integerText l.toDimacs
  pure s!"Lit({number})"

/-- Literals in ascending order; equal ones keep their order. -/
def sort (ls : List Literal) : List Literal := ls.mergeSort fun a b => decide (a ≤ b)

end Literal

end ClauseFeatures
