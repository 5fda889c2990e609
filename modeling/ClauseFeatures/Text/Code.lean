/-!
Code points. Almost every text consists of characters, but an escape can also name a surrogate: a code
point that is no character on its own.
-/
namespace ClauseFeatures.Text

/-- A code point: a character, or a surrogate by its distance from the first one. -/
inductive Code
  | char (c : Char)
  | surrogate (offset : Fin 2048)
deriving DecidableEq, Repr

namespace Code

def firstSurrogate : Nat := 0xD800

def toNat : Code → Nat
  | char c => c.toNat
  | surrogate offset => firstSurrogate + offset

/-- The code point of a number; there is none beyond the last character. -/
def ofNat? (n : Nat) : Option Code :=
  if h : n.isValidChar then some (.char (Char.ofNatAux n h))
  else if h : firstSurrogate ≤ n ∧ n - firstSurrogate < 2048 then
    some (.surrogate ⟨n - firstSurrogate, h.2⟩)
  else none

def char? : Code → Option Char
  | char c => some c
  | surrogate _ => none

/-- A code point with a surrogate replaced by the character for what cannot be shown. -/
def toChar : Code → Char
  | char c => c
  | surrogate _ => '\uFFFD'

def ofString (s : String) : List Code := s.toList.map .char

end Code

end ClauseFeatures.Text
