import ClauseFeatures.Arithmetic

/-!
Sums and extremes of arrays.

In rounded arithmetic the order of additions shows in the last digits. An array is summed pairwise:
long arrays are halved, blocks of up to 128 elements are summed in eight lanes, and fewer than eight
elements one after the other.
-/
namespace ClauseFeatures

variable {E : Type} [Element E]

/-- Adds further groups of eight elements to eight running sums, then the sums in pairs, then the rest. -/
def lanes (r0 r1 r2 r3 r4 r5 r6 r7 : E) : List E → E
  | x0 :: x1 :: x2 :: x3 :: x4 :: x5 :: x6 :: x7 :: rest =>
    lanes (r0 + x0) (r1 + x1) (r2 + x2) (r3 + x3) (r4 + x4) (r5 + x5) (r6 + x6) (r7 + x7) rest
  | rest => rest.foldl (· + ·) (((r0 + r1) + (r2 + r3)) + ((r4 + r5) + (r6 + r7)))

def blockSum : List E → E
  | x0 :: x1 :: x2 :: x3 :: x4 :: x5 :: x6 :: x7 :: rest => lanes x0 x1 x2 x3 x4 x5 x6 x7 rest
  | short => short.foldl (· + ·) Element.negativeZero

/-- Where a long array of a given length is cut: at half of it, down to a multiple of eight. -/
def cutPoint (length : Nat) : Nat := length / 2 - length / 2 % 8

def pairwiseSum (xs : List E) : E :=
  if xs.length ≤ 128 then blockSum xs
  else pairwiseSum (xs.take (cutPoint xs.length)) + pairwiseSum (xs.drop (cutPoint xs.length))
termination_by xs.length
decreasing_by
  all_goals simp only [List.length_take, List.length_drop, cutPoint]; omega

def arraySum (xs : List E) : E := Element.zero + pairwiseSum xs

/-- Keeps the better of two elements, where a NaN wins over everything. -/
def keep (better : E → E → Bool) (kept x : E) : E :=
  if Element.isNaN kept then kept
  else if Element.isNaN x || better x kept then x
  else kept

/-- The least element of an array with a first element; a NaN if there is one. -/
def arrayMin (x : E) (xs : List E) : E := xs.foldl (keep Element.lt) x

/-- The greatest element of an array with a first element; a NaN if there is one. -/
def arrayMax (x : E) (xs : List E) : E := xs.foldl (keep fun a b => Element.lt b a) x

end ClauseFeatures
