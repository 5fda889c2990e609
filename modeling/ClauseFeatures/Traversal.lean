import ClauseFeatures.Database.Basic

/-!
Visiting every irredundant clause exactly once.

A clause lies in several watch lists. It is reported from one owner only: the smallest literal of a
binary or ternary clause, the smaller of the two watched literals of a long one. The lists are scanned
by ascending literal, each from its start, until a failure stops the scan.
-/
namespace ClauseFeatures

/-- An irredundant clause, whatever form it is kept in. -/
structure ClauseView where
  lits : List Literal
deriving DecidableEq, Repr

namespace ClauseView

def size (v : ClauseView) : Nat := v.lits.length

/-- The number of literals that are not negated. -/
def pos (v : ClauseView) : Nat := v.lits.countP fun l => !l.negated

def neg (v : ClauseView) : Nat := v.size - v.pos

/-- Whether at most one literal is not negated. -/
def isHorn (v : ClauseView) : Bool := v.pos ≤ 1

/-- The clause that a literal owns through an entry of its list, or nothing if the entry is to be
skipped: a redundant clause, or a clause that another literal owns. -/
def ofEntry {K : Type} (store : ClauseStore K) (l : Literal) (w : Watch) :
    Except Failure (Option ClauseView) :=
  match w.body with
  | .binary other red =>
    .ok (if red || other < l then none else some ⟨[l, other]⟩)
  | .ternary second third red =>
    .ok (if red || second < l then none else some ⟨[l, second, third]⟩)
  | .long offset => do
    let c ← store.get offset
    if c.red then pure none
    else
      let a ← c.literalAt 0
      let b ← c.literalAt 1
      pure (if l = min a b then some ⟨c.lits⟩ else none)
  | .marker index => do throw (.markerReached (← index.told) (← l.text))
  | .unknown kind => do throw (.unknownWatch (← kind.quoted))

end ClauseView

/-- What a scan of the watch lists yields: the clauses met, and the failure that stopped it, if any. -/
structure Traversal where
  views : List ClauseView
  failure : Option Failure

namespace Traversal

/-- Scans entries, each with the literal in whose list it lies. -/
def ofEntries {K : Type} (store : ClauseStore K) : List (Literal × Watch) → Traversal
  | [] => ⟨[], none⟩
  | (l, w) :: rest =>
    match ClauseView.ofEntry store l w with
    | .error e => ⟨[], some e⟩
    | .ok none => ofEntries store rest
    | .ok (some v) =>
      let t := ofEntries store rest
      { t with views := v :: t.views }

/-- Runs a step on each clause met; a failing step comes before the failure that stopped the scan. -/
def fold {S : Type} (t : Traversal) (step : S → ClauseView → Except Failure S) (s : S) :
    Except Failure S := do
  let s ← t.views.foldlM step s
  match t.failure with
  | some e => .error e
  | none => .ok s

end Traversal

/-- The entries of all lists of existing variables, by ascending literal. -/
def Database.entries {K : Type} (db : Database K) : List (Literal × Watch) :=
  ((db.watches.lists.toList.take (2 * db.vars)).zipIdx).flatMap fun (ws, code) => ws.map (⟨code⟩, ·)

def Database.traversal {K : Type} (db : Database K) : Traversal := .ofEntries db.store db.entries

/-- A report to a visitor: of a clause, or of one of its literals. -/
inductive Visit
  | clause (size pos neg : Nat)
  | literal (l : Literal) (size pos neg : Nat)
deriving DecidableEq, Repr

/-- The reports of one clause: itself, then its literals in order if they are wanted. -/
def ClauseView.visits (v : ClauseView) (eachLiteral : Bool) : List Visit :=
  .clause v.size v.pos v.neg ::
    if eachLiteral then v.lits.map fun l => .literal l v.size v.pos v.neg else []

def Traversal.visits (t : Traversal) (eachLiteral : Bool) : List Visit :=
  t.views.flatMap fun v => v.visits eachLiteral

end ClauseFeatures
