import ClauseFeatures.Check
import ClauseFeatures.Clause
import ClauseFeatures.Watch

/-!
The clause database and the operations on it.

Binary and ternary clauses live in the watch lists of all their literals and are counted by hand, because
nothing else enumerates them. Longer clauses live in the store, are watched by their first two literals
and are listed by offset: the irredundant ones in one list, the redundant ones in one list per tier.

An operation that can be refused answers with the database that it leaves behind and its result. An
insertion is refused before anything is stored, with one exception: a tier that is in range but is no
index is only noticed when the offset is listed, and then the clause is already stored and watched.
-/
namespace ClauseFeatures

variable {K : Type}

def tierCount : Nat := 3

/-- How many clauses the watch lists hold inline. -/
structure InlineCounts where
  irredBinary : Int := 0
  irredTernary : Int := 0
  redBinary : Int := 0
  redTernary : Int := 0
deriving DecidableEq, Repr

structure Database (K : Type) where
  vars : Nat
  watches : WatchLists
  store : ClauseStore K
  /-- The offsets of irredundant long clauses. -/
  longIrred : List Value
  /-- The offsets of redundant long clauses by tier. -/
  longRed : List (List Value)
  inline : InlineCounts
  /-- The unit in which activities are measured; it grows with time. -/
  increment : K

/-- A clause to be added, before it is checked. -/
structure Proposal (K : Type) where
  lits : List Literal
  red : Bool := false
  glue : Value := .int 0
  activity : K
  tier : Value := .int 0

namespace Database

def empty [Quantity K] (vars : Nat) : Database K where
  vars
  watches := .ofVars vars
  store := .empty
  longIrred := []
  longRed := List.replicate tierCount []
  inline := {}
  increment := Quantity.one

def ofVars [Quantity K] (vars : Value) : Except Failure (Database K) := do
  pure (empty (← Check.count vars "n_vars"))

def irredCount (db : Database K) : Int :=
  db.longIrred.length + db.inline.irredBinary + db.inline.irredTernary

def redCount (db : Database K) : Int :=
  db.longRed.flatten.length + db.inline.redBinary + db.inline.redTernary

def grow (db : Database K) (n : Nat) : Database K :=
  { db with vars := db.vars + n, watches := db.watches.resize (db.vars + n) }

def newVar (db : Database K) : Database K × Nat := (db.grow 1, db.vars)

def newVars (db : Database K) (n : Value) : Database K × Except Failure Unit :=
  match Check.count n "n" with
  | .ok n => (db.grow n, .ok ())
  | .error e => (db, .error e)

def setIncrement [Quantity K] (db : Database K) (x : K) : Database K × Except Failure Unit :=
  match Check.positive x "cla_inc" with
  | .ok () => ({ db with increment := x }, .ok ())
  | .error e => (db, .error e)

def addMarker (db : Database K) (l : Literal) (index : Value) :
    Database K × Except Failure Unit :=
  let attached : Except Failure WatchLists := do
    Check.existing l db.vars "literal"
    db.watches.attach l (← Watch.marker index)
  match attached with
  | .ok watches => ({ db with watches }, .ok ())
  | .error e => (db, .error e)

def check [Quantity K] (db : Database K) (p : Proposal K) : Except Failure (Clause K) := do
  if p.lits.length < 2 then throw (.tooShort p.lits.length)
  Check.distinct p.lits "clause literals"
  p.lits.forM fun l => Check.existing l db.vars "literal"
  let glue ← Check.count p.glue "glue"
  Check.nonNegative p.activity "activity"
  pure { lits := p.lits, red := p.red, glue := Quantity.ofInt glue, activity := p.activity }

/-- The tier of a redundant long clause has to lie in range. -/
def checkTier (tier : Value) : Except Failure Unit := do
  let isInside ← bothHold (Value.le (.int 0) tier) (tier.lt (.int tierCount))
  if !isInside then throw (.noSuchTier tierCount (← tier.told))

def attachBinary (ws : WatchLists) (a b : Literal) (red : Bool) : Except Failure WatchLists := do
  let ws ← ws.attach a (.binary b red)
  ws.attach b (.binary a red)

/-- Attaches a ternary clause to the list of one of its literals, naming the two others in order. -/
def attachTernaryTo (lits : List Literal) (red : Bool) (ws : WatchLists) (l : Literal) :
    Except Failure WatchLists :=
  match Literal.sort (lits.filter (· ≠ l)) with
  | [second, third] => do ws.attach l (← Watch.ternary second third red)
  | _ => .error .ternaryIncomplete

def attachTernary (ws : WatchLists) (lits : List Literal) (red : Bool) : Except Failure WatchLists :=
  lits.foldlM (attachTernaryTo lits red) ws

/-- Attaches a long clause to the lists of its first two literals. -/
def attachLong (ws : WatchLists) (a b : Literal) (offset : Nat) : Except Failure WatchLists := do
  let ws ← ws.attach a (.long offset)
  ws.attach b (.long offset)

def countBinary (counts : InlineCounts) (red : Bool) : InlineCounts :=
  if red then { counts with redBinary := counts.redBinary + 1 }
  else { counts with irredBinary := counts.irredBinary + 1 }

def countTernary (counts : InlineCounts) (red : Bool) : InlineCounts :=
  if red then { counts with redTernary := counts.redTernary + 1 }
  else { counts with irredTernary := counts.irredTernary + 1 }

def pushTier (db : Database K) (tier : Int) (offset : Value) : Except Failure (Database K) :=
  match resolvePosition db.longRed.length tier with
  | some t => .ok { db with longRed := db.longRed.modify t (· ++ [offset]) }
  | none => .error .outsideList

/-- Stores, watches and lists a checked long clause. -/
def insertLong (db : Database K) (c : Clause K) (a b : Literal) (tier : Value) :
    Database K × Except Failure (Option Nat) :=
  match if c.red then checkTier tier else .ok () with
  | .error e => (db, .error e)
  | .ok () =>
    let offset := db.store.size
    match attachLong db.watches a b offset with
    | .error e => (db, .error e)
    | .ok watches =>
      let stored := { db with store := db.store.push c, watches }
      if c.red then
        match tier.number?.bind Number.int? with
        | none => (stored, .error .wrongType)
        | some t =>
          match stored.pushTier t (.int offset) with
          | .ok listed => (listed, .ok (some offset))
          | .error e => (stored, .error e)
      else ({ stored with longIrred := stored.longIrred ++ [.int offset] }, .ok (some offset))

/-- Adds a checked clause in the form that its size asks for. -/
def insert (db : Database K) (c : Clause K) (tier : Value) :
    Database K × Except Failure (Option Nat) :=
  match c.lits with
  | [a, b] =>
    match attachBinary db.watches a b c.red with
    | .ok watches => ({ db with watches, inline := countBinary db.inline c.red }, .ok none)
    | .error e => (db, .error e)
  | [_, _, _] =>
    match attachTernary db.watches c.lits c.red with
    | .ok watches => ({ db with watches, inline := countTernary db.inline c.red }, .ok none)
    | .error e => (db, .error e)
  | a :: b :: _ => db.insertLong c a b tier
  | _ => (db, .error (.tooShort c.lits.length))

/-- Adds a clause. The answer is the offset of a long clause and nothing for an inline one. -/
def addClause [Quantity K] (db : Database K) (p : Proposal K) :
    Database K × Except Failure (Option Nat) :=
  match db.check p with
  | .ok c => db.insert c p.tier
  | .error e => (db, .error e)

end Database

end ClauseFeatures
