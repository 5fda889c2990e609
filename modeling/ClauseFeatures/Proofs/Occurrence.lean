import ClauseFeatures.Moment.Variable
import ClauseFeatures.Proofs.Outcome

/-!
Occurrence counts in closed form. Counting the clauses of a traversal one after the other adds to each
variable how often it stands among all their literals, and cannot fail as long as all variables have a
count. Every bound on the counts follows from this.
-/
namespace ClauseFeatures.Occurrences

/-- Counts with the occurrences of their variables among some literals added. -/
def tally (lits : List Literal) (counts : List Int) : List Int :=
  counts.mapIdx fun var n => n + lits.countP fun l => l.var = var

@[simp]
theorem length_tally (lits : List Literal) (counts : List Int) :
    (tally lits counts).length = counts.length := List.length_mapIdx

@[simp]
theorem tally_nil (counts : List Int) : tally [] counts = counts := by
  apply List.ext_getElem?
  simp [tally]

theorem tally_append (ls ms : List Literal) (counts : List Int) :
    tally (ls ++ ms) counts = tally ms (tally ls counts) := by
  simp [tally, List.mapIdx_mapIdx, Function.comp_def, Int.add_assoc]

theorem bump_eq (counts : List Int) (l : Literal) : bump counts l.var = tally [l] counts := by
  apply List.ext_getElem?
  intro i
  rw [bump, tally, List.getElem?_modify, List.getElem?_mapIdx]
  by_cases h : l.var = i <;> simp [h]

theorem tally_cons (l : Literal) (ls : List Literal) (counts : List Int) :
    tally (l :: ls) counts = tally ls (bump counts l.var) := by
  rw [bump_eq, ← tally_append, List.singleton_append]

/-- Counts with some literals added, which belong to Horn clauses or to other ones. -/
def addLiterals (horn : Bool) (occ : Occurrences) (lits : List Literal) : Occurrences :=
  { occ with
    size := tally lits occ.size
    pos := tally (lits.filter fun l => !l.negated) occ.pos
    horn := if horn then tally lits occ.horn else occ.horn }

theorem foldlM_addLiteral (horn : Bool) {lits : List Literal} {occ : Occurrences}
    (h : ∀ l ∈ lits, l.var < occ.size.length) :
    lits.foldlM (addLiteral horn) occ = .ok (addLiterals horn occ lits) := by
  induction lits generalizing occ with
  | nil => cases horn <;> simp [addLiterals, pure, Except.pure]
  | cons l ls ih =>
      have rest : ∀ m ∈ ls, m.var < (bump occ.size l.var).length := by
        intro m hm
        rw [bump_eq, length_tally]
        exact h m (List.mem_cons_of_mem l hm)
      rw [List.foldlM_cons, addLiteral, if_pos (h l List.mem_cons_self), ok_bind, ih rest]
      cases horn <;> cases hn : l.negated <;> simp [addLiterals, tally_cons, hn]

def addClauses (occ : Occurrences) (views : List ClauseView) : Occurrences where
  size := tally (views.flatMap ClauseView.lits) occ.size
  pos := tally ((views.flatMap ClauseView.lits).filter fun l => !l.negated) occ.pos
  horn := tally ((views.filter ClauseView.isHorn).flatMap ClauseView.lits) occ.horn
  hornClauses := occ.hornClauses + views.countP ClauseView.isHorn

theorem foldlM_addClause {views : List ClauseView} {occ : Occurrences}
    (h : ∀ v ∈ views, ∀ l ∈ v.lits, l.var < occ.size.length) :
    views.foldlM addClause occ = .ok (addClauses occ views) := by
  induction views generalizing occ with
  | nil => simp [addClauses, pure, Except.pure]
  | cons v vs ih =>
      have first : addClause occ v = .ok (addClauses occ [v]) := by
        have counted (occ' : Occurrences) (same : occ'.size = occ.size) :
            v.lits.foldlM (addLiteral v.isHorn) occ' = .ok (addLiterals v.isHorn occ' v.lits) :=
          foldlM_addLiteral v.isHorn (same ▸ h v List.mem_cons_self)
        rw [addClause, counted _ (by split <;> rfl)]
        cases hv : v.isHorn <;> simp [addLiterals, addClauses, hv]
      have rest : ∀ w ∈ vs, ∀ l ∈ w.lits, l.var < (addClauses occ [v]).size.length := by
        intro w hw
        simpa only [addClauses, length_tally] using h w (List.mem_cons_of_mem v hw)
      rw [List.foldlM_cons, first, ok_bind, ih rest]
      cases hv : v.isHorn with
      | true =>
          simp only [addClauses, List.flatMap_cons, List.flatMap_nil, List.append_nil,
            List.filter_append, List.filter_cons, List.filter_nil, hv, ite_true, tally_append,
            List.countP_cons, List.countP_nil]
          congr 2
          omega
      | false => simp [addClauses, tally_append, hv]

def ofViews (vars : Nat) (views : List ClauseView) : Occurrences := addClauses (zeros vars) views

/-- A scan that stops counts the clauses that it met before; then it fails as the scan does. -/
theorem ofDatabase_eq {K : Type} {db : Database K}
    (h : ∀ v ∈ db.traversal.views, ∀ l ∈ v.lits, l.var < db.vars) :
    ofDatabase db =
      db.traversal.failure.elim (.ok (ofViews db.vars db.traversal.views)) Except.error := by
  have inside : ∀ v ∈ db.traversal.views, ∀ l ∈ v.lits, l.var < (zeros db.vars).size.length := by
    simpa only [zeros, List.length_replicate] using h
  rw [ofDatabase, Traversal.fold, foldlM_addClause inside, ok_bind, ofViews]
  cases db.traversal.failure <;> rfl

end ClauseFeatures.Occurrences
