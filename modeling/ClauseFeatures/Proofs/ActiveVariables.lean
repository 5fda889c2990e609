import ClauseFeatures.Proofs.Agreement
import ClauseFeatures.Proofs.Occurrence

/-!
The counts of the variables that occur. The arrays of occurrences hold a number for every variable, but the
stages on the variable side only see the entries of active variables: they work on one row of counts for each
of these, in ascending order, and nothing of the arrays but these rows can show in a record.
-/
namespace ClauseFeatures

variable {K E : Type}

def literalsOf (views : List ClauseView) : List Literal := views.flatMap ClauseView.lits

theorem mem_literalsOf_of_filter {p : ClauseView → Bool} {views : List ClauseView} {l : Literal}
    (h : l ∈ literalsOf (views.filter p)) : l ∈ literalsOf views := by
  obtain ⟨v, hv, hl⟩ := List.mem_flatMap.mp h
  exact List.mem_flatMap.mpr ⟨v, List.mem_of_mem_filter hv, hl⟩

structure VariableCounts where
  size : Int
  pos : Int
  horn : Int
deriving DecidableEq

def VariableCounts.ofViews (views : List ClauseView) (var : Nat) : VariableCounts where
  size := (literalsOf views).countP fun l => l.var = var
  pos := ((literalsOf views).filter fun l => !l.negated).countP fun l => l.var = var
  horn := (literalsOf (views.filter ClauseView.isHorn)).countP fun l => l.var = var

/-- The variables that occur in some clauses, in ascending order. -/
def activeVariables (vars : Nat) (views : List ClauseView) : List Nat :=
  (List.range vars).filter fun v => 0 < (VariableCounts.ofViews views v).size

theorem nodup_activeVariables (vars : Nat) (views : List ClauseView) :
    (activeVariables vars views).Nodup := List.nodup_range.filter _

/-- One row of counts for each variable that occurs. -/
def activeRows (vars : Nat) (views : List ClauseView) : List VariableCounts :=
  (activeVariables vars views).map (VariableCounts.ofViews views)

theorem VariableCounts.size_pos_iff {views : List ClauseView} {var : Nat} :
    0 < (ofViews views var).size ↔ ∃ l ∈ literalsOf views, l.var = var := by
  simp only [ofViews, Int.natCast_pos, List.countP_pos_iff, decide_eq_true_eq]

theorem mem_activeVariables {vars : Nat} {views : List ClauseView} {var : Nat} :
    var ∈ activeVariables vars views ↔
      var < vars ∧ ∃ l ∈ literalsOf views, l.var = var := by
  rw [activeVariables, List.mem_filter, List.mem_range, decide_eq_true_eq, VariableCounts.size_pos_iff]

namespace Occurrences

theorem tally_replicate (lits : List Literal) (vars : Nat) :
    tally lits (List.replicate vars 0) =
      (List.range vars).map fun v => ((lits.countP fun l => l.var = v : Nat) : Int) := by
  apply List.ext_getElem
  · simp
  · intro i h h'
    simp [tally]

theorem ofViews_eq (vars : Nat) (views : List ClauseView) :
    ofViews vars views = {
      size := (List.range vars).map fun v => (VariableCounts.ofViews views v).size
      pos := (List.range vars).map fun v => (VariableCounts.ofViews views v).pos
      horn := (List.range vars).map fun v => (VariableCounts.ofViews views v).horn
      hornClauses := views.countP ClauseView.isHorn } := by
  simp only [ofViews, addClauses, zeros, tally_replicate, VariableCounts.ofViews, literalsOf, Int.zero_add]

theorem activeCount_ofViews (vars : Nat) (views : List ClauseView) :
    (ofViews vars views).activeCount = (activeVariables vars views).length := by
  rw [ofViews_eq, activeCount, List.countP_map, activeVariables, ← List.countP_eq_length_filter]
  refine List.countP_congr fun v _ => ?_
  have natural : 0 ≤ (VariableCounts.ofViews views v).size := Int.natCast_nonneg _
  simp only [Function.comp_def, decide_eq_true_eq]
  omega

end Occurrences

namespace VariableRatios

variable [Arithmetic K E]

theorem select_map {A B : Type} (items : List A) (f : A → Int) (g : A → B) :
    select ((items.map f).map fun n => decide (0 < n)) (items.map g) =
      .ok ((items.filter fun a => 0 < f a).map g) := by
  unfold select
  rw [if_pos (by simp)]
  congr 1
  induction items with
  | nil => rfl
  | cons a items ih =>
      simp only [List.map_cons, List.zip_cons_cons, List.filterMap_cons, List.filter_cons, ih]
      split <;> split <;> simp_all

theorem selected_map {A : Type} (items : List A) (f g : A → Int) :
    selected (K := K) ((items.map f).map fun n => decide (0 < n)) (items.map g) =
      (items.filter fun a => 0 < f a).mapM fun a => Arithmetic.toElement (Quantity.ofInt (g a) : K) := by
  rw [selected, select_map, ok_bind, List.mapM_map]
  rfl

variable [Element E]

def ofRows (rows : List VariableCounts) (clauses : K) : Except Failure (VariableRatios E) := do
  let size : List E ← rows.mapM fun r => Arithmetic.toElement (Quantity.ofInt r.size : K)
  let pos : List E ← rows.mapM fun r => Arithmetic.toElement (Quantity.ofInt r.pos : K)
  let horn : List E ← rows.mapM fun r => Arithmetic.toElement (Quantity.ofInt r.horn : K)
  let count : E ← Arithmetic.toElement clauses
  pure {
    density := size.map (· / count)
    polarity := pos.zipWith Ratio.elementPolarity size
    horn := horn.map (· / count) }

/-- The ratios are computed from the rows of active variables. -/
theorem ofOccurrences_ofViews (vars : Nat) (views : List ClauseView) (clauses : K) :
    ofOccurrences (.ofViews vars views) clauses = ofRows (activeRows vars views) clauses := by
  rw [Occurrences.ofViews_eq, ofOccurrences, ofRows, activeRows, activeVariables]
  simp only [Occurrences.active, selected_map, List.mapM_map]
  rfl

end VariableRatios

/-! What the features of the irredundant clauses are computed from. -/

section Core

variable [Element E] [Arithmetic K E] {db db' : Database K} {occ occ' : Occurrences} {eps : K}

/-- Databases with the same counts whose clauses and variables give the same moments have the same
features. -/
theorem Database.core_congr (counted : Occurrences.ofDatabase db = .ok occ)
    (counted' : Occurrences.ofDatabase db' = .ok occ') (active : occ.activeCount = occ'.activeCount)
    (hornClauses : occ.hornClauses = occ'.hornClauses) (irredCount : db.irredCount = db'.irredCount)
    (first : ∀ vars clauses horn : K,
      ClauseMoments.first db vars clauses horn = ClauseMoments.first db' vars clauses horn)
    (second : ∀ (m : ClauseMoments K) (vars clauses : K),
      m.second db vars clauses eps = m.second db' vars clauses eps)
    (varFirst : ∀ vars clauses : K,
      VariableMoments.first occ vars clauses = VariableMoments.first occ' vars clauses)
    (varSecond : ∀ (m : VariableMoments K) (vars clauses : K),
      VariableMoments.second occ m vars clauses eps = VariableMoments.second occ' m vars clauses eps) :
    db.core eps = db'.core eps := by
  simp only [core, counted, counted', ok_bind, active, hornClauses, irredCount, first, second, varFirst,
    varSecond]

/-- Databases with the same traversal and counters, over variables with the same rows of counts, have the
same features. -/
theorem Database.core_eq_of_rows (counted : Occurrences.ofDatabase db = .ok occ)
    (counted' : Occurrences.ofDatabase db' = .ok occ') (active : occ.activeCount = occ'.activeCount)
    (hornClauses : occ.hornClauses = occ'.hornClauses)
    (ratios : ∀ clauses : K,
      VariableRatios.ofOccurrences occ clauses = VariableRatios.ofOccurrences occ' clauses)
    (traversal : db.traversal = db'.traversal)
    (binary : db.inline.irredBinary = db'.inline.irredBinary)
    (ternary : db.inline.irredTernary = db'.inline.irredTernary)
    (irredCount : db.irredCount = db'.irredCount) : db.core eps = db'.core eps := by
  apply core_congr counted counted' active hornClauses irredCount
  · intro vars clauses horn
    rw [ClauseMoments.first, ClauseMoments.first, traversal, binary, ternary]
  · intro m vars clauses
    rw [ClauseMoments.second, ClauseMoments.second, traversal]
  · intro vars clauses
    rw [VariableMoments.first, VariableMoments.first, ratios]
  · intro m vars clauses
    rw [VariableMoments.second, VariableMoments.second, ratios]

end Core

end ClauseFeatures
