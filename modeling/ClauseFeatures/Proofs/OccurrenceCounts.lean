import Mathlib.Data.List.Dedup
import Mathlib.Data.List.Flatten
import ClauseFeatures.Extractor
import ClauseFeatures.Proofs.ActiveVariables
import ClauseFeatures.Proofs.Correspondence

/-!
The pass over the occurrences counts exactly. What it leaves for each variable is a sum over the accepted
irredundant clauses, as they were given: neither the traversal that finds them nor the order in which they
are met shows in it.
-/
namespace ClauseFeatures

/-- Whether a clause has at most one literal that is not negated. -/
def isHornClause (clause : List Literal) : Bool := decide ((clause.countP fun l => !l.negated) ≤ 1)

/-- How often literals of a kind stand in some clauses, each as often as it stands there. -/
def occurrencesIn (kind : Literal → Bool) : List (List Literal) → Nat
  | [] => 0
  | clause :: clauses => clause.countP kind + occurrencesIn kind clauses

theorem occurrencesIn_eq (kind : Literal → Bool) (clauses : List (List Literal)) :
    occurrencesIn kind clauses = (clauses.flatMap id).countP kind := by
  induction clauses with
  | nil => rfl
  | cons clause clauses ih => rw [occurrencesIn, ih, List.flatMap_cons, List.countP_append, id]

/-- The variables of some clauses, each once. -/
def variablesOf (clauses : List (List Literal)) : List Nat :=
  (clauses.flatMap fun clause => clause.map Literal.var).dedup

theorem mem_variablesOf {clauses : List (List Literal)} {var : Nat} :
    var ∈ variablesOf clauses ↔ ∃ l ∈ clauses.flatMap id, l.var = var := by
  simp only [variablesOf, List.mem_dedup, List.mem_flatMap, List.mem_map, id]
  constructor
  · rintro ⟨clause, hc, l, hl, rfl⟩
    exact ⟨l, ⟨clause, hc, hl⟩, rfl⟩
  · rintro ⟨l, ⟨clause, hc, hl⟩, rfl⟩
    exact ⟨clause, hc, l, hl, rfl⟩

namespace Occurrences

/-- Counts that are exactly those of some clauses over a number of variables. -/
structure Counts (occ : Occurrences) (vars : Nat) (clauses : List (List Literal)) : Prop where
  length_size : occ.size.length = vars
  length_pos : occ.pos.length = vars
  length_horn : occ.horn.length = vars
  size : ∀ var < vars, occ.size[var]? = some ↑(occurrencesIn (fun l => l.var = var) clauses)
  pos : ∀ var < vars,
    occ.pos[var]? = some ↑(occurrencesIn (fun l => l.var = var && !l.negated) clauses)
  horn : ∀ var < vars,
    occ.horn[var]? = some ↑(occurrencesIn (fun l => l.var = var) (clauses.filter isHornClause))
  hornClauses : occ.hornClauses = clauses.countP isHornClause
  pos_le_size : List.Forall₂ (· ≤ ·) occ.pos occ.size
  horn_le_size : List.Forall₂ (· ≤ ·) occ.horn occ.size
  active : ∀ var < vars, occ.active[var]? = some (decide (var ∈ variablesOf clauses))
  activeCount : occ.activeCount = (variablesOf clauses).length

variable {clauses : List (List Literal)} {views : List ClauseView}

theorem isHorn_eq {lits : List Literal} {v : ClauseView} (h : v.lits.Perm lits) :
    isHornClause lits = v.isHorn := by
  rw [isHornClause, ClauseView.isHorn, ClauseView.pos, h.countP_eq]

/-! Views that are met of some clauses have the counts of these clauses. -/

section Views

variable (met : Corresponds (fun lits v => v.lits.Perm lits) clauses views)

include met

theorem literalsOf_perm_flatMap : (clauses.flatMap id).Perm (literalsOf views) :=
  met.flatMap_perm fun _ _ h => h.symm

theorem size_eq_occurrencesIn (var : Nat) : (VariableCounts.ofViews views var).size =
    occurrencesIn (fun l => l.var = var) clauses := by
  rw [VariableCounts.ofViews, occurrencesIn_eq, (literalsOf_perm_flatMap met).countP_eq]

theorem pos_eq_occurrencesIn (var : Nat) : (VariableCounts.ofViews views var).pos =
    occurrencesIn (fun l => l.var = var && !l.negated) clauses := by
  rw [VariableCounts.ofViews, occurrencesIn_eq, (literalsOf_perm_flatMap met).countP_eq,
    List.countP_filter]

theorem horn_eq_occurrencesIn (var : Nat) : (VariableCounts.ofViews views var).horn =
    occurrencesIn (fun l => l.var = var) (clauses.filter isHornClause) := by
  have kept := met.filter fun _ _ h => isHorn_eq h
  rw [VariableCounts.ofViews, occurrencesIn_eq, (literalsOf_perm_flatMap kept).countP_eq]

theorem mem_variablesOf_iff {var : Nat} :
    var ∈ variablesOf clauses ↔ 0 < (VariableCounts.ofViews views var).size := by
  rw [mem_variablesOf, VariableCounts.size_pos_iff]
  simp only [(literalsOf_perm_flatMap met).mem_iff]

theorem activeVariables_perm {vars : Nat} (inside : ∀ v ∈ views, ∀ l ∈ v.lits, l.var < vars) :
    (activeVariables vars views).Perm (variablesOf clauses) := by
  refine (List.perm_ext_iff_of_nodup (nodup_activeVariables vars views) (List.nodup_dedup _)).mpr ?_
  intro var
  change var ∈ activeVariables vars views ↔ var ∈ variablesOf clauses
  rw [mem_variablesOf_iff met, VariableCounts.size_pos_iff, mem_activeVariables]
  constructor
  · exact And.right
  · rintro ⟨l, hl, rfl⟩
    obtain ⟨v, hv, hl'⟩ := List.mem_flatMap.mp hl
    exact ⟨inside v hv l hl', l, hl, rfl⟩

theorem counts_ofViews {vars : Nat} (inside : ∀ v ∈ views, ∀ l ∈ v.lits, l.var < vars) :
    (ofViews vars views).Counts vars clauses where
  length_size := by simp only [ofViews_eq, List.length_map, List.length_range]
  length_pos := by simp only [ofViews_eq, List.length_map, List.length_range]
  length_horn := by simp only [ofViews_eq, List.length_map, List.length_range]
  size var h := by
    rw [ofViews_eq, List.getElem?_map, List.getElem?_range h, ← size_eq_occurrencesIn met]
    rfl
  pos var h := by
    rw [ofViews_eq, List.getElem?_map, List.getElem?_range h, ← pos_eq_occurrencesIn met]
    rfl
  horn var h := by
    rw [ofViews_eq, List.getElem?_map, List.getElem?_range h, ← horn_eq_occurrencesIn met]
    rfl
  hornClauses := by
    rw [ofViews_eq, met.countP_eq fun _ _ h => isHorn_eq h]
  pos_le_size := by
    rw [ofViews_eq, List.forall₂_map_left_iff, List.forall₂_map_right_iff, List.forall₂_same]
    intro var _
    rw [pos_eq_occurrencesIn met, size_eq_occurrencesIn met, occurrencesIn_eq, occurrencesIn_eq]
    refine Int.ofNat_le.mpr (List.countP_mono_left fun l _ h => ?_)
    exact (Bool.and_eq_true _ _ ▸ h).1
  horn_le_size := by
    rw [ofViews_eq, List.forall₂_map_left_iff, List.forall₂_map_right_iff, List.forall₂_same]
    intro var _
    rw [horn_eq_occurrencesIn met, size_eq_occurrencesIn met, occurrencesIn_eq, occurrencesIn_eq]
    exact Int.ofNat_le.mpr (List.Sublist.countP_le (List.filter_sublist.flatMap id))
  active var h := by
    rw [ofViews_eq, active, List.map_map, List.getElem?_map, List.getElem?_range h]
    simp only [Option.map_some, Function.comp_apply, mem_variablesOf_iff met]
  activeCount := by
    rw [activeCount_ofViews, (activeVariables_perm met inside).length_eq]

end Views

end Occurrences

namespace Database

variable {K E : Type} [Arithmetic K E]

/-- After every run without accepted markers the pass succeeds, with exactly the counts of the accepted
irredundant clauses. -/
theorem occurrences_run (vars : Nat) (calls : List (Call K))
    (unmarked : ∀ a ∈ (empty vars).history calls, a.1.isMarker = false) :
    ∃ occ, Occurrences.ofDatabase ((empty vars).run calls) = .ok occ ∧
      occ.Counts ((empty vars).run calls).vars
        (((empty vars).history calls).filterMap fun a => a.1.irredundant?) := by
  refine ⟨_, ofDatabase_run vars unmarked, ?_⟩
  apply Occurrences.counts_ofViews (views_correspond vars unmarked)
  exact (built_run vars calls).views_existing

/-- A clause with both signs of a variable, a learned clause, one that is refused, and a variable left over. -/
theorem occurrences_run_tautology :
    let calls : List (Call Value) :=
      [.addClause { lits := [⟨0⟩, ⟨1⟩, ⟨4⟩, ⟨7⟩], activity := .int 0 },
        .addClause { lits := [⟨2⟩, ⟨4⟩, ⟨1⟩, ⟨7⟩], red := true, activity := .int 0 },
        .addClause { lits := [⟨5⟩, ⟨5⟩], activity := .int 0 },
        .addClause { lits := [⟨5⟩, ⟨0⟩], activity := .int 0 }]
    ∃ occ, Occurrences.ofDatabase ((empty 4).run calls) = .ok occ ∧
      occ.size[0]? = some 3 ∧ occ.pos[0]? = some 2 ∧ occ.horn[0]? = some 1 ∧
      occ.hornClauses = 1 ∧ occ.activeCount = 3 := by
  intro calls
  have unmarked : ∀ a ∈ (empty 4).history calls, a.1.isMarker = false := by decide +kernel
  have accepted : (((empty 4).history calls).filterMap fun a => a.1.irredundant?) =
      [[⟨0⟩, ⟨1⟩, ⟨4⟩, ⟨7⟩], [⟨5⟩, ⟨0⟩]] := by decide +kernel
  have vars : ((empty 4).run calls).vars = 4 := by decide +kernel
  obtain ⟨occ, counted, counts⟩ := occurrences_run 4 calls unmarked
  rw [accepted, vars] at counts
  refine ⟨occ, counted, ?_, ?_, ?_, ?_, ?_⟩
  · exact counts.size 0 (by decide)
  · exact counts.pos 0 (by decide)
  · exact counts.horn 0 (by decide)
  · exact counts.hornClauses
  · exact counts.activeCount

end Database

end ClauseFeatures
