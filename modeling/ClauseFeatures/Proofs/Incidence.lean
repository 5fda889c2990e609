import Mathlib.Algebra.BigOperators.Ring.Finset
import ClauseFeatures.Proofs.LiteralOrder
import ClauseFeatures.Proofs.OccurrenceCounts

/-!
Incidences of variables and clauses. Each literal of a clause is counted on exactly one variable, so what is
summed over the variables is what is summed over the clauses. On one clause a variable is counted once for each
of its two literals: the count is that of the clauses with the variable, and once more that of the clauses
which hold it with both signs.
-/
namespace ClauseFeatures

namespace Literal

def positive (var : Nat) : Literal := ⟨2 * var⟩

def negative (var : Nat) : Literal := ⟨2 * var + 1⟩

theorem var_eq_iff {l : Literal} {var : Nat} : l.var = var ↔ l = positive var ∨ l = negative var := by
  simp only [eq_iff_code, positive, negative, Literal.var]
  omega

theorem positive_ne_negative (var : Nat) : positive var ≠ negative var := by
  simp only [ne_eq, eq_iff_code, positive, negative]
  omega

end Literal

theorem IsClause.length_ne_zero {clause : List Literal} {vars : Nat} (h : IsClause clause vars) :
    clause.length ≠ 0 := by
  have := h.size
  omega

def mentions (var : Nat) (clause : List Literal) : Bool := clause.any fun l => l.var = var

def holdsBoth (var : Nat) (clause : List Literal) : Bool :=
  clause.contains (.positive var) && clause.contains (.negative var)

/-- More clauses hold a variable with both signs than there are clauses without it. -/
def Overcounted (var : Nat) (clauses : List (List Literal)) : Prop :=
  (clauses.countP fun clause => !mentions var clause) < clauses.countP (holdsBoth var)

theorem mentions_eq (var : Nat) (clause : List Literal) :
    mentions var clause = (clause.contains (.positive var) || clause.contains (.negative var)) := by
  rw [Bool.eq_iff_iff]
  simp only [mentions, List.any_eq_true, decide_eq_true_eq, Literal.var_eq_iff, Bool.or_eq_true,
    List.contains_iff_mem, and_or_left, exists_or, exists_eq_right]

/-! The occurrences of one variable. -/

theorem countP_var (var : Nat) (clause : List Literal) :
    (clause.countP fun l => l.var = var) =
      clause.count (.positive var) + clause.count (.negative var) := by
  induction clause with
  | nil => rfl
  | cons l ls ih =>
      have apart := Literal.positive_ne_negative var
      rw [List.countP_cons, ih, List.count_cons, List.count_cons]
      simp only [decide_eq_true_eq, Literal.var_eq_iff, beq_iff_eq]
      by_cases positive : l = .positive var
      · simp only [positive, apart, true_or, ite_true, ite_false]
        omega
      · simp only [positive, false_or, ite_false]
        omega

/-- Without repeated literals a variable is counted once in a clause, or twice with both signs. -/
theorem countP_var_of_nodup {clause : List Literal} (distinct : clause.Nodup) (var : Nat) :
    (clause.countP fun l => l.var = var) = (mentions var clause).toNat + (holdsBoth var clause).toNat := by
  have once (l : Literal) : clause.count l = (clause.contains l).toNat := by
    rw [distinct.count]
    by_cases held : l ∈ clause <;> simp [held]
  rw [countP_var, once, once, mentions_eq, holdsBoth]
  cases clause.contains (.positive var) <;> cases clause.contains (.negative var) <;> rfl

section Clauses

variable {clauses : List (List Literal)} (distinct : ∀ clause ∈ clauses, clause.Nodup)

include distinct

theorem occurrencesIn_var (var : Nat) : occurrencesIn (fun l => l.var = var) clauses =
    clauses.countP (mentions var) + clauses.countP (holdsBoth var) := by
  induction clauses with
  | nil => rfl
  | cons clause clauses ih =>
      rw [occurrencesIn, ih fun c hc => distinct c (List.mem_cons_of_mem clause hc),
        countP_var_of_nodup (distinct clause List.mem_cons_self), List.countP_cons, List.countP_cons]
      cases mentions var clause <;> cases holdsBoth var clause <;> simp <;> omega

theorem occurrencesIn_le_iff (var : Nat) :
    occurrencesIn (fun l => l.var = var) clauses ≤ clauses.length ↔ ¬ Overcounted var clauses := by
  have all : clauses.length = clauses.countP (mentions var) + clauses.countP fun c => !mentions var c := by
    rw [List.length_eq_countP_add_countP (mentions var)]
    simp only [Bool.not_eq_true, Bool.decide_eq_false]
  rw [occurrencesIn_var distinct, Overcounted]
  omega

end Clauses

theorem occurrencesIn_ne_zero {clauses : List (List Literal)} {var : Nat} (occurs : var ∈ variablesOf clauses) :
    occurrencesIn (fun l => l.var = var) clauses ≠ 0 := by
  obtain ⟨l, hl, rfl⟩ := mem_variablesOf.mp occurs
  rw [occurrencesIn_eq, ← Nat.pos_iff_ne_zero, List.countP_pos_iff]
  exact ⟨l, hl, decide_eq_true rfl⟩

theorem occurrencesIn_eq_zero {clauses kept : List (List Literal)} (sub : kept.Sublist clauses) {var : Nat}
    (absent : var ∉ variablesOf clauses) : occurrencesIn (fun l => l.var = var) kept = 0 := by
  rw [occurrencesIn_eq, List.countP_eq_zero]
  intro l hl hv
  exact absent (mem_variablesOf.mpr ⟨l, (sub.flatMap id).subset hl, of_decide_eq_true hv⟩)

/-- Among some of the clauses, only variables of the clauses can be overcounted. -/
theorem forall_not_overcounted {clauses kept : List (List Literal)} (sub : kept.Sublist clauses)
    (distinct : ∀ clause ∈ kept, clause.Nodup) :
    (∀ var ∈ variablesOf clauses, occurrencesIn (fun l => l.var = var) kept ≤ kept.length) ↔
      ∀ var, ¬ Overcounted var kept := by
  simp only [← occurrencesIn_le_iff distinct]
  refine ⟨fun bounded var => ?_, fun bounded var _ => bounded var⟩
  by_cases occurs : var ∈ variablesOf clauses
  · exact bounded var occurs
  · rw [occurrencesIn_eq_zero sub occurs]
    exact Nat.zero_le _

/-! Sums over all variables. -/

/-- The literals of some clauses are as many as are counted on their variables together. -/
theorem sum_occurrencesIn (clauses : List (List Literal)) :
    ((variablesOf clauses).map fun var => occurrencesIn (fun l => l.var = var) clauses).sum =
      (clauses.map List.length).sum := by
  have counted (var : Nat) : occurrencesIn (fun l => l.var = var) clauses =
      (clauses.flatMap fun clause => clause.map Literal.var).count var := by
    rw [← List.map_flatMap, List.count_eq_countP, List.countP_map, occurrencesIn_eq]
    rfl
  simp only [counted]
  refine (List.sum_map_count_dedup_eq_length _).trans ?_
  simp only [List.length_flatMap, List.length_map]

/-- Literals of existing variables are as many as are counted on all variables together. -/
theorem sum_countP_var {vars : Nat} {lits : List Literal} (existing : ∀ l ∈ lits, l.var < vars) :
    ((List.range vars).map fun v => lits.countP fun l => l.var = v).sum = lits.length := by
  have inside : ∀ v ∈ (lits.map Literal.var : Multiset Nat), v ∈ Finset.range vars := by
    intro v hv
    obtain ⟨l, hl, rfl⟩ := List.mem_map.mp (Multiset.mem_coe.mp hv)
    exact Finset.mem_range.mpr (existing l hl)
  have counted (v : Nat) : (lits.countP fun l => l.var = v) = (lits.map Literal.var).count v := by
    rw [List.count_eq_countP, List.countP_map]
    rfl
  have total := Multiset.sum_count_eq_card inside
  simp only [Multiset.coe_count, Multiset.coe_card, List.length_map] at total
  simp only [counted]
  exact total

namespace Occurrences

/-- Counts whose sums over the variables are those of some clauses over their literals. -/
structure Sums (occ : Occurrences) (views : List ClauseView) : Prop where
  size : occ.size.sum = (views.map ClauseView.size).sum
  pos : occ.pos.sum = (views.map ClauseView.pos).sum
  horn : occ.horn.sum = ((views.filter ClauseView.isHorn).map ClauseView.size).sum

theorem length_literalsOf (views : List ClauseView) :
    (literalsOf views).length = (views.map ClauseView.size).sum := List.length_flatMap

theorem length_positiveLiterals (views : List ClauseView) :
    ((literalsOf views).filter fun l => !l.negated).length = (views.map ClauseView.pos).sum := by
  rw [← List.countP_eq_length_filter, literalsOf, List.countP_flatMap]
  rfl

theorem sum_counts {vars : Nat} {lits : List Literal} (existing : ∀ l ∈ lits, l.var < vars) :
    ((List.range vars).map fun v => ((lits.countP fun l => l.var = v : Nat) : Int)).sum = lits.length := by
  rw [← sum_countP_var existing, Nat.cast_list_sum, List.map_map]
  rfl

theorem sums_ofViews {vars : Nat} {views : List ClauseView}
    (existing : ∀ v ∈ views, ∀ l ∈ v.lits, l.var < vars) : (ofViews vars views).Sums views := by
  have inside : ∀ l ∈ literalsOf views, l.var < vars := by
    intro l hl
    obtain ⟨v, hv, hl⟩ := List.mem_flatMap.mp hl
    exact existing v hv l hl
  refine ⟨?_, ?_, ?_⟩
  · rw [ofViews_eq, ← length_literalsOf]
    exact sum_counts inside
  · rw [ofViews_eq, ← length_positiveLiterals]
    exact sum_counts fun l hl => inside l (List.mem_of_mem_filter hl)
  · rw [ofViews_eq, ← length_literalsOf]
    exact sum_counts fun l hl => inside l (mem_literalsOf_of_filter hl)

end Occurrences

/-! Databases. -/

namespace Database

variable {K E : Type}

/-- A database that holds some irredundant clauses: these are counted, and a traversal meets each of them once,
with its literals in some order. -/
structure Holds (db : Database K) (clauses : List (List Literal)) : Prop where
  finished : db.traversal.failure = none
  met : Corresponds (fun lits v => v.lits.Perm lits) clauses db.traversal.views
  irredCount : db.irredCount = clauses.length
  isClause : ∀ clause ∈ clauses, IsClause clause db.vars

theorem holds_run [Element E] [Arithmetic K E] (vars : Nat) {calls : List (Call K)}
    (unmarked : ∀ a ∈ (empty vars).history calls, a.1.isMarker = false) :
    ((empty vars).run calls).Holds (((empty vars).history calls).filterMap fun a => a.1.irredundant?) := by
  have met : ((empty vars).run calls).Met := met_run vars unmarked
  have views := views_correspond vars unmarked
  exact ⟨met.finished, views, by rw [irredCount_eq_length met, views.length_eq], isClause_history vars calls⟩

namespace Holds

variable {db : Database K} {clauses : List (List Literal)} (h : db.Holds clauses)

include h

theorem distinct : ∀ clause ∈ clauses, clause.Nodup := fun clause hc => (h.isClause clause hc).distinct

theorem distinct_horn : ∀ clause ∈ clauses.filter isHornClause, clause.Nodup :=
  fun clause hc => h.distinct clause (List.mem_of_mem_filter hc)

theorem existing : ∀ v ∈ db.traversal.views, ∀ l ∈ v.lits, l.var < db.vars := by
  intro v hv l hl
  have literal : l ∈ clauses.flatMap id :=
    (Occurrences.literalsOf_perm_flatMap h.met).mem_iff.mpr (List.mem_flatMap.mpr ⟨v, hv, hl⟩)
  obtain ⟨clause, hc, hl⟩ := List.mem_flatMap.mp literal
  exact (h.isClause clause hc).existing l hl

theorem sized : ∀ v ∈ db.traversal.views, v.size ≠ 0 := by
  intro v hv
  have sizes : (clauses.map List.length).Perm (db.traversal.views.map ClauseView.size) :=
    h.met.map_perm fun _ _ same => same.length_eq.symm
  obtain ⟨clause, hc, size⟩ := List.mem_map.mp (sizes.mem_iff.mpr (List.mem_map_of_mem hv))
  exact size ▸ (h.isClause clause hc).length_ne_zero

theorem ne_nil (some : 0 < db.irredCount) : clauses ≠ [] := by
  rintro rfl
  rw [h.irredCount] at some
  exact lt_irrefl _ some

theorem variablesOf_ne_nil (some : clauses ≠ []) : variablesOf clauses ≠ [] := by
  obtain ⟨clause, hc⟩ := List.exists_mem_of_ne_nil clauses some
  obtain ⟨l, hl⟩ := List.exists_mem_of_length_pos (Nat.pos_of_ne_zero (h.isClause clause hc).length_ne_zero)
  exact List.ne_nil_of_mem (mem_variablesOf.mpr ⟨l, List.mem_flatMap.mpr ⟨clause, hc, hl⟩, rfl⟩)

theorem counted : Occurrences.ofDatabase db = .ok (.ofViews db.vars db.traversal.views) := by
  rw [Occurrences.ofDatabase_eq h.existing, h.finished]
  rfl

theorem counts : (Occurrences.ofViews db.vars db.traversal.views).Counts db.vars clauses :=
  Occurrences.counts_ofViews h.met h.existing

/-- What is computed from the rows of active variables is computed for the variables of the clauses. -/
theorem map_rows_perm {α : Type} {f : VariableCounts → α} {g : Nat → α}
    (same : ∀ var ∈ variablesOf clauses, g var = f (.ofViews db.traversal.views var)) :
    ((variablesOf clauses).map g).Perm ((activeRows db.vars db.traversal.views).map f) := by
  rw [activeRows, List.map_map, List.map_congr_left same]
  exact ((Occurrences.activeVariables_perm h.met h.existing).map _).symm

end Holds

end Database

end ClauseFeatures
