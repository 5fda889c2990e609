import ClauseFeatures.Proofs.Conversion
import ClauseFeatures.Proofs.Exact.Summary
import ClauseFeatures.Proofs.Stage

/-!
The populations behind the five summaries, told from the clauses alone: the clauses with their sizes and signs,
and the variables that occur in them with their occurrences. In exact arithmetic the first passes of an
extraction summarise these populations and nothing else.
-/
namespace ClauseFeatures

variable {F : Type} [Field F] [LinearOrder F] {r : Reading F}

/-- The populations that the five summaries are drawn from. -/
structure Populations (r : Reading F) where
  clauseDensity : List (Exact r)
  clausePolarity : List (Exact r)
  varDensity : List (Exact r)
  varPolarity : List (Exact r)
  varHorn : List (Exact r)

namespace Populations

def ofClauses (clauses : List (List Literal)) : Populations r where
  clauseDensity := clauses.map fun clause => (clause.length : Exact r) / (variablesOf clauses).length
  clausePolarity := clauses.map fun clause =>
    ((clause.countP fun l => !l.negated : Nat) : Exact r) / clause.length
  varDensity := (variablesOf clauses).map fun var =>
    (occurrencesIn (fun l => l.var = var) clauses : Exact r) / clauses.length
  varPolarity := (variablesOf clauses).map fun var =>
    (occurrencesIn (fun l => l.var = var && !l.negated) clauses : Exact r) /
      occurrencesIn (fun l => l.var = var) clauses
  varHorn := (variablesOf clauses).map fun var =>
    (occurrencesIn (fun l => l.var = var) (clauses.filter isHornClause) : Exact r) / clauses.length

/-- A relation that each of the five summaries has to its population. -/
structure Each (p : Populations r) (R : Summary (Exact r) → List (Exact r) → Prop)
    (m : ClauseMoments (Exact r)) (n : VariableMoments (Exact r)) : Prop where
  clauseDensity : R m.density p.clauseDensity
  clausePolarity : R m.polarity p.clausePolarity
  varDensity : R n.density p.varDensity
  varPolarity : R n.polarity p.varPolarity
  varHorn : R n.horn p.varHorn

end Populations

/-! Fractions of counts. -/

namespace Exact

variable [IsStrictOrderedRing F] {a b : Nat}

theorem fraction_nonneg (a b : Nat) : (0 : Exact r) ≤ a / b := div_nonneg a.cast_nonneg b.cast_nonneg

theorem fraction_le_one (h : a ≤ b) : (a : Exact r) / b ≤ 1 :=
  div_le_one_of_le₀ (Nat.cast_le.mpr h) b.cast_nonneg

theorem fraction_eq_zero_iff (h : b ≠ 0) : (a : Exact r) / b = 0 ↔ a = 0 := by
  rw [div_eq_zero_iff, Nat.cast_eq_zero, Nat.cast_eq_zero, or_iff_left h]

theorem fraction_eq_one_iff (h : b ≠ 0) : (a : Exact r) / b = 1 ↔ a = b := by
  rw [div_eq_one_iff_eq (Nat.cast_ne_zero.mpr h), Nat.cast_inj]

theorem population_fractions {α : Type} (as : List α) (f g : α → Nat) :
    Population as.length (as.map fun a => (f a : Exact r) / (g a : Exact r)) := by
  refine ⟨List.length_map _, fun x hx => ?_⟩
  obtain ⟨a, -, rfl⟩ := List.mem_map.mp hx
  exact fraction_nonneg (f a) (g a)

/-- The indirect formula gives the fraction of what is not negated. -/
theorem elementPolarity_eq {pos size : Exact r} (h : size ≠ 0) : Ratio.elementPolarity pos size = pos / size := by
  change 1 / 2 + (2 * pos - size) / (2 * size) = pos / size
  field_simp
  ring

section Extremes

variable {α : Type} {as : List α} {f g : α → Nat}

theorem fractions_range (bound : ∀ a ∈ as, f a ≤ g a) :
    ∀ x ∈ as.map (fun a => (f a : Exact r) / (g a : Exact r)), 0 ≤ x ∧ x ≤ 1 := by
  intro x hx
  obtain ⟨a, ha, rfl⟩ := List.mem_map.mp hx
  exact ⟨fraction_nonneg (f a) (g a), fraction_le_one (bound a ha)⟩

variable {s : Summary (Exact r)} (h : s.Describes (as.map fun a => (f a : Exact r) / (g a : Exact r)))
  (nonzero : ∀ a ∈ as, g a ≠ 0)

include h nonzero

theorem min_eq_zero_iff : s.min = 0 ↔ ∃ a ∈ as, f a = 0 := by
  rw [h.min_eq_iff (population_fractions as f g).nonneg, List.mem_map]
  exact exists_congr fun a => and_congr_right fun ha => fraction_eq_zero_iff (nonzero a ha)

theorem max_eq_one_iff (bound : ∀ a ∈ as, f a ≤ g a) : s.max = 1 ↔ ∃ a ∈ as, f a = g a := by
  rw [h.max_eq_iff fun x hx => (fractions_range bound x hx).2, List.mem_map]
  exact exists_congr fun a => and_congr_right fun ha => fraction_eq_one_iff (nonzero a ha)

end Extremes

end Exact

/-- Populations of so many clauses and so many variables. -/
structure Populations.Sized (p : Populations r) (clauses vars : Nat) : Prop where
  clauseDensity : Exact.Population clauses p.clauseDensity
  clausePolarity : Exact.Population clauses p.clausePolarity
  varDensity : Exact.Population vars p.varDensity
  varPolarity : Exact.Population vars p.varPolarity
  varHorn : Exact.Population vars p.varHorn

theorem Populations.sized_ofClauses [IsStrictOrderedRing F] (clauses : List (List Literal)) :
    (ofClauses clauses : Populations r).Sized clauses.length (variablesOf clauses).length where
  clauseDensity := Exact.population_fractions clauses _ _
  clausePolarity := Exact.population_fractions clauses _ _
  varDensity := Exact.population_fractions (variablesOf clauses) _ _
  varPolarity := Exact.population_fractions (variablesOf clauses) _ _
  varHorn := Exact.population_fractions (variablesOf clauses) _ _

/-! The ratios that the stages compute are those of the populations, in the order of the traversal. -/

namespace Database.Holds

open Exact

variable {db : Database (Exact r)} {clauses : List (List Literal)} (h : db.Holds clauses)

include h

theorem clauseDensity_perm : (Populations.ofClauses clauses : Populations r).clauseDensity.Perm
    (db.traversal.views.map (sizeRatio ((variablesOf clauses).length : Exact r))) :=
  h.met.map_perm fun clause v same => by rw [sizeRatio, ClauseView.size, same.length_eq]

theorem varDensity_perm : (Populations.ofClauses clauses : Populations r).varDensity.Perm
    ((activeRows db.vars db.traversal.views).map fun c => (c.size : Exact r) / clauses.length) :=
  h.map_rows_perm fun var _ => by rw [Occurrences.size_eq_occurrencesIn h.met, Int.cast_natCast]

theorem varHorn_perm : (Populations.ofClauses clauses : Populations r).varHorn.Perm
    ((activeRows db.vars db.traversal.views).map fun c => (c.horn : Exact r) / clauses.length) :=
  h.map_rows_perm fun var _ => by rw [Occurrences.horn_eq_occurrencesIn h.met, Int.cast_natCast]

variable [IsStrictOrderedRing F]

theorem clausePolarity_perm : (Populations.ofClauses clauses : Populations r).clausePolarity.Perm
    (db.traversal.views.map polarityRatio) := by
  -- the formula only gives a fraction for a clause with literals, so it is carried over first
  have met : (clauses.map fun clause => Ratio.elementPolarity
      ((clause.countP fun l => !l.negated : Nat) : Exact r) clause.length).Perm
      (db.traversal.views.map polarityRatio) :=
    h.met.map_perm fun clause v same => by
      rw [polarityRatio, ClauseView.size, ClauseView.pos, same.length_eq, same.countP_eq]
  refine List.Perm.trans (.of_eq (List.map_congr_left fun clause hc => ?_)) met
  exact (elementPolarity_eq (Nat.cast_ne_zero.mpr (h.isClause clause hc).length_ne_zero)).symm

theorem varPolarity_perm : (Populations.ofClauses clauses : Populations r).varPolarity.Perm
    ((activeRows db.vars db.traversal.views).map fun c => Ratio.elementPolarity (c.pos : Exact r) c.size) :=
  h.map_rows_perm fun var occurs => by
    rw [Occurrences.size_eq_occurrencesIn h.met, Occurrences.pos_eq_occurrencesIn h.met, Int.cast_natCast,
      Int.cast_natCast, elementPolarity_eq (Nat.cast_ne_zero.mpr (occurrencesIn_ne_zero occurs))]

/-! The first passes. -/

variable (some : clauses ≠ [])

include some

theorem exists_clauseFirst (horn : Exact r) :
    ∃ m, ClauseMoments.first db ((variablesOf clauses).length : Exact r) (clauses.length : Exact r) horn = .ok m ∧
      m.horn = horn / clauses.length ∧
      m.density.Describes (Populations.ofClauses clauses).clauseDensity ∧
      m.polarity.Describes (Populations.ofClauses clauses).clausePolarity := by
  have count : (clauses.length : Exact r) ≠ 0 := length_ne_zero some
  have active : ((variablesOf clauses).length : Exact r) ≠ 0 := length_ne_zero (h.variablesOf_ne_nil some)
  have folded := Regular.fold_addRatios ⟨h.finished, h.sized⟩ ((variablesOf clauses).length : Exact r)
  rw [if_neg active, ← RunningStat.ofList_perm h.clauseDensity_perm,
    ← RunningStat.ofList_perm h.clausePolarity_perm] at folded
  have sized := Populations.sized_ofClauses (r := r) clauses
  have nonzero := mt List.length_eq_zero_iff.mp some
  obtain ⟨density, hdensity, describesDensity⟩ := sized.clauseDensity.exists_describes nonzero
  obtain ⟨polarity, hpolarity, describesPolarity⟩ := sized.clausePolarity.exists_describes nonzero
  rw [ClauseMoments.first, if_neg (by simp [count]), folded, ok_bind, div_eq count, ok_bind, div_eq count,
    ok_bind, div_eq count, ok_bind, hdensity, ok_bind, hpolarity, ok_bind]
  exact ⟨_, rfl, rfl, describesDensity, describesPolarity⟩

theorem exists_varFirst :
    ∃ n, VariableMoments.first (.ofViews db.vars db.traversal.views) ((variablesOf clauses).length : Exact r)
        (clauses.length : Exact r) = .ok n ∧
      n.density.Describes (Populations.ofClauses clauses).varDensity ∧
      n.polarity.Describes (Populations.ofClauses clauses).varPolarity ∧
      n.horn.Describes (Populations.ofClauses clauses).varHorn := by
  have count : (clauses.length : Exact r) ≠ 0 := length_ne_zero some
  have active : ((variablesOf clauses).length : Exact r) ≠ 0 := length_ne_zero (h.variablesOf_ne_nil some)
  have occurring := mt List.length_eq_zero_iff.mp (h.variablesOf_ne_nil some)
  have sized := Populations.sized_ofClauses (r := r) clauses
  obtain ⟨density, hdensity, describesDensity⟩ := sized.varDensity.exists_describes occurring
  obtain ⟨polarity, hpolarity, describesPolarity⟩ := sized.varPolarity.exists_describes occurring
  obtain ⟨horn, hhorn, describesHorn⟩ := sized.varHorn.exists_describes occurring
  rw [VariableMoments.first, if_neg (by simp [count, active]), VariableRatios.ofOccurrences_ofViews, ofRows_eq,
    ok_bind]
  simp only [summaryOf_eq, ← RunningStat.ofList_perm h.varDensity_perm,
    ← RunningStat.ofList_perm h.varPolarity_perm, ← RunningStat.ofList_perm h.varHorn_perm]
  rw [hdensity, ok_bind, hpolarity, ok_bind, hhorn, ok_bind]
  exact ⟨_, rfl, describesDensity, describesPolarity, describesHorn⟩

/-- The first passes over a database with clauses summarise the populations of the clauses. -/
theorem exists_firstStage :
    ∃ m n, FirstStage db (.ofViews db.vars db.traversal.views) m n ∧
      m.horn = (clauses.countP isHornClause : Exact r) / clauses.length ∧
      (Populations.ofClauses clauses).Each Summary.Describes m n := by
  obtain ⟨m, first, horn, density, polarity⟩ := h.exists_clauseFirst some (clauses.countP isHornClause : Exact r)
  obtain ⟨n, varFirst, varDensity, varPolarity, varHorn⟩ := h.exists_varFirst some
  refine ⟨m, n, ⟨h.counted, ?_, ?_⟩, horn, density, polarity, varDensity, varPolarity, varHorn⟩
  · simpa only [ofInt_eq, h.counts.activeCount, h.irredCount, h.counts.hornClauses, Int.cast_natCast] using first
  · simpa only [ofInt_eq, h.counts.activeCount, h.irredCount, Int.cast_natCast] using varFirst

end Database.Holds

/-! Clauses and variables of one sign. -/

section Signs

variable {clauses : List (List Literal)}

theorem occurrencesIn_positive_le (var : Nat) (clauses : List (List Literal)) :
    occurrencesIn (fun l => l.var = var && !l.negated) clauses ≤ occurrencesIn (fun l => l.var = var) clauses := by
  rw [occurrencesIn_eq, occurrencesIn_eq]
  exact List.countP_mono_left fun l _ h => (Bool.and_eq_true_iff.mp h).1

theorem occurrencesIn_positive_eq_zero_iff {var : Nat} :
    occurrencesIn (fun l => l.var = var && !l.negated) clauses = 0 ↔
      ∀ clause ∈ clauses, ∀ l ∈ clause, l.var = var → l.negated = true := by
  rw [occurrencesIn_eq, List.countP_eq_zero, List.forall_mem_flatMap]
  simp only [id, Bool.and_eq_true, decide_eq_true_eq, Bool.not_eq_true', not_and, Bool.not_eq_false]

theorem occurrencesIn_positive_eq_iff {var : Nat} :
    occurrencesIn (fun l => l.var = var && !l.negated) clauses = occurrencesIn (fun l => l.var = var) clauses ↔
      ∀ clause ∈ clauses, ∀ l ∈ clause, l.var = var → l.negated = false := by
  have kept : ((clauses.flatMap id).countP fun l => l.var = var && !l.negated) =
      ((clauses.flatMap id).filter fun l => l.var = var).countP fun l => !l.negated := by
    rw [List.countP_filter]
    exact List.countP_congr fun l _ => by rw [Bool.and_comm]
  have all : ((clauses.flatMap id).countP fun l => l.var = var) =
      ((clauses.flatMap id).filter fun l => l.var = var).length := List.countP_eq_length_filter
  rw [occurrencesIn_eq, occurrencesIn_eq, kept, all, List.countP_eq_length]
  simp only [List.mem_filter, List.mem_flatMap, id, decide_eq_true_eq, Bool.not_eq_true']
  constructor
  · exact fun same clause hc l hl hv => same l ⟨⟨clause, hc, hl⟩, hv⟩
  · rintro same l ⟨⟨clause, hc, hl⟩, hv⟩
    exact same clause hc l hl hv

end Signs

namespace Database

variable {K E : Type} [Element E] [Arithmetic K E] [IsStrictOrderedRing F]

/-- After every run without accepted markers that leaves an irredundant clause, the first passes in exact
arithmetic summarise the accepted clauses and their variables. Polarities lie between zero and one; the ends
are reached exactly by clauses, or variables, of one sign. -/
theorem described_run (vars : Nat) {calls : List (Call K)}
    (unmarked : ∀ a ∈ (empty vars).history calls, a.1.isMarker = false)
    (some : 0 < ((empty vars).run calls).irredCount) (read : K → Exact r) :
    let db := (empty vars).run calls
    let clauses := ((empty vars).history calls).filterMap fun a => a.1.irredundant?
    let p : Populations r := .ofClauses clauses
    ∃ occ m n, FirstStage (db.convert read) occ m n ∧ occ.Counts db.vars clauses ∧
      p.Each Summary.Describes m n ∧
      (∀ x ∈ p.clausePolarity, 0 ≤ x ∧ x ≤ 1) ∧ (∀ x ∈ p.varPolarity, 0 ≤ x ∧ x ≤ 1) ∧
      (m.polarity.min = 0 ↔ ∃ clause ∈ clauses, ∀ l ∈ clause, l.negated = true) ∧
      (m.polarity.max = 1 ↔ ∃ clause ∈ clauses, ∀ l ∈ clause, l.negated = false) ∧
      (n.polarity.min = 0 ↔ ∃ var ∈ variablesOf clauses,
        ∀ clause ∈ clauses, ∀ l ∈ clause, l.var = var → l.negated = true) ∧
      (n.polarity.max = 1 ↔ ∃ var ∈ variablesOf clauses,
        ∀ clause ∈ clauses, ∀ l ∈ clause, l.var = var → l.negated = false) ∧
      0 < m.density.min := by
  intro db clauses p
  have holds : (db.convert read).Holds clauses := (holds_run vars unmarked).convert read
  have populated : clauses ≠ [] := (holds_run vars unmarked).ne_nil some
  obtain ⟨m, n, first, -, described⟩ := holds.exists_firstStage populated
  have sized (clause : List Literal) (hc : clause ∈ clauses) : clause.length ≠ 0 :=
    (holds.isClause clause hc).length_ne_zero
  have occurs (var : Nat) (hv : var ∈ variablesOf clauses) := occurrencesIn_ne_zero hv
  have positive : ∀ x ∈ p.clauseDensity, 0 < x := by
    intro x hx
    obtain ⟨clause, hc, rfl⟩ := List.mem_map.mp hx
    exact div_pos (Nat.cast_pos.mpr (Nat.pos_of_ne_zero (sized clause hc)))
      (Exact.length_pos (holds.variablesOf_ne_nil populated))
  refine ⟨_, m, n, first, holds.counts, described, ?_, ?_, ?_, ?_, ?_, ?_,
    described.clauseDensity.lt_min_iff.mpr positive⟩
  · exact Exact.fractions_range fun clause _ => List.countP_le_length
  · exact Exact.fractions_range fun var _ => occurrencesIn_positive_le var clauses
  · rw [Exact.min_eq_zero_iff described.clausePolarity sized]
    simp only [List.countP_eq_zero, Bool.not_eq_true', Bool.not_eq_false]
  · rw [Exact.max_eq_one_iff described.clausePolarity sized fun _ _ => List.countP_le_length]
    simp only [List.countP_eq_length, Bool.not_eq_true']
  · rw [Exact.min_eq_zero_iff described.varPolarity occurs]
    simp only [occurrencesIn_positive_eq_zero_iff]
  · rw [Exact.max_eq_one_iff described.varPolarity occurs fun var _ => occurrencesIn_positive_le var clauses]
    simp only [occurrencesIn_positive_eq_iff]

/-- A clause without negated literals and one with a single literal that is not negated: no clause has only
negated ones, but a variable does. -/
theorem described_run_mixed :
    let r : Reading Rat := { root := fun a => a, top := 0, bottom := 0, text := fun _ => "" }
    let calls : List (Call Value) := [.addClause { lits := [⟨0⟩, ⟨2⟩], activity := .int 0 },
      .addClause { lits := [⟨1⟩, ⟨3⟩, ⟨5⟩, ⟨6⟩], activity := .int 0 }]
    ∃ occ m n, FirstStage (((empty 4).run calls).convert fun _ => (0 : Exact r)) occ m n ∧
      m.density.mean = 3 / 4 ∧ m.polarity.min ≠ 0 ∧ m.polarity.max = 1 ∧ n.polarity.min = 0 := by
  intro r calls
  have unmarked : ∀ a ∈ (empty 4).history calls, a.1.isMarker = false := by decide +kernel
  have accepted : (((empty 4).history calls).filterMap fun a => a.1.irredundant?) =
      [[⟨0⟩, ⟨2⟩], [⟨1⟩, ⟨3⟩, ⟨5⟩, ⟨6⟩]] := by decide +kernel
  obtain ⟨occ, m, n, first, -, described, -, -, negated, positive, negatedVar, -⟩ :=
    described_run 4 unmarked (by decide +kernel) fun _ => (0 : Exact r)
  rw [accepted] at described negated positive negatedVar
  refine ⟨occ, m, n, first, ?_, ?_, ?_, ?_⟩
  · exact described.clauseDensity.mean.trans (by decide +kernel)
  · exact mt negated.mp (by decide)
  · exact positive.mpr (by decide)
  · exact negatedVar.mpr (by decide)

end Database

end ClauseFeatures
