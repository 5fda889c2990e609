import ClauseFeatures.Proofs.Exact.Population

/-!
The second passes of an extraction in exact arithmetic. Each of them computes every ratio again and combines it
with a mean and a number of members that come from elsewhere. Since these are the mean and the size of the very
population, what is filled in is its coefficient of variation.
-/
namespace ClauseFeatures

variable {F : Type} [Field F] [LinearOrder F] [IsStrictOrderedRing F] {r : Reading F}

namespace Database.Holds

open Exact

variable {db : Database (Exact r)} {clauses : List (List Literal)} (h : db.Holds clauses) (some : clauses ≠ [])
  {m : ClauseMoments (Exact r)} {n : VariableMoments (Exact r)}
  (described : (Populations.ofClauses clauses).Each Summary.Describes m n)
  (roots : r.TakesRoots) {eps : Exact r} (he : 0 ≤ eps)

include h some described he

theorem exists_clauseSecond :
    ∃ m', m.second db ((variablesOf clauses).length : Exact r) (clauses.length : Exact r) eps = .ok m' ∧
      m'.density.Measures eps (Populations.ofClauses clauses).clauseDensity ∧
      m'.polarity.Measures eps (Populations.ofClauses clauses).clausePolarity := by
  have count : (clauses.length : Exact r) ≠ 0 := length_ne_zero some
  have active : ((variablesOf clauses).length : Exact r) ≠ 0 := length_ne_zero (h.variablesOf_ne_nil some)
  have sized := Populations.sized_ofClauses (r := r) clauses
  have folded := Regular.fold_addDeviations ⟨h.finished, h.sized⟩ m active (0, 0)
  rw [zero_add, zero_add, ← squares_perm h.clauseDensity_perm, ← squares_perm h.clausePolarity_perm] at folded
  rw [ClauseMoments.second, if_neg (by simp [count, active]), zero_eq, folded, ok_bind,
    described.clauseDensity.relativeDeviation_eq sized.clauseDensity he, ok_bind,
    described.clausePolarity.relativeDeviation_eq sized.clausePolarity he, ok_bind]
  exact ⟨_, rfl, described.clauseDensity.measures eps, described.clausePolarity.measures eps⟩

theorem exists_varSecond :
    ∃ n', VariableMoments.second (.ofViews db.vars db.traversal.views) n ((variablesOf clauses).length : Exact r)
        (clauses.length : Exact r) eps = .ok n' ∧
      n'.density.Measures eps (Populations.ofClauses clauses).varDensity ∧
      n'.polarity.Measures eps (Populations.ofClauses clauses).varPolarity ∧
      n'.horn.Measures eps (Populations.ofClauses clauses).varHorn := by
  have count : (clauses.length : Exact r) ≠ 0 := length_ne_zero some
  have active : ((variablesOf clauses).length : Exact r) ≠ 0 := length_ne_zero (h.variablesOf_ne_nil some)
  have sized := Populations.sized_ofClauses (r := r) clauses
  rw [VariableMoments.second, if_neg (by simp [count, active]), VariableRatios.ofOccurrences_ofViews, ofRows_eq,
    ok_bind]
  simp only [withDeviation_eq, ← squares_perm h.varDensity_perm, ← squares_perm h.varPolarity_perm,
    ← squares_perm h.varHorn_perm, described.varDensity.relativeDeviation_eq sized.varDensity he,
    described.varPolarity.relativeDeviation_eq sized.varPolarity he,
    described.varHorn.relativeDeviation_eq sized.varHorn he]
  exact ⟨_, rfl, described.varDensity.measures eps, described.varPolarity.measures eps,
    described.varHorn.measures eps⟩

/-- The second passes leave the summaries and fill in the deviations of the populations. -/
theorem exists_measured :
    ∃ m' n', SecondStage db (.ofViews db.vars db.traversal.views) eps m m' n n' ∧
      (Populations.ofClauses clauses).Each (Summary.Measures eps) m' n' := by
  obtain ⟨m', second, density, polarity⟩ := h.exists_clauseSecond some described he
  obtain ⟨n', varSecond, varDensity, varPolarity, varHorn⟩ := h.exists_varSecond some described he
  refine ⟨m', n', ⟨?_, ?_⟩, density, polarity, varDensity, varPolarity, varHorn⟩
  · simpa only [ofInt_eq, h.counts.activeCount, h.irredCount, Int.cast_natCast] using second
  · simpa only [ofInt_eq, h.counts.activeCount, h.irredCount, Int.cast_natCast] using varSecond

include roots in
/-- The second passes fill in the coefficients of variation of the populations. -/
theorem exists_secondStage :
    ∃ m' n', SecondStage db (.ofViews db.vars db.traversal.views) eps m m' n n' ∧
      (Populations.ofClauses clauses).Each (Summary.Deviates eps) m' n' := by
  obtain ⟨m', n', second, measured⟩ := h.exists_measured some described he
  have sized := Populations.sized_ofClauses (r := r) clauses
  exact ⟨m', n', second, measured.clauseDensity.deviates sized.clauseDensity roots he,
    measured.clausePolarity.deviates sized.clausePolarity roots he,
    measured.varDensity.deviates sized.varDensity roots he,
    measured.varPolarity.deviates sized.varPolarity roots he, measured.varHorn.deviates sized.varHorn roots he⟩

omit described in
/-- The summaries of a record measure the populations of the clauses. -/
theorem measured {f : FeatureRecord (Exact r)} (hf : db.core eps = .ok f) :
    ∃ m n, f.Shows m n ∧ (Populations.ofClauses clauses).Each (Summary.Measures eps) m n := by
  obtain ⟨occ, m, n, m', n', first, second, shows⟩ := stages_of_core hf
  obtain ⟨_, _, first', -, described⟩ := h.exists_firstStage some
  obtain ⟨rfl, rfl⟩ := first.unique first'
  cases Except.ok.inj (first.counted.symm.trans first'.counted)
  obtain ⟨_, _, second', measured⟩ := h.exists_measured some described he
  obtain ⟨rfl, rfl⟩ := second.unique second'
  exact ⟨m', n', shows, measured⟩

end Database.Holds

namespace Database

variable {K E : Type} [Element E] [Arithmetic K E]

/-- After every run without accepted markers that leaves an irredundant clause, and with every threshold from
zero on, the second passes in exact arithmetic leave what the first ones have computed and fill in the
coefficients of variation of the populations. -/
theorem deviates_run (vars : Nat) {calls : List (Call K)}
    (unmarked : ∀ a ∈ (empty vars).history calls, a.1.isMarker = false)
    (some : 0 < ((empty vars).run calls).irredCount) (read : K → Exact r) (roots : r.TakesRoots) :
    let db := (empty vars).run calls
    let clauses := ((empty vars).history calls).filterMap fun a => a.1.irredundant?
    ∃ occ m n, FirstStage (db.convert read) occ m n ∧ ∀ eps, 0 ≤ eps →
      ∃ m' n', SecondStage (db.convert read) occ eps m m' n n' ∧ m.Keeps m' ∧ n.Keeps n' ∧
        (Populations.ofClauses clauses).Each (Summary.Deviates eps) m' n' := by
  intro db clauses
  have holds : (db.convert read).Holds clauses := (holds_run vars unmarked).convert read
  have populated : clauses ≠ [] := (holds_run vars unmarked).ne_nil some
  obtain ⟨m, n, first, -, described⟩ := holds.exists_firstStage populated
  refine ⟨_, m, n, first, fun eps he => ?_⟩
  obtain ⟨m', n', second, deviates⟩ := holds.exists_secondStage populated described roots he
  exact ⟨m', n', second, ClauseMoments.second_keeps second.clauseSide,
    VariableMoments.second_keeps second.varSide, deviates⟩

/-- A binary and a quaternary clause over four variables, with roots of real numbers: the sizes over the number
of variables have the mean three quarters and the variance one sixteenth. -/
theorem deviates_run_sqrt :
    let r : Reading ℝ := { root := Real.sqrt, top := 0, bottom := 0, text := fun _ => "" }
    let calls : List (Call Value) := [.addClause { lits := [⟨0⟩, ⟨2⟩], activity := .int 0 },
      .addClause { lits := [⟨1⟩, ⟨3⟩, ⟨5⟩, ⟨6⟩], activity := .int 0 }]
    let db := ((empty 4).run calls).convert fun _ => (0 : Exact r)
    ∃ occ m n m' n', FirstStage db occ m n ∧ SecondStage db occ (1 / 100) m m' n n' ∧
      m'.density.spread = m.density.spread ∧ m'.density.std ≠ 0 ∧
      m'.density.std ^ 2 * (3 / 4) ^ 2 = 1 / 16 := by
  intro r calls db
  have unmarked : ∀ a ∈ (empty 4).history calls, a.1.isMarker = false := by decide +kernel
  have accepted : (((empty 4).history calls).filterMap fun a => a.1.irredundant?) =
      [[⟨0⟩, ⟨2⟩], [⟨1⟩, ⟨3⟩, ⟨5⟩, ⟨6⟩]] := by decide +kernel
  obtain ⟨occ, m, n, first, deviates⟩ :=
    deviates_run 4 unmarked (by decide +kernel) (fun _ => (0 : Exact r)) (Reading.takesRoots_sqrt rfl)
  obtain ⟨m', n', second, kept, -, deviates⟩ := deviates (1 / 100) (by norm_num)
  have active : (variablesOf [[⟨0⟩, ⟨2⟩], [⟨1⟩, ⟨3⟩, ⟨5⟩, ⟨6⟩]]).length = 4 := by decide
  have sizes : (Populations.ofClauses [[⟨0⟩, ⟨2⟩], [⟨1⟩, ⟨3⟩, ⟨5⟩, ⟨6⟩]] : Populations r).clauseDensity =
      [1 / 2, 1] := by
    simp only [Populations.ofClauses, active, List.map_cons, List.map_nil, List.length_cons, List.length_nil]
    norm_num
  have mean : Exact.mean ([1 / 2, 1] : List (Exact r)) = 3 / 4 := by
    norm_num [Exact.mean]
  have deviates := deviates.clauseDensity
  rw [accepted, sizes] at deviates
  have gates : (1 / 100 : Exact r) < Exact.squares (Exact.mean [1 / 2, 1]) [1 / 2, 1] ∧
      (1 / 100 : Exact r) < Exact.mean [1 / 2, 1] := by
    rw [mean]
    norm_num [Exact.squares]
  have nonzero : m'.density.std ≠ 0 := deviates.ne_zero_iff.mpr gates
  have variance := deviates.variance nonzero
  rw [mean] at variance
  refine ⟨occ, m, n, m', n', first, second, kept.density.spread, nonzero, variance.trans ?_⟩
  norm_num

end Database

end ClauseFeatures
