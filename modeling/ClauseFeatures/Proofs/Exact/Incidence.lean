import ClauseFeatures.Proofs.Exact.Population

/-!
What the counting of incidences means for the features in exact arithmetic. Both sides have the same mean
density, since both divide the number of incidences by the number of clauses and that of variables. The densities
of variables are only bounded as far as a variable with both signs in a clause is not counted too often.
-/
namespace ClauseFeatures

variable {F : Type} [Field F] [LinearOrder F] {r : Reading F}

namespace Exact

theorem sum_fractions {α : Type} (as : List α) (f : α → Nat) (n : Exact r) :
    (as.map fun a => (f a : Exact r) / n).sum = ((as.map f).sum : Nat) / n := by
  induction as with
  | nil => simp
  | cons a as ih => rw [List.map_cons, List.sum_cons, ih, List.map_cons, List.sum_cons, Nat.cast_add, add_div]

/-- Clauses and variables share their incidences. -/
theorem mean_density (clauses : List (List Literal)) :
    mean (Populations.ofClauses clauses : Populations r).clauseDensity =
      mean (Populations.ofClauses clauses : Populations r).varDensity := by
  simp only [mean, Populations.ofClauses, sum_fractions, sum_occurrencesIn, List.length_map]
  exact div_right_comm _ _ _

variable [IsStrictOrderedRing F]

theorem fractions_le_iff {α : Type} {as : List α} {f : α → Nat} {n b : Nat} (some : n ≠ 0) :
    (∀ x ∈ as.map fun a => (f a : Exact r) / (n : Exact r), x ≤ (b : Exact r) / (n : Exact r)) ↔
      ∀ a ∈ as, f a ≤ b := by
  have count : (0 : Exact r) < n := Nat.cast_pos.mpr (Nat.pos_of_ne_zero some)
  simp only [List.forall_mem_map, div_le_div_iff_of_pos_right count, Nat.cast_le]

end Exact

namespace Database.Holds

variable [IsStrictOrderedRing F] {db : Database (Exact r)} {clauses : List (List Literal)} (h : db.Holds clauses)

theorem firstStage_of_nil (h : db.Holds []) :
    FirstStage db (.ofViews db.vars db.traversal.views) .zero .zero where
  counted := h.counted
  clauseSide := by simp [ClauseMoments.first, h.irredCount]
  varSide := by simp [VariableMoments.first, h.irredCount]

/-- Without clauses both passes leave all moments at zero. -/
theorem shows_of_nil (h : db.Holds []) {eps : Exact r} {f : FeatureRecord (Exact r)} (hf : db.core eps = .ok f) :
    f.Shows .zero .zero := by
  obtain ⟨occ, m, n, m', n', first, second, shows⟩ := stages_of_core hf
  obtain ⟨rfl, rfl⟩ := first.unique h.firstStage_of_nil
  have clauseSide := second.clauseSide
  have varSide := second.varSide
  rw [ClauseMoments.second, if_pos (by simp [h.irredCount])] at clauseSide
  rw [VariableMoments.second, if_pos (by simp [h.irredCount])] at varSide
  cases clauseSide
  cases varSide
  exact shows

include h

theorem exists_means :
    ∃ m n, FirstStage db (.ofViews db.vars db.traversal.views) m n ∧ m.density.mean = n.density.mean := by
  by_cases some : clauses = []
  · subst some
    exact ⟨_, _, h.firstStage_of_nil, rfl⟩
  · obtain ⟨m, n, first, -, described⟩ := h.exists_firstStage some
    refine ⟨m, n, first, ?_⟩
    rw [described.clauseDensity.mean, described.varDensity.mean, Exact.mean_density]

/-- The densities of variables stay within their bounds exactly if no variable is overcounted. -/
theorem bounds {eps : Exact r} {tier : Number} {f : FeatureRecord (Exact r)}
    (extracted : db.extract eps tier = .ok f) :
    f.horn ≤ 1 ∧ (f.varDensity.max ≤ 1 ↔ ∀ var, ¬ Overcounted var clauses) ∧
      (f.varHorn.max ≤ f.horn ↔ ∀ var, ¬ Overcounted var (clauses.filter isHornClause)) := by
  obtain ⟨occ, m, n, m', n', first, second, shows⟩ := stages_of_extract extracted
  have kept := ClauseMoments.second_keeps second.clauseSide
  have keptVar := VariableMoments.second_keeps second.varSide
  rw [shows.horn, shows.varDensity, shows.varHorn, kept.horn, keptVar.density.max, keptVar.horn.max]
  rw [← forall_not_overcounted (.refl clauses) h.distinct,
    ← forall_not_overcounted List.filter_sublist h.distinct_horn]
  by_cases some : clauses = []
  · subst some
    obtain ⟨rfl, rfl⟩ := first.unique h.firstStage_of_nil
    -- without clauses all maxima are reported as zero, and there is no variable to be counted
    exact ⟨zero_le_one, iff_of_true zero_le_one nofun, iff_of_true (le_refl 0) nofun⟩
  · obtain ⟨_, _, first', horn, described⟩ := h.exists_firstStage some
    obtain ⟨rfl, rfl⟩ := first.unique first'
    have count := mt List.length_eq_zero_iff.mp some
    have one : (1 : Exact r) = clauses.length / clauses.length := (div_self (Nat.cast_ne_zero.mpr count)).symm
    rw [horn, described.varDensity.max_le_iff, described.varHorn.max_le_iff, ← List.countP_eq_length_filter]
    refine ⟨Exact.fraction_le_one List.countP_le_length, ?_, Exact.fractions_le_iff count⟩
    rw [one]
    exact Exact.fractions_le_iff count

end Database.Holds

namespace Database

variable {K E : Type} [Element E] [Arithmetic K E] [IsStrictOrderedRing F] {calls : List (Call K)}

/-- After every run without accepted markers the counts of the variables sum up to those of the clauses that a
traversal meets, and in exact arithmetic clauses and variables have the same mean density. -/
theorem incidences_run (vars : Nat) (unmarked : ∀ a ∈ (empty vars).history calls, a.1.isMarker = false)
    (read : K → Exact r) :
    let db := (empty vars).run calls
    db.traversal.failure = none ∧ ∃ occ m n, Occurrences.ofDatabase db = .ok occ ∧
      occ.Sums db.traversal.views ∧ FirstStage (db.convert read) occ m n ∧ m.density.mean = n.density.mean := by
  intro db
  have holds := holds_run vars unmarked
  obtain ⟨m, n, first, means⟩ := (holds.convert read).exists_means
  have views : (db.convert read).traversal = db.traversal := traversal_convert read db
  rw [views] at first
  exact ⟨holds.finished, _, m, n, holds.counted, Occurrences.sums_ofViews holds.existing, first, means⟩

/-- A clause with both signs of a variable, a learned clause, and a variable left over. -/
theorem incidences_run_tautology :
    let r : Reading Rat := { root := fun a => a, top := 0, bottom := 0, text := fun _ => "" }
    let calls : List (Call Value) :=
      [.addClause { lits := [⟨0⟩, ⟨1⟩, ⟨4⟩, ⟨7⟩], activity := .int 0 },
        .addClause { lits := [⟨2⟩, ⟨4⟩, ⟨1⟩, ⟨7⟩], red := true, activity := .int 0 },
        .addClause { lits := [⟨5⟩, ⟨0⟩], activity := .int 0 }]
    let db := (empty 4).run calls
    ∃ occ m n, occ.size.sum = 6 ∧ occ.pos.sum = 3 ∧ occ.horn.sum = 2 ∧
      FirstStage (db.convert fun _ => (0 : Exact r)) occ m n ∧ m.density.mean = n.density.mean := by
  intro r calls db
  have unmarked : ∀ a ∈ (empty 4).history calls, a.1.isMarker = false := by decide +kernel
  obtain ⟨-, occ, m, n, -, sums, first, means⟩ := incidences_run 4 unmarked fun _ => (0 : Exact r)
  refine ⟨occ, m, n, ?_, ?_, ?_, first, means⟩
  · exact sums.size.trans (by decide +kernel)
  · exact sums.pos.trans (by decide +kernel)
  · exact sums.horn.trans (by decide +kernel)

/-- After every run without accepted markers a variable is counted once for each clause that it is in, and once
more for each that holds both its literals. So its counts, and with them the densities of an extracted record in
exact arithmetic, stay within their bounds exactly if the latter clauses are not more than those without it. -/
theorem bounds_run (vars : Nat) (unmarked : ∀ a ∈ (empty vars).history calls, a.1.isMarker = false)
    (read : K → Exact r) :
    let db := (empty vars).run calls
    let clauses := ((empty vars).history calls).filterMap fun a => a.1.irredundant?
    let horn := clauses.filter isHornClause
    (∃ occ, Occurrences.ofDatabase db = .ok occ ∧ ∀ var < db.vars, ∃ n k : Nat,
      occ.size[var]? = some (n : Int) ∧ n = clauses.countP (mentions var) + clauses.countP (holdsBoth var) ∧
      (n ≤ db.irredCount ↔ ¬ Overcounted var clauses) ∧
      occ.horn[var]? = some (k : Int) ∧ k = horn.countP (mentions var) + horn.countP (holdsBoth var) ∧
      (k ≤ occ.hornClauses ↔ ¬ Overcounted var horn)) ∧
    ∀ eps tier f, (db.convert read).extract eps tier = .ok f →
      f.horn ≤ 1 ∧ (f.varDensity.max ≤ 1 ↔ ∀ var, ¬ Overcounted var clauses) ∧
        (f.varHorn.max ≤ f.horn ↔ ∀ var, ¬ Overcounted var horn) := by
  intro db clauses horn
  have holds : db.Holds clauses := holds_run vars unmarked
  refine ⟨⟨_, holds.counted, fun var existing => ⟨_, _, holds.counts.size var existing,
    occurrencesIn_var holds.distinct var, ?_, holds.counts.horn var existing,
    occurrencesIn_var holds.distinct_horn var, ?_⟩⟩, fun eps tier f => (holds.convert read).bounds⟩
  · rw [holds.irredCount, Int.ofNat_le]
    exact occurrencesIn_le_iff holds.distinct var
  · rw [holds.counts.hornClauses, Int.ofNat_le, List.countP_eq_length_filter]
    exact occurrencesIn_le_iff holds.distinct_horn var

/-- One clause with both signs of a variable, and one other: the variable is counted twice in two clauses. -/
theorem bounds_run_balanced :
    let r : Reading Rat := { root := fun a => a, top := 0, bottom := 0, text := fun _ => "" }
    let calls : List (Call Value) := [.addClause { lits := [⟨0⟩, ⟨1⟩], activity := .int 0 },
      .addClause { lits := [⟨3⟩, ⟨4⟩], activity := .int 0 }]
    let db := (empty 3).run calls
    (∃ occ, Occurrences.ofDatabase db = .ok occ ∧ occ.size[0]? = some 2 ∧ 2 ≤ db.irredCount) ∧
      ∃ f, (db.convert fun _ => (1 : Exact r)).extract (1 / 100 : Rat) (.int 0) = .ok f ∧
        f.varDensity.max ≤ 1 ∧ f.varHorn.max ≤ f.horn := by
  intro r calls db
  have unmarked : ∀ a ∈ (empty 3).history calls, a.1.isMarker = false := by decide +kernel
  have accepted : (((empty 3).history calls).filterMap fun a => a.1.irredundant?) =
      [[⟨0⟩, ⟨1⟩], [⟨3⟩, ⟨4⟩]] := by decide +kernel
  have balanced : ∀ var, ¬ Overcounted var [[⟨0⟩, ⟨1⟩], [⟨3⟩, ⟨4⟩]] :=
    (forall_not_overcounted (.refl _) (by decide)).mp (by decide)
  obtain ⟨f, extracted⟩ : ∃ f, (db.convert fun _ => (1 : Exact r)).extract (1 / 100 : Rat) (.int 0) = .ok f :=
    exists_ok_of_isSome (by decide +kernel)
  obtain ⟨⟨occ, counted, counts⟩, bounds⟩ := bounds_run 3 unmarked fun _ => (1 : Exact r)
  rw [accepted] at counts bounds
  obtain ⟨-, density, horn⟩ := bounds _ _ f extracted
  obtain ⟨n, k, size, rfl, bound, -⟩ := counts 0 (by decide +kernel)
  exact ⟨⟨occ, counted, size, bound.mpr (balanced 0)⟩, f, extracted, density.mpr balanced, horn.mpr balanced⟩

/-- One clause with both signs of a variable and nothing else: the variable is counted twice in one clause, and
its densities in the record are two. -/
theorem not_bounded_tautology :
    let r : Reading Rat := { root := fun a => a, top := 0, bottom := 0, text := fun _ => "" }
    let calls : List (Call Value) := [.addClause { lits := [⟨0⟩, ⟨1⟩], activity := .int 0 }]
    let db := (empty 1).run calls
    (∀ a ∈ (empty 1).history calls, a.1.isMarker = false) ∧
      (∃ occ, Occurrences.ofDatabase db = .ok occ ∧ occ.size[0]? = some 2 ∧ ¬ 2 ≤ db.irredCount ∧
        occ.horn[0]? = some 2 ∧ ¬ 2 ≤ occ.hornClauses) ∧
      ∃ f, (db.convert fun _ => (1 : Exact r)).extract (1 / 100 : Rat) (.int 0) = .ok f ∧
        ¬ f.varDensity.max ≤ 1 ∧ ¬ f.varHorn.max ≤ f.horn := by
  intro r calls db
  have unmarked : ∀ a ∈ (empty 1).history calls, a.1.isMarker = false := by decide +kernel
  have counted : Occurrences.ofDatabase db = .ok ⟨[2], [1], [2], 1⟩ := by decide +kernel
  obtain ⟨f, extracted⟩ : ∃ f, (db.convert fun _ => (1 : Exact r)).extract (1 / 100 : Rat) (.int 0) = .ok f :=
    exists_ok_of_isSome (by decide +kernel)
  have shown : ((db.convert fun _ => (1 : Exact r)).extract (1 / 100 : Rat) (.int 0)).map
      (fun f => (f.varDensity.max, f.varHorn.max, f.horn)) = .ok (2, 2, 1) := by decide +kernel
  rw [extracted] at shown
  obtain ⟨density, rest⟩ := Prod.mk.inj (Except.ok.inj shown)
  obtain ⟨horn, fraction⟩ := Prod.mk.inj rest
  refine ⟨unmarked, ⟨_, counted, rfl, by decide +kernel, rfl, by decide⟩, f, extracted, ?_, ?_⟩
  · rw [density]
    decide +kernel
  · rw [horn, fraction]
    decide +kernel

end Database

end ClauseFeatures
