import Mathlib
import ClauseFeatures.Proofs.ActiveVariables
import ClauseFeatures.Proofs.Correspondence
import ClauseFeatures.Proofs.Exact.Statistic

/-!
Both passes over clauses and variables in exact arithmetic, in closed form. Each stage sees its population as
a list of ratios, of which only the statistic and the sum of squared deviations count; so populations that are
the same in another order have the same moments, and no stage fails.
-/
namespace ClauseFeatures

theorem Traversal.fold_of_finished {S : Type} {t : Traversal} (h : t.failure = none)
    (step : S → ClauseView → Except Failure S) (s : S) : t.fold step s = t.views.foldlM step s := by
  rw [fold, h]
  cases t.views.foldlM step s <;> rfl

namespace Exact

variable {F : Type} [Field F] {r : Reading F}

/-- The sum of the squared deviations of some numbers from a mean. -/
def squares (mean : Exact r) (xs : List (Exact r)) : Exact r :=
  (xs.map fun x => (mean - x) * (mean - x)).sum

theorem squares_perm {mean : Exact r} {xs ys : List (Exact r)} (h : xs.Perm ys) :
    squares mean xs = squares mean ys := (h.map _).sum_eq

/-! Clauses. -/

def sizeRatio (vars : Exact r) (v : ClauseView) : Exact r := v.size / vars

theorem sizeRatio_perm {vs ws : List ClauseView}
    (same : Corresponds (fun v w => v.size = w.size ∧ v.pos = w.pos) vs ws) (vars : Exact r) :
    (vs.map (sizeRatio vars)).Perm (ws.map (sizeRatio vars)) :=
  same.map_perm fun v w hvw => by rw [sizeRatio, sizeRatio, hvw.1]

variable [LinearOrder F]

def polarityRatio (v : ClauseView) : Exact r := Ratio.elementPolarity (v.pos : Exact r) v.size

theorem polarityRatio_perm {vs ws : List ClauseView}
    (same : Corresponds (fun v w => v.size = w.size ∧ v.pos = w.pos) vs ws) :
    (vs.map (polarityRatio (r := r))).Perm (ws.map polarityRatio) :=
  same.map_perm fun v w hvw => by rw [polarityRatio, polarityRatio, hvw.1, hvw.2]

section Clauses

variable {vars : Exact r} {v : ClauseView} {views : List ClauseView}

theorem densityOf_eq (hv : vars ≠ 0) (v : ClauseView) :
    ClauseMoments.densityOf v vars = .ok (sizeRatio vars v) := by
  rw [ClauseMoments.densityOf, div_eq hv, ofInt_eq, Int.cast_natCast]
  rfl

variable [IsStrictOrderedRing F]

theorem polarityOf_eq (h : v.size ≠ 0) :
    ClauseMoments.polarityOf v = .ok (polarityRatio v : Exact r) := by
  have size : (2 * (v.size : Exact r)) ≠ 0 := mul_ne_zero two_ne_zero (Nat.cast_ne_zero.mpr h)
  rw [ClauseMoments.polarityOf, ofInt_eq, ofInt_eq, Int.cast_natCast, Int.cast_natCast,
    Ratio.polarity_eq _ size]
  rfl

theorem addRatios_ofList (hv : vars ≠ 0) (h : v.size ≠ 0) (xs ys : List (Exact r)) :
    ClauseMoments.addRatios vars (.ofList xs, .ofList ys) v =
      .ok (.ofList (xs ++ [sizeRatio vars v]), .ofList (ys ++ [polarityRatio v])) := by
  rw [ClauseMoments.addRatios, if_neg (by simp [h, hv]), densityOf_eq hv, ok_bind,
    RunningStat.add_ofList, polarityOf_eq h]
  simp only [ok_bind, RunningStat.add_ofList]
  rfl

theorem foldlM_addRatios (hv : vars ≠ 0) (sized : ∀ v ∈ views, v.size ≠ 0) (xs ys : List (Exact r)) :
    views.foldlM (ClauseMoments.addRatios vars) (.ofList xs, .ofList ys) =
      .ok (.ofList (xs ++ views.map (sizeRatio vars)), .ofList (ys ++ views.map polarityRatio)) := by
  induction views generalizing xs ys with
  | nil => rw [List.map_nil, List.map_nil, List.append_nil, List.append_nil]; rfl
  | cons v views ih =>
      rw [List.foldlM_cons, addRatios_ofList hv (sized v List.mem_cons_self), ok_bind,
        ih fun w hw => sized w (List.mem_cons_of_mem v hw), List.append_assoc, List.append_assoc]
      rfl

theorem addDeviations_eq (m : ClauseMoments (Exact r)) (hv : vars ≠ 0) (h : v.size ≠ 0)
    (sums : Exact r × Exact r) :
    m.addDeviations vars sums v = .ok (sums.1 + squares m.density.mean [sizeRatio vars v],
      sums.2 + squares m.polarity.mean [polarityRatio v]) := by
  rw [ClauseMoments.addDeviations, if_neg h, densityOf_eq hv, ok_bind, polarityOf_eq h]
  simp only [ClauseMoments.addSquare, sub_eq, square_eq, add_eq, ok_bind, squares, List.map_cons,
    List.map_nil, List.sum_singleton]
  rfl

theorem foldlM_addDeviations (m : ClauseMoments (Exact r)) (hv : vars ≠ 0)
    (sized : ∀ v ∈ views, v.size ≠ 0) (sums : Exact r × Exact r) :
    views.foldlM (m.addDeviations vars) sums =
      .ok (sums.1 + squares m.density.mean (views.map (sizeRatio vars)),
        sums.2 + squares m.polarity.mean (views.map polarityRatio)) := by
  induction views generalizing sums with
  | nil => simp [squares, pure, Except.pure]
  | cons v views ih =>
      rw [List.foldlM_cons, addDeviations_eq m hv (sized v List.mem_cons_self), ok_bind,
        ih fun w hw => sized w (List.mem_cons_of_mem v hw)]
      simp only [squares, List.map_cons, List.map_nil, List.sum_cons, List.sum_nil, add_zero, add_assoc]

/-! Databases. -/

/-- A database whose traversal meets no failure and no clause without literals. -/
structure Regular (db : Database (Exact r)) : Prop where
  finished : db.traversal.failure = none
  sized : ∀ v ∈ db.traversal.views, v.size ≠ 0

variable {db db' : Database (Exact r)}

/-- The statistics of the first pass; without variables there are no ratios. -/
theorem Regular.fold_addRatios (h : Regular db) (vars : Exact r) :
    db.traversal.fold (ClauseMoments.addRatios vars) (.empty, .empty) =
      .ok (if vars = 0 then (.empty, .empty) else
        (.ofList (db.traversal.views.map (sizeRatio vars)), .ofList (db.traversal.views.map polarityRatio))) := by
  rw [Traversal.fold_of_finished h.finished]
  by_cases hv : vars = 0
  · have skipped (views : List ClauseView) :
        views.foldlM (ClauseMoments.addRatios vars) (.empty, .empty) = .ok (.empty, .empty) := by
      induction views with
      | nil => rfl
      | cons v views ih => rw [List.foldlM_cons, ClauseMoments.addRatios, if_pos (by simp [hv]), ok_bind, ih]
    rw [skipped, if_pos hv]
  · rw [if_neg hv]
    exact foldlM_addRatios hv h.sized [] []

/-- The sums of the second pass. -/
theorem Regular.fold_addDeviations (h : Regular db) (m : ClauseMoments (Exact r)) (hv : vars ≠ 0)
    (sums : Exact r × Exact r) :
    db.traversal.fold (m.addDeviations vars) sums =
      .ok (sums.1 + squares m.density.mean (db.traversal.views.map (sizeRatio vars)),
        sums.2 + squares m.polarity.mean (db.traversal.views.map polarityRatio)) := by
  rw [Traversal.fold_of_finished h.finished, foldlM_addDeviations m hv h.sized]

section Congruence

variable (h : Regular db) (h' : Regular db')
  (same : Corresponds (fun v w => v.size = w.size ∧ v.pos = w.pos) db.traversal.views db'.traversal.views)

include h h' same

/-- Clauses of the same sizes and polarities have the same first moments in every order. -/
theorem first_congr (binary : db.inline.irredBinary = db'.inline.irredBinary)
    (ternary : db.inline.irredTernary = db'.inline.irredTernary) (vars clauses horn : Exact r) :
    ClauseMoments.first db vars clauses horn = ClauseMoments.first db' vars clauses horn := by
  rw [ClauseMoments.first, ClauseMoments.first, h.fold_addRatios, h'.fold_addRatios, binary, ternary,
    RunningStat.ofList_perm (sizeRatio_perm same vars), RunningStat.ofList_perm (polarityRatio_perm same)]

/-- Clauses of the same sizes and polarities have the same deviations in every order. -/
theorem second_congr (m : ClauseMoments (Exact r)) (vars clauses eps : Exact r) :
    m.second db vars clauses eps = m.second db' vars clauses eps := by
  by_cases hv : vars = 0
  · rw [ClauseMoments.second, ClauseMoments.second, if_pos (by simp [hv]), if_pos (by simp [hv])]
  · rw [ClauseMoments.second, ClauseMoments.second, h.fold_addDeviations m hv, h'.fold_addDeviations m hv,
      squares_perm (sizeRatio_perm same vars), squares_perm (polarityRatio_perm same)]

end Congruence

theorem exists_first (h : Regular db) (vars clauses horn : Exact r) :
    ∃ m, ClauseMoments.first db vars clauses horn = .ok m := by
  by_cases hc : clauses = 0
  · exact ⟨.zero, if_pos (by simp [hc])⟩
  · obtain ⟨stats, folded⟩ : ∃ stats, db.traversal.fold (ClauseMoments.addRatios vars) (.empty, .empty) =
        .ok stats := ⟨_, h.fold_addRatios vars⟩
    obtain ⟨density, summarised⟩ := RunningStat.exists_summary stats.1 clauses
    obtain ⟨polarity, summarised'⟩ := RunningStat.exists_summary stats.2 clauses
    rw [ClauseMoments.first, if_neg (by simp [hc]), folded, ok_bind, div_eq hc, ok_bind, div_eq hc, ok_bind,
      div_eq hc, ok_bind, summarised, ok_bind, summarised', ok_bind]
    exact ⟨_, rfl⟩

theorem exists_second (h : Regular db) (m : ClauseMoments (Exact r)) (vars clauses : Exact r)
    {eps : Exact r} (he : 0 ≤ eps) : ∃ n, m.second db vars clauses eps = .ok n := by
  by_cases none : clauses = 0 ∨ vars = 0
  · exact ⟨m, if_pos (by simpa using none)⟩
  · rw [ClauseMoments.second, if_neg (by simpa using none),
      h.fold_addDeviations m fun hv => none (.inr hv), ok_bind, Ratio.relativeDeviation_eq he, ok_bind,
      Ratio.relativeDeviation_eq he, ok_bind]
    exact ⟨_, rfl⟩

end Clauses

/-! Variables. -/

section Variables

theorem mapM_ok {α β : Type} (f : α → β) (as : List α) :
    as.mapM (fun a => (.ok (f a) : Except Failure β)) = .ok (as.map f) := by
  induction as with
  | nil => rfl
  | cons a as ih => rw [List.mapM_cons, ih]; rfl

/-- The ratios of rows of counts. -/
theorem ofRows_eq (rows : List VariableCounts) (clauses : Exact r) :
    VariableRatios.ofRows rows clauses = .ok {
      density := rows.map fun c => (c.size : Exact r) / clauses
      polarity := rows.map fun c => Ratio.elementPolarity (c.pos : Exact r) c.size
      horn := rows.map fun c => (c.horn : Exact r) / clauses } := by
  have zipped : List.zipWith Ratio.elementPolarity (rows.map fun c => (c.pos : Exact r))
      (rows.map fun c => (c.size : Exact r)) =
      rows.map fun c => Ratio.elementPolarity (c.pos : Exact r) c.size := by
    rw [List.zipWith_map, List.zipWith_self]
  simp only [VariableRatios.ofRows, toElement_eq, ofInt_eq, mapM_ok, ok_bind, List.map_map, zipped]
  rfl

theorem summaryOf_eq (ratios : List (Exact r)) (vars : Exact r) :
    VariableMoments.summaryOf ratios vars = (RunningStat.ofList ratios).summary vars := by
  have added := RunningStat.addArray_ofList (r := r) [] ratios
  rw [VariableMoments.summaryOf, show (RunningStat.empty : RunningStat (Exact r)) = .ofList [] from rfl,
    added]
  rfl

theorem withDeviation_eq (s : Summary (Exact r)) (ratios : List (Exact r)) (vars eps : Exact r) :
    VariableMoments.withDeviation s ratios vars eps =
      (Ratio.relativeDeviation (squares s.mean ratios) vars s.mean eps).map fun std => { s with std } := by
  rw [VariableMoments.withDeviation, toElement_eq, ok_bind, VariableMoments.sumOfSquares, arraySum_eq,
    ofElement_eq, squares]
  rfl

variable {occ occ' : Occurrences} {rows rows' : List VariableCounts}

section Congruence

variable
  (ratios : ∀ clauses : Exact r, VariableRatios.ofOccurrences occ clauses = VariableRatios.ofRows rows clauses)
  (ratios' : ∀ clauses : Exact r,
    VariableRatios.ofOccurrences occ' clauses = VariableRatios.ofRows rows' clauses)
  (perm : rows.Perm rows')

include ratios ratios' perm

/-- The same rows of counts have the same first moments in every order. -/
theorem varFirst_congr (vars clauses : Exact r) :
    VariableMoments.first occ vars clauses = VariableMoments.first occ' vars clauses := by
  rw [VariableMoments.first, VariableMoments.first, ratios, ratios', ofRows_eq, ofRows_eq]
  simp only [ok_bind, summaryOf_eq, RunningStat.ofList_perm (perm.map _)]

/-- The same rows of counts have the same deviations in every order. -/
theorem varSecond_congr (m : VariableMoments (Exact r)) (vars clauses eps : Exact r) :
    VariableMoments.second occ m vars clauses eps = VariableMoments.second occ' m vars clauses eps := by
  rw [VariableMoments.second, VariableMoments.second, ratios, ratios', ofRows_eq, ofRows_eq]
  simp only [ok_bind, withDeviation_eq, squares_perm (perm.map _)]

end Congruence

theorem exists_varFirst (ratios : ∀ clauses : Exact r,
      VariableRatios.ofOccurrences occ clauses = VariableRatios.ofRows rows clauses)
    (vars clauses : Exact r) : ∃ m, VariableMoments.first occ vars clauses = .ok m := by
  by_cases none : vars = 0 ∨ clauses = 0
  · exact ⟨.zero, if_pos (by simpa using none)⟩
  · have summarised (xs : List (Exact r)) : ∃ m, VariableMoments.summaryOf xs vars = .ok m := by
      rw [summaryOf_eq]
      exact RunningStat.exists_summary _ vars
    rw [VariableMoments.first, if_neg (by simpa using none), ratios, ofRows_eq, ok_bind]
    obtain ⟨density, hd⟩ := summarised (rows.map fun c => (c.size : Exact r) / clauses)
    obtain ⟨polarity, hp⟩ := summarised
      (rows.map fun c => Ratio.elementPolarity (c.pos : Exact r) c.size)
    obtain ⟨horn, hh⟩ := summarised (rows.map fun c => (c.horn : Exact r) / clauses)
    rw [hd, ok_bind, hp, ok_bind, hh, ok_bind]
    exact ⟨_, rfl⟩

theorem exists_varSecond [IsStrictOrderedRing F] (ratios : ∀ clauses : Exact r,
      VariableRatios.ofOccurrences occ clauses = VariableRatios.ofRows rows clauses)
    (m : VariableMoments (Exact r)) (vars clauses : Exact r) {eps : Exact r} (he : 0 ≤ eps) :
    ∃ n, VariableMoments.second occ m vars clauses eps = .ok n := by
  by_cases none : vars = 0 ∨ clauses = 0
  · exact ⟨m, if_pos (by simpa using none)⟩
  · rw [VariableMoments.second, if_neg (by simpa using none), ratios, ofRows_eq, ok_bind]
    simp only [withDeviation_eq, Ratio.relativeDeviation_eq he]
    exact ⟨_, rfl⟩

/-- In exact arithmetic the features of the irredundant clauses are always computed. -/
theorem exists_core [IsStrictOrderedRing F] {db : Database (Exact r)} (h : Regular db)
    (counted : Occurrences.ofDatabase db = .ok occ) (ratios : ∀ clauses : Exact r,
      VariableRatios.ofOccurrences occ clauses = VariableRatios.ofRows rows clauses)
    {eps : Exact r} (he : 0 ≤ eps) : ∃ f, db.core eps = .ok f := by
  obtain ⟨ratio, divided⟩ : ∃ ratio : Exact r,
      Database.variableRatio occ.activeCount db.irredCount = .ok ratio := by
    rw [Database.variableRatio]
    split
    · rename_i counts
      exact ⟨_, div_eq (Int.cast_ne_zero.mpr counts.2.ne')⟩
    · exact ⟨_, rfl⟩
  rw [Database.core_eq, counted, ok_bind]
  generalize (Quantity.ofInt occ.activeCount : Exact r) = vars
  generalize (Quantity.ofInt db.irredCount : Exact r) = clauses
  obtain ⟨first, hfirst⟩ := exists_first h vars clauses (Quantity.ofInt occ.hornClauses)
  obtain ⟨varFirst, hvarFirst⟩ := exists_varFirst ratios vars clauses
  obtain ⟨second, hsecond⟩ := exists_second h first vars clauses he
  obtain ⟨varSecond, hvarSecond⟩ := exists_varSecond ratios varFirst vars clauses he
  rw [divided, ok_bind, hfirst, ok_bind, hvarFirst, ok_bind, hsecond, ok_bind, hvarSecond, ok_bind]
  exact ⟨_, rfl⟩

end Variables

end Exact

end ClauseFeatures
