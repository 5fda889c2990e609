import ClauseFeatures.Proofs.Exact.Deviation
import ClauseFeatures.Proofs.Exact.Incidence
import ClauseFeatures.Proofs.Negation

/-!
Features of negated clauses in exact arithmetic. Sizes stay, so the densities do, with all that is computed from
them. Polarities are reflected between zero and one: the least becomes the greatest, and the mean is reflected
with them although a sum of zero is never divided.
-/
namespace ClauseFeatures

variable {F : Type} [Field F] [LinearOrder F] {r : Reading F}

/-! Summaries of the same and of reflected populations. -/

/-- A summary and that of the numbers that are left up to one. -/
structure Summary.Reflects (s t : Summary (Exact r)) : Prop where
  min : t.min = 1 - s.max
  max : t.max = 1 - s.min
  spread : t.spread = s.spread
  mean : t.mean = 1 - s.mean

section Summaries

variable {s t : Summary (Exact r)} {xs : List (Exact r)} {eps : Exact r}

theorem Exact.sum_reflected (xs : List (Exact r)) : (xs.map (1 - ·)).sum = xs.length - xs.sum := by
  induction xs with
  | nil => simp
  | cons x xs ih =>
      rw [List.map_cons, List.sum_cons, ih, List.length_cons, List.sum_cons]
      push_cast
      ring

theorem Summary.Describes.keeps (h : s.Describes xs) (h' : t.Describes xs) : s.Keeps t := by
  have min : t.min = s.min := le_antisymm (h'.bounds _ h.min_mem).1 (h.bounds _ h'.min_mem).1
  have max : t.max = s.max := le_antisymm (h.bounds _ h'.max_mem).2 (h'.bounds _ h.max_mem).2
  exact ⟨min, max, by rw [h'.spread, h.spread, min, max], h'.mean.trans h.mean.symm⟩

theorem Summary.Measures.eq (h : s.Measures eps xs) (h' : t.Measures eps xs) : t = s :=
  (h.describes.keeps h'.describes).eq (h'.std.trans h.std.symm)

variable [IsStrictOrderedRing F]

theorem Exact.mean_reflected (some : xs ≠ []) : mean (xs.map (1 - ·)) = 1 - mean xs := by
  rw [mean, sum_reflected, List.length_map, sub_div, div_self (length_ne_zero some), mean]

theorem Exact.fraction_reflected {a b n : Nat} (all : a + b = n) (some : n ≠ 0) :
    (a : Exact r) / n = 1 - (b : Exact r) / n := by
  have count : (n : Exact r) ≠ 0 := Nat.cast_ne_zero.mpr some
  rw [eq_sub_iff_add_eq, ← add_div, ← Nat.cast_add, all, div_self count]

theorem Summary.Describes.reflects (h : s.Describes xs) (h' : t.Describes (xs.map (1 - ·))) : s.Reflects t := by
  have least : t.min = 1 - s.max := by
    refine (h'.min_eq_iff fun y hy => ?_).mpr (List.mem_map_of_mem h.max_mem)
    obtain ⟨x, hx, rfl⟩ := List.mem_map.mp hy
    exact sub_le_sub_left (h.bounds x hx).2 1
  have greatest : t.max = 1 - s.min := by
    refine (h'.max_eq_iff fun y hy => ?_).mpr (List.mem_map_of_mem h.min_mem)
    obtain ⟨x, hx, rfl⟩ := List.mem_map.mp hy
    exact sub_le_sub_left (h.bounds x hx).1 1
  refine ⟨least, greatest, ?_, ?_⟩
  · rw [h'.spread, h.spread, least, greatest]
    ring
  · rw [h'.mean, h.mean, Exact.mean_reflected h.ne_nil]

end Summaries

/-! Populations of negated clauses. -/

namespace Populations

variable {clauses : List (List Literal)}

theorem clauseDensity_negate (clauses : List (List Literal)) :
    (ofClauses (clauses.map (List.map Literal.negate)) : Populations r).clauseDensity =
      (ofClauses clauses).clauseDensity := by
  simp only [ofClauses, List.map_map, Function.comp_def, List.length_map, variablesOf_negate]

theorem varDensity_negate (clauses : List (List Literal)) :
    (ofClauses (clauses.map (List.map Literal.negate)) : Populations r).varDensity =
      (ofClauses clauses).varDensity := by
  simp only [ofClauses, List.length_map, variablesOf_negate, occurrencesIn_negate]

variable [IsStrictOrderedRing F]

theorem clausePolarity_negate (sized : ∀ clause ∈ clauses, clause.length ≠ 0) :
    (ofClauses (clauses.map (List.map Literal.negate)) : Populations r).clausePolarity =
      (ofClauses clauses).clausePolarity.map (1 - ·) := by
  simp only [ofClauses, List.map_map]
  refine List.map_congr_left fun clause hc => ?_
  simp only [Function.comp_apply, List.length_map]
  refine Exact.fraction_reflected ?_ (sized clause hc)
  rw [List.countP_map, List.length_eq_countP_add_countP fun l => l.negated]
  simp only [Function.comp_def, Literal.negated_negate, Bool.not_not, Bool.not_eq_true, Bool.decide_eq_false]

theorem varPolarity_negate (clauses : List (List Literal)) :
    (ofClauses (clauses.map (List.map Literal.negate)) : Populations r).varPolarity =
      (ofClauses clauses).varPolarity.map (1 - ·) := by
  simp only [ofClauses, List.map_map, variablesOf_negate, occurrencesIn_negate]
  exact List.map_congr_left fun var occurs =>
    Exact.fraction_reflected (occurrencesIn_positive_negate var clauses) (occurrencesIn_ne_zero occurs)

end Populations

/-! Records. -/

/-- Records of some clauses and of the same clauses negated. Without clauses there are no polarities to be
reflected. -/
structure FeatureRecord.Negates (f f' : FeatureRecord (Exact r)) (populated : Prop) : Prop
    extends f.SameCounts f' where
  clauseDensity : f'.clauseDensity = f.clauseDensity
  varDensity : f'.varDensity = f.varDensity
  clausePolarity : populated → f.clausePolarity.Reflects f'.clausePolarity
  varPolarity : populated → f.varPolarity.Reflects f'.varPolarity

namespace Database

variable [IsStrictOrderedRing F]

namespace Holds

variable {db db' : Database (Exact r)} {clauses : List (List Literal)} {eps : Exact r}
  {f f' : FeatureRecord (Exact r)}

theorem exists_core (h : db.Holds clauses) (he : 0 ≤ eps) : ∃ f, db.core eps = .ok f :=
  Exact.exists_core ⟨h.finished, h.sized⟩ h.counted (VariableRatios.ofOccurrences_ofViews _ _) he

variable (h : db.Holds clauses) (h' : db'.Holds (clauses.map (List.map Literal.negate)))

include h h'

theorem negates (inline : db'.inline = db.inline) (he : 0 ≤ eps) (hf : db.core eps = .ok f)
    (hf' : db'.core eps = .ok f') : f.Negates f' (clauses ≠ []) := by
  have irredCount : db'.irredCount = db.irredCount := by rw [h'.irredCount, h.irredCount, List.length_map]
  have active : (Occurrences.ofViews db'.vars db'.traversal.views).activeCount =
      (Occurrences.ofViews db.vars db.traversal.views).activeCount := by
    rw [h'.counts.activeCount, h.counts.activeCount, variablesOf_negate]
  have counts := sameCounts_of_core h.counted h'.counted active irredCount inline hf hf'
  by_cases none : clauses = []
  · subst none
    have shows := h.shows_of_nil hf
    have shows' := h'.shows_of_nil hf'
    exact { counts with
      clauseDensity := shows'.clauseDensity.trans shows.clauseDensity.symm
      varDensity := shows'.varDensity.trans shows.varDensity.symm
      clausePolarity := fun some => absurd rfl some
      varPolarity := fun some => absurd rfl some }
  · obtain ⟨m, n, shows, measured⟩ := h.measured none he hf
    obtain ⟨m', n', shows', measured'⟩ := h'.measured (mt List.map_eq_nil_iff.mp none) he hf'
    have sized (clause : List Literal) (hc : clause ∈ clauses) : clause.length ≠ 0 :=
      (h.isClause clause hc).length_ne_zero
    have clauseDensity := measured'.clauseDensity
    have clausePolarity := measured'.clausePolarity
    have varDensity := measured'.varDensity
    have varPolarity := measured'.varPolarity
    rw [Populations.clauseDensity_negate, ← shows'.clauseDensity] at clauseDensity
    rw [Populations.clausePolarity_negate sized, ← shows'.clausePolarity] at clausePolarity
    rw [Populations.varDensity_negate, ← shows'.varDensity] at varDensity
    rw [Populations.varPolarity_negate, ← shows'.varPolarity] at varPolarity
    exact { counts with
      clauseDensity := (shows.clauseDensity ▸ measured.clauseDensity).eq clauseDensity
      varDensity := (shows.varDensity ▸ measured.varDensity).eq varDensity
      clausePolarity := fun _ =>
        (shows.clausePolarity ▸ measured.clausePolarity).describes.reflects clausePolarity.describes
      varPolarity := fun _ =>
        (shows.varPolarity ▸ measured.varPolarity).describes.reflects varPolarity.describes }

theorem negates_extract (inline : db'.inline = db.inline) (he : 0 ≤ eps) {tier : Number}
    (hf : db.extract eps tier = .ok f) (hf' : db'.extract eps tier = .ok f') : f.Negates f' (clauses ≠ []) := by
  obtain ⟨core, _, _, hcore, -, rfl⟩ := parts_of_extract hf
  obtain ⟨core', _, _, hcore', -, rfl⟩ := parts_of_extract hf'
  exact { h.negates h' inline he hcore hcore' with }

end Holds

variable {K E : Type} [Element E] [Arithmetic K E]

/-- A run without accepted markers, and the run that adds every clause with the opposite literals. The same
calls succeed, with the same answers, and fail for the same reasons; all counters are the same, and so are the
occurrences of each variable, of which those that were negated are not any more. In exact arithmetic, with any
function for roots, the densities stay and the polarities are reflected, although the clauses are met in another
order and a mean of zero is not divided. -/
theorem features_negated (vars : Nat) {calls : List (Call K)}
    (unmarked : ∀ a ∈ (empty vars).history calls, a.1.isMarker = false) (read : K → Exact r) :
    let db := (empty vars).run calls
    let db' := (empty vars).run (calls.map Call.negate)
    (empty vars).answers (calls.map Call.negate) = (empty vars).answers calls ∧ db.Negates db' ∧
      db'.irredCount = db.irredCount ∧ db'.redCount = db.redCount ∧
      (∃ occ occ', Occurrences.ofDatabase db = .ok occ ∧ Occurrences.ofDatabase db' = .ok occ' ∧
        occ.Negates occ') ∧
      (∀ eps tier f f', db.extract eps tier = .ok f → db'.extract eps tier = .ok f' → f.SameCounts f') ∧
      ∀ eps, 0 ≤ eps →
        (∃ f f', (db.convert read).core eps = .ok f ∧ (db'.convert read).core eps = .ok f' ∧
          f.Negates f' (0 < db.irredCount)) ∧
        ∀ tier f f', (db.convert read).extract eps tier = .ok f → (db'.convert read).extract eps tier = .ok f' →
          f.Negates f' (0 < db.irredCount) := by
  intro db db'
  have runs := negates_run vars calls
  have holds : db.Holds _ := holds_run vars unmarked
  have holds' : db'.Holds _ := holds_run vars (runs.unmarked unmarked)
  rw [runs.irredundant_eq] at holds'
  have occurrences := Occurrences.Counts.negates runs.negates.vars holds.counts holds'.counts
  have populated : 0 < db.irredCount ↔ ((empty vars).history calls).filterMap (fun a => a.1.irredundant?) ≠ [] := by
    rw [holds.irredCount, Int.natCast_pos, List.length_pos_iff]
  rw [populated]
  refine ⟨runs.answers, runs.negates, runs.negates.irredCount_eq, runs.negates.redCount_eq,
    ⟨_, _, holds.counted, holds'.counted, occurrences⟩, fun eps tier f f' hf hf' => ?_, fun eps he => ⟨?_, ?_⟩⟩
  · exact sameCounts_of_extract holds.counted holds'.counted occurrences.activeCount runs.negates.irredCount_eq
      runs.negates.inline hf hf'
  · obtain ⟨f, hf⟩ := (holds.convert read).exists_core he
    obtain ⟨f', hf'⟩ := (holds'.convert read).exists_core he
    exact ⟨f, f', hf, hf', (holds.convert read).negates (holds'.convert read) runs.negates.inline he hf hf'⟩
  · exact fun tier f f' => (holds.convert read).negates_extract (holds'.convert read) runs.negates.inline he

/-- A clause without negated literals, a learned one and a refused one. The mean polarity of the negated clause
is zero, which is not divided. -/
theorem features_negated_positive :
    let r : Reading Rat := { root := fun a => a + 1, top := 0, bottom := 0, text := fun _ => "" }
    let calls : List (Call Value) := [.addClause { lits := [⟨0⟩, ⟨2⟩], activity := .int 0 },
      .addClause { lits := [⟨1⟩, ⟨3⟩, ⟨5⟩, ⟨6⟩], red := true, activity := .int 0 },
      .addClause { lits := [⟨4⟩, ⟨9⟩], activity := .int 0 }]
    let db := (empty 4).run calls
    let db' := (empty 4).run (calls.map Call.negate)
    db'.longRed = db.longRed ∧ ∃ f f', (db.convert fun _ => (1 : Exact r)).core (1 / 100 : Rat) = .ok f ∧
      (db'.convert fun _ => (1 : Exact r)).core (1 / 100 : Rat) = .ok f' ∧
      f'.clauseDensity = f.clauseDensity ∧ f.clausePolarity.mean = 1 ∧ f'.clausePolarity.mean = 0 := by
  intro r calls db db'
  have unmarked : ∀ a ∈ (empty 4).history calls, a.1.isMarker = false := by decide +kernel
  have some : 0 < db.irredCount := by decide +kernel
  have threshold : (0 : Rat) ≤ 1 / 100 := by decide +kernel
  obtain ⟨-, negates, -, -, -, -, records⟩ := features_negated 4 unmarked fun _ => (1 : Exact r)
  obtain ⟨⟨f, f', hf, hf', negated⟩, -⟩ := records (1 / 100 : Rat) threshold
  have mean : ((db.convert fun _ => (1 : Exact r)).core (1 / 100 : Rat)).map (·.clausePolarity.mean) = .ok 1 := by
    decide +kernel
  rw [hf] at mean
  have mean : f.clausePolarity.mean = 1 := Except.ok.inj mean
  refine ⟨negates.longRed, f, f', hf, hf', negated.clauseDensity, mean, ?_⟩
  rw [(negated.clausePolarity some).mean, mean, sub_self]

end Database

end ClauseFeatures
