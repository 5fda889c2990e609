import ClauseFeatures.Extractor
import ClauseFeatures.Proofs.Agreement
import ClauseFeatures.Proofs.Correspondence

/-!
The order of insertion and the order of literals. Both decide which literal owns a clause, where it is met
and in which order the ratios of clauses are added. The counts and everything computed from them alone are
the same for every order, to the last digit: the occurrences of variables, the fractions of clause kinds and
the features of the variable side.
-/
namespace ClauseFeatures

variable {K E : Type} [Arithmetic K E]

namespace ClauseMoments

/-- The second pass fills in deviations only. -/
theorem fractions_of_second {db : Database K} {m n : ClauseMoments K} {vars clauses eps : K}
    (h : m.second db vars clauses eps = .ok n) :
    n.binary = m.binary ∧ n.ternary = m.ternary ∧ n.horn = m.horn := by
  unfold second at h
  split at h
  · cases h
    exact ⟨rfl, rfl, rfl⟩
  · obtain ⟨_, -, h⟩ := bind_eq_ok h
    obtain ⟨_, -, h⟩ := bind_eq_ok h
    obtain ⟨_, -, h⟩ := bind_eq_ok h
    cases h
    exact ⟨rfl, rfl, rfl⟩

/-- The fractions are quotients of counters. -/
theorem fractions_of_first {db db' : Database K} {m m' : ClauseMoments K} {vars clauses horn : K}
    (binary : db.inline.irredBinary = db'.inline.irredBinary)
    (ternary : db.inline.irredTernary = db'.inline.irredTernary)
    (h : first db vars clauses horn = .ok m) (h' : first db' vars clauses horn = .ok m') :
    m.binary = m'.binary ∧ m.ternary = m'.ternary ∧ m.horn = m'.horn := by
  unfold first at h h'
  rw [binary, ternary] at h
  split at h
  · rename_i empty
    rw [if_pos empty] at h'
    cases h
    cases h'
    exact ⟨rfl, rfl, rfl⟩
  · rename_i counts
    rw [if_neg counts] at h'
    obtain ⟨_, -, h⟩ := bind_eq_ok h
    obtain ⟨_, divided, h⟩ := bind_eq_ok h
    obtain ⟨_, divided₃, h⟩ := bind_eq_ok h
    obtain ⟨_, dividedHorn, h⟩ := bind_eq_ok h
    obtain ⟨_, -, h⟩ := bind_eq_ok h
    obtain ⟨_, -, h⟩ := bind_eq_ok h
    obtain ⟨_, -, h'⟩ := bind_eq_ok h'
    rw [divided, ok_bind, divided₃, ok_bind, dividedHorn, ok_bind] at h'
    obtain ⟨_, -, h'⟩ := bind_eq_ok h'
    obtain ⟨_, -, h'⟩ := bind_eq_ok h'
    cases h
    cases h'
    exact ⟨rfl, rfl, rfl⟩

end ClauseMoments

namespace Database

variable [Element E]

/-- Features computed from equal counts differ in the summaries of the clause side at most. -/
theorem core_eq_of_counts {db db' : Database K} {eps : K} {r r' : FeatureRecord K}
    (occurrences : Occurrences.ofDatabase db = Occurrences.ofDatabase db')
    (binary : db.inline.irredBinary = db'.inline.irredBinary)
    (ternary : db.inline.irredTernary = db'.inline.irredTernary)
    (irredCount : db.irredCount = db'.irredCount)
    (h : db.core eps = .ok r) (h' : db'.core eps = .ok r') :
    { r with clauseDensity := r'.clauseDensity, clausePolarity := r'.clausePolarity } = r' := by
  rw [core_eq, occurrences, irredCount] at h
  rw [core_eq] at h'
  obtain ⟨occ, counted, h⟩ := bind_eq_ok h
  rw [counted, ok_bind] at h'
  obtain ⟨ratio, divided, h⟩ := bind_eq_ok h
  rw [divided, ok_bind] at h'
  obtain ⟨first, hfirst, h⟩ := bind_eq_ok h
  obtain ⟨first', hfirst', h'⟩ := bind_eq_ok h'
  obtain ⟨varFirst, hvar, h⟩ := bind_eq_ok h
  rw [hvar, ok_bind] at h'
  obtain ⟨second, hsecond, h⟩ := bind_eq_ok h
  obtain ⟨second', hsecond', h'⟩ := bind_eq_ok h'
  obtain ⟨varSecond, hvar, h⟩ := bind_eq_ok h
  rw [hvar, ok_bind] at h'
  cases h
  cases h'
  obtain ⟨binary₁, ternary₁, horn₁⟩ := ClauseMoments.fractions_of_first binary ternary hfirst hfirst'
  obtain ⟨binary₂, ternary₂, horn₂⟩ := ClauseMoments.fractions_of_second hsecond
  obtain ⟨binary₃, ternary₃, horn₃⟩ := ClauseMoments.fractions_of_second hsecond'
  simp only [binary₁, ternary₁, horn₁, binary₂, ternary₂, horn₂, binary₃, ternary₃, horn₃]

end Database

/-! Runs. -/

namespace Database

variable {vars vars' : Nat} {calls calls' : List (Call K)}

/-- Accepted clauses in another order are met in another order, each with its literals in another order. -/
theorem views_reordered (unmarked : ∀ a ∈ (empty vars).history calls, a.1.isMarker = false)
    (unmarked' : ∀ a ∈ (empty vars').history calls', a.1.isMarker = false)
    (reordered : Corresponds List.Perm
      (((empty vars).history calls).filterMap fun a => a.1.irredundant?)
      (((empty vars').history calls').filterMap fun a => a.1.irredundant?)) :
    Corresponds (fun v w => v.lits.Perm w.lits) ((empty vars).run calls).traversal.views
      ((empty vars').run calls').traversal.views := by
  have met := (views_correspond vars unmarked).symm
  have met' := views_correspond vars' unmarked'
  have given := met.trans reordered fun v _ ms (hv : v.lits.Perm _) hms => hv.trans hms
  exact given.trans met' fun v _ w (hv : v.lits.Perm _) hw => hv.trans hw.symm

/-- Two runs without accepted markers, to equally many variables, whose accepted irredundant clauses are the
same up to the order of the clauses and of the literals in each. The occurrences of variables are the same,
and records that are extracted differ in the summaries of the clause side and in the distributions at most. -/
theorem counts_reordered (c : Config) (calls calls' : List (Call Value))
    (unmarked : ∀ a ∈ (empty vars).history calls, a.1.isMarker = false)
    (unmarked' : ∀ a ∈ (empty vars').history calls', a.1.isMarker = false)
    (same : ((empty vars).run calls).vars = ((empty vars').run calls').vars)
    (reordered : Corresponds List.Perm
      (((empty vars).history calls).filterMap fun a => a.1.irredundant?)
      (((empty vars').history calls').filterMap fun a => a.1.irredundant?)) :
    let db := (empty vars).run calls
    let db' := (empty vars').run calls'
    (∃ occ, Occurrences.ofDatabase db = .ok occ ∧ Occurrences.ofDatabase db' = .ok occ) ∧
      ∀ r r', db.extractWith c = .ok r → db'.extractWith c = .ok r' →
        { r with
          clauseDensity := r'.clauseDensity
          clausePolarity := r'.clausePolarity
          redundant := r'.redundant
          irredundant := r'.irredundant } = r' := by
  intro db db'
  have views := views_reordered unmarked unmarked' reordered
  have met : db.Met := met_run vars unmarked
  have met' : db'.Met := met_run vars' unmarked'
  have counted : Occurrences.ofDatabase db = .ok (.ofViews db.vars db.traversal.views) :=
    ofDatabase_run vars unmarked
  have counted' : Occurrences.ofDatabase db' = .ok (.ofViews db.vars db.traversal.views) := by
    rw [ofDatabase_run vars' unmarked', ← same, Occurrences.ofViews_eq_of_corresponds views]
  obtain ⟨binary, ternary, irredCount⟩ :=
    counters_eq met met' (views.imp fun _ _ hvw => ClauseView.size_eq_of_perm hvw)
  refine ⟨⟨_, counted, counted'⟩, ?_⟩
  intro r r' hr hr'
  obtain ⟨core, redundant, irredundant, hcore, -, rfl⟩ := parts_of_extract hr
  obtain ⟨core', redundant', irredundant', hcore', -, rfl⟩ := parts_of_extract hr'
  have cores := core_eq_of_counts (counted.trans counted'.symm) binary ternary irredCount hcore hcore'
  rw [← cores]

/-- Two clauses and a learned one, then the two clauses the other way round and with other literals watched. -/
theorem counts_reordered_learned :
    let calls : List (Call Value) :=
      [.addClause { lits := [⟨0⟩, ⟨2⟩, ⟨4⟩, ⟨7⟩], activity := .real 0.5 },
        .addClause { lits := [⟨1⟩, ⟨4⟩], activity := .int 0 },
        .addClause { lits := [⟨3⟩, ⟨1⟩, ⟨4⟩, ⟨7⟩], red := true, activity := .int 0 }]
    let calls' : List (Call Value) :=
      [.addClause { lits := [⟨4⟩, ⟨1⟩], activity := .int 3 }, .newVar,
        .addClause { lits := [⟨7⟩, ⟨4⟩, ⟨2⟩, ⟨0⟩], activity := .int 0 }]
    ∃ r r', ((empty 4).run calls).extractWith .default = .ok r ∧
      ((empty 3).run calls').extractWith .default = .ok r' ∧ r.varPolarity = r'.varPolarity := by
  intro calls calls'
  have unmarked : ∀ a ∈ (empty 4).history calls, a.1.isMarker = false := by decide +kernel
  have unmarked' : ∀ a ∈ (empty 3).history calls', a.1.isMarker = false := by decide +kernel
  have accepted : (((empty 4).history calls).filterMap fun a => a.1.irredundant?) =
      [[⟨0⟩, ⟨2⟩, ⟨4⟩, ⟨7⟩], [⟨1⟩, ⟨4⟩]] := by decide +kernel
  have accepted' : (((empty 3).history calls').filterMap fun a => a.1.irredundant?) =
      [[⟨4⟩, ⟨1⟩], [⟨7⟩, ⟨4⟩, ⟨2⟩, ⟨0⟩]] := by decide +kernel
  have reordered : Corresponds List.Perm
      (((empty 4).history calls).filterMap fun a => a.1.irredundant?)
      (((empty 3).history calls').filterMap fun a => a.1.irredundant?) := by
    rw [accepted, accepted']
    exact ⟨[[⟨1⟩, ⟨4⟩], [⟨0⟩, ⟨2⟩, ⟨4⟩, ⟨7⟩]], by decide, .cons (by decide) (.cons (by decide) .nil)⟩
  obtain ⟨r, hr⟩ : ∃ r, ((empty 4).run calls).extractWith .default = .ok r :=
    exists_ok_of_isSome (by decide +kernel)
  obtain ⟨r', hr'⟩ : ∃ r', ((empty 3).run calls').extractWith .default = .ok r' :=
    exists_ok_of_isSome (by decide +kernel)
  have agree :=
    (counts_reordered .default calls calls' unmarked unmarked' (by decide +kernel) reordered).2 r r' hr hr'
  exact ⟨r, r', hr, hr', by rw [← agree]⟩

end Database

end ClauseFeatures
