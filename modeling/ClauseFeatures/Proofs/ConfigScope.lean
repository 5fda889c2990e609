import ClauseFeatures.Extractor
import ClauseFeatures.Proofs.NumberOrder
import ClauseFeatures.Proofs.Stage
import ClauseFeatures.Proofs.Statistic

/-!
What a configuration can change of a record. The threshold reaches five gates, one for each deviation, and
nothing that comes before them; the tier chooses one population. Raising the threshold closes gates and opens
none. How the extraction is logged leaves no trace in its record.
-/
namespace ClauseFeatures

variable {K E : Type}

/-- A record that differs from another one in its deviations and in the distribution of redundant clauses at
most. -/
structure FeatureRecord.Keeps (r r' : FeatureRecord K) : Prop where
  numVars : r'.numVars = r.numVars
  numClauses : r'.numClauses = r.numClauses
  varClauseRatio : r'.varClauseRatio = r.varClauseRatio
  binary : r'.binary = r.binary
  ternary : r'.ternary = r.ternary
  horn : r'.horn = r.horn
  clauseDensity : r.clauseDensity.Keeps r'.clauseDensity
  clausePolarity : r.clausePolarity.Keeps r'.clausePolarity
  varDensity : r.varDensity.Keeps r'.varDensity
  varPolarity : r.varPolarity.Keeps r'.varPolarity
  varHorn : r.varHorn.Keeps r'.varHorn
  irredundant : r'.irredundant = r.irredundant

theorem FeatureRecord.Keeps.eq {r r' : FeatureRecord K} (h : r.Keeps r')
    (std : List.Forall₂ (fun s s' : Summary K => s'.std = s.std) r.summaries r'.summaries)
    (redundant : r'.redundant = r.redundant) : r' = r := by
  simp only [summaries, List.forall₂_cons] at std
  obtain ⟨varDensity, clauseDensity, varPolarity, clausePolarity, varHorn, -⟩ := std
  cases r
  cases r'
  rw [FeatureRecord.mk.injEq]
  exact ⟨h.numVars, h.numClauses, h.varClauseRatio, h.binary, h.ternary, h.horn, h.clauseDensity.eq clauseDensity,
    h.clausePolarity.eq clausePolarity, h.varDensity.eq varDensity, h.varPolarity.eq varPolarity,
    h.varHorn.eq varHorn, redundant, h.irredundant⟩

section Thresholds

variable [Arithmetic K E] {eps eps' : K}

/-- A threshold above which there is nothing that is not above another one. -/
def Raises (eps eps' : K) : Prop := ∀ a : K, Quantity.lt eps' a = .ok true → Quantity.lt eps a = .ok true

/-- A deviation that was switched off, or left as it was. -/
def Fades (std std' : K) : Prop := std' = std ∨ std' = Arithmetic.zero

theorem Fades.of_zero {std std' : K} (h : Fades std std') (zero : Quantity.isZero (Arithmetic.zero : K) = true)
    (none : Quantity.isZero std = true) : Quantity.isZero std' = true := by
  rcases h with rfl | rfl
  · exact none
  · exact zero

theorem Fades.antisymm {std std' : K} (h : Fades std std') (h' : Fades std' std) : std' = std := by
  rcases h with same | none
  · exact same
  · rcases h' with same | none'
    · exact same.symm
    · exact none.trans none'.symm

/-- A higher threshold asks more of the sum and the mean, and else computes the same. -/
theorem Ratio.relativeDeviation_fades (above : Raises eps eps') {squares population mean std std' : K}
    (h : Ratio.relativeDeviation squares population mean eps = .ok std)
    (h' : Ratio.relativeDeviation squares population mean eps' = .ok std') : Fades std std' := by
  obtain ⟨counts, tested, computed⟩ := bind_eq_ok h
  obtain ⟨counts', tested', computed'⟩ := bind_eq_ok h'
  cases counts' with
  | false => exact .inr (Except.ok.inj computed').symm
  | true =>
      obtain ⟨some, tested'⟩ := bothHold_eq_true tested'
      obtain ⟨positive, some'⟩ := bothHold_eq_true tested'
      rw [above _ some, above _ positive, some'] at tested
      cases tested
      exact .inl (Except.ok.inj (computed'.symm.trans computed))

theorem ClauseMoments.second_fades (above : Raises eps eps') {db : Database K} {m m₁ m₂ : ClauseMoments K}
    {vars clauses : K} (h : m.second db vars clauses eps = .ok m₁) (h' : m.second db vars clauses eps' = .ok m₂) :
    Fades m₁.density.std m₂.density.std ∧ Fades m₁.polarity.std m₂.polarity.std := by
  rw [second] at h h'
  by_cases none : (Quantity.isZero clauses || Quantity.isZero vars) = true
  · rw [if_pos none] at h h'
    cases h
    cases h'
    exact ⟨.inl rfl, .inl rfl⟩
  · rw [if_neg none] at h h'
    obtain ⟨sums, folded, h⟩ := bind_eq_ok h
    obtain ⟨density, hdensity, h⟩ := bind_eq_ok h
    obtain ⟨polarity, hpolarity, h⟩ := bind_eq_ok h
    rw [folded, ok_bind] at h'
    obtain ⟨density', hdensity', h'⟩ := bind_eq_ok h'
    obtain ⟨polarity', hpolarity', h'⟩ := bind_eq_ok h'
    cases h
    cases h'
    exact ⟨Ratio.relativeDeviation_fades above hdensity hdensity',
      Ratio.relativeDeviation_fades above hpolarity hpolarity'⟩

variable [Element E]

theorem VariableMoments.withDeviation_fades (above : Raises eps eps') {s t t' : Summary K} {ratios : List E}
    {vars : K} (h : withDeviation s ratios vars eps = .ok t) (h' : withDeviation s ratios vars eps' = .ok t') :
    Fades t.std t'.std := by
  obtain ⟨mean, converted, h⟩ := bind_eq_ok h
  obtain ⟨std, hstd, h⟩ := bind_eq_ok h
  rw [withDeviation, converted, ok_bind] at h'
  obtain ⟨std', hstd', h'⟩ := bind_eq_ok h'
  cases h
  cases h'
  exact Ratio.relativeDeviation_fades above hstd hstd'

theorem VariableMoments.second_fades (above : Raises eps eps') {occ : Occurrences} {n n₁ n₂ : VariableMoments K}
    {vars clauses : K} (h : second occ n vars clauses eps = .ok n₁) (h' : second occ n vars clauses eps' = .ok n₂) :
    Fades n₁.density.std n₂.density.std ∧ Fades n₁.polarity.std n₂.polarity.std ∧
      Fades n₁.horn.std n₂.horn.std := by
  rw [second] at h h'
  by_cases none : (Quantity.isZero vars || Quantity.isZero clauses) = true
  · rw [if_pos none] at h h'
    cases h
    cases h'
    exact ⟨.inl rfl, .inl rfl, .inl rfl⟩
  · rw [if_neg none] at h h'
    obtain ⟨ratios, given, h⟩ := bind_eq_ok h
    obtain ⟨density, hdensity, h⟩ := bind_eq_ok h
    obtain ⟨polarity, hpolarity, h⟩ := bind_eq_ok h
    obtain ⟨horn, hhorn, h⟩ := bind_eq_ok h
    rw [given, ok_bind] at h'
    obtain ⟨density', hdensity', h'⟩ := bind_eq_ok h'
    obtain ⟨polarity', hpolarity', h'⟩ := bind_eq_ok h'
    obtain ⟨horn', hhorn', h'⟩ := bind_eq_ok h'
    cases h
    cases h'
    exact ⟨withDeviation_fades above hdensity hdensity', withDeviation_fades above hpolarity hpolarity',
      withDeviation_fades above hhorn hhorn'⟩

end Thresholds

namespace Database

section Core

variable [Element E] [Arithmetic K E] {db : Database K} {eps eps' : K} {r r' : FeatureRecord K}

/-- One database under two thresholds. -/
theorem core_fades (h : db.core eps = .ok r) (h' : db.core eps' = .ok r') :
    r.Keeps r' ∧ (Raises eps eps' →
      List.Forall₂ (fun s s' : Summary K => Fades s.std s'.std) r.summaries r'.summaries) := by
  rw [core_eq] at h h'
  obtain ⟨occ, counted, h⟩ := bind_eq_ok h
  obtain ⟨ratio, divided, h⟩ := bind_eq_ok h
  obtain ⟨m, first, h⟩ := bind_eq_ok h
  obtain ⟨n, varFirst, h⟩ := bind_eq_ok h
  obtain ⟨m₁, second, h⟩ := bind_eq_ok h
  obtain ⟨n₁, varSecond, h⟩ := bind_eq_ok h
  rw [counted, ok_bind, divided, ok_bind, first, ok_bind, varFirst, ok_bind] at h'
  obtain ⟨m₂, second', h'⟩ := bind_eq_ok h'
  obtain ⟨n₂, varSecond', h'⟩ := bind_eq_ok h'
  cases h
  cases h'
  have kept := ClauseMoments.second_keeps second
  have kept' := ClauseMoments.second_keeps second'
  have varKept := VariableMoments.second_keeps varSecond
  have varKept' := VariableMoments.second_keeps varSecond'
  constructor
  · exact {
      numVars := rfl
      numClauses := rfl
      varClauseRatio := rfl
      binary := kept'.binary.trans kept.binary.symm
      ternary := kept'.ternary.trans kept.ternary.symm
      horn := kept'.horn.trans kept.horn.symm
      clauseDensity := kept.density.agree kept'.density
      clausePolarity := kept.polarity.agree kept'.polarity
      varDensity := varKept.density.agree varKept'.density
      varPolarity := varKept.polarity.agree varKept'.polarity
      varHorn := varKept.horn.agree varKept'.horn
      irredundant := rfl }
  · intro above
    obtain ⟨density, polarity⟩ := ClauseMoments.second_fades above second second'
    obtain ⟨varDensity, varPolarity, varHorn⟩ := VariableMoments.second_fades above varSecond varSecond'
    exact .cons varDensity (.cons density (.cons varPolarity (.cons polarity (.cons varHorn .nil))))

/-- What extraction reads of a database is the same under both thresholds, but for the tier. -/
theorem extract_fades {tier tier' : Number} (h : db.extract eps tier = .ok r)
    (h' : db.extract eps' tier' = .ok r') :
    r.Keeps r' ∧ (Raises eps eps' →
      List.Forall₂ (fun s s' : Summary K => Fades s.std s'.std) r.summaries r'.summaries) := by
  obtain ⟨core, redundant, irredundant, hcore, hirred, rfl⟩ := parts_of_extract h
  obtain ⟨core', redundant', irredundant', hcore', hirred', rfl⟩ := parts_of_extract h'
  cases hirred.symm.trans hirred'
  obtain ⟨kept, fades⟩ := core_fades hcore hcore'
  exact ⟨{ kept with irredundant := rfl }, fades⟩

/-- Tiers of equal value are the same, since a double is none. -/
theorem tierDistribution_eq_of_equal {tier tier' : Number} (same : tier.equal tier' = true)
    {d d' : Distribution K} (h : db.tierDistribution tier = .ok d) (h' : db.tierDistribution tier' = .ok d') :
    d = d' := by
  have index {tier : Number} {d : Distribution K} (h : db.tierDistribution tier = .ok d) :
      ∃ n, tier.int? = some n := by
    cases given : tier.int? with
    | none =>
        simp only [tierDistribution, tierOffsets, given, error_bind] at h
        cases h
    | some n => exact ⟨n, rfl⟩
  obtain ⟨m, hm⟩ := index h
  obtain ⟨n, hn⟩ := index h'
  cases Number.int?_eq_of_equal same hm hn
  have offsets : db.tierOffsets tier = db.tierOffsets tier' := by rw [tierOffsets, tierOffsets, hm, hn]
  rw [tierDistribution, offsets] at h
  exact Except.ok.inj (h.symm.trans h')

end Core

/-- The record that an extraction under a configuration returns, with the logger that the configuration
describes or with one that is passed in. -/
inductive Yields (db : Database Value) (c : Config) (r : FeatureRecord Value) : Prop
  | configured {time : Value} {j : Journal} {printed : String} {files : Journal}
      (h : db.report c time j = .ok (r, printed, files))
  | passed {σ : Type} {log : Value → Except Failure σ} {time : Value} {logged : σ}
      (h : db.reportTo log c time = .ok (r, logged))

theorem Yields.extracted {db : Database Value} {c : Config} {r : FeatureRecord Value} (h : db.Yields c r) :
    db.extractWith c = .ok r := by
  cases h with
  | configured h =>
      obtain ⟨_, -, h⟩ := bind_eq_ok h
      obtain ⟨logger, -, h⟩ := bind_eq_ok h
      obtain ⟨r, extracted, h⟩ := bind_eq_ok h
      obtain ⟨_, -, h⟩ := bind_eq_ok h
      cases h
      exact extracted
  | passed h =>
      obtain ⟨_, -, h⟩ := bind_eq_ok h
      obtain ⟨r, extracted, h⟩ := bind_eq_ok h
      obtain ⟨_, -, h⟩ := bind_eq_ok h
      cases h
      exact extracted

end Database

theorem Value.raises_of_le {e e' : Number} (h : e.le e' = true) : Raises (Value.number e) (.number e') := by
  intro v above
  obtain ⟨a, rfl, below⟩ := exists_number_of_lt above
  rw [lt_number, Number.lt_of_le_of_lt h below]

/-- What two configurations can make different in the records of one database. -/
structure Config.Governs (c c' : Config) (r r' : FeatureRecord Value) : Prop where
  /-- All other features are the same. -/
  rest : r.Keeps r'
  /-- One tier, one distribution. -/
  redundant : c.redTier.equal c'.redTier = true → r'.redundant = r.redundant
  /-- A threshold that is not lower leaves a deviation as it was or makes it zero. -/
  faded : c.eps.le c'.eps = true →
    List.Forall₂ (fun s s' : Summary Value => Fades s.std s'.std) r.summaries r'.summaries
  /-- In particular it stays zero. -/
  zeros : c.eps.le c'.eps = true →
    List.Forall₂ (fun s s' : Summary Value => Quantity.isZero s.std = true → Quantity.isZero s'.std = true)
      r.summaries r'.summaries
  /-- The settings of the logger change nothing. -/
  same : c.eps.equal c'.eps = true → c.redTier.equal c'.redTier = true → r' = r

namespace Database

/-- Two records of one database, each extracted under a configuration of its own and logged in a way of its
own. -/
theorem settings_scope (db : Database Value) (c c' : Config) {r r' : FeatureRecord Value} (h : db.Yields c r)
    (h' : db.Yields c' r') : c.Governs c' r r' := by
  obtain ⟨kept, fades⟩ := extract_fades h.extracted h'.extracted
  obtain ⟨-, fades'⟩ := extract_fades h'.extracted h.extracted
  have redundant (same : c.redTier.equal c'.redTier = true) : r'.redundant = r.redundant :=
    (tierDistribution_eq_of_equal same (tierDistribution_of_extract h.extracted)
      (tierDistribution_of_extract h'.extracted)).symm
  have zero : Quantity.isZero (Arithmetic.zero : Value) = true := by decide +kernel
  refine ⟨kept, redundant, fun le => fades (Value.raises_of_le le), fun le => ?_, fun sameEps sameTier => ?_⟩
  · exact (fades (Value.raises_of_le le)).imp fun _ _ fade => fade.of_zero zero
  · have faded := fades (Value.raises_of_le (Number.le_of_equal sameEps))
    have back := fades' (Value.raises_of_le (Number.le_of_equal (Number.equal_symm sameEps)))
    exact kept.eq (faded.mp (fun _ _ => Fades.antisymm) back.flip) (redundant sameTier)

/-- A tier with a clause, and a threshold above the sum of squares of the polarities. -/
theorem settings_scope_coarse :
    let calls : List (Call Value) :=
      [.addClause { lits := [⟨0⟩, ⟨2⟩, ⟨4⟩, ⟨6⟩], activity := .int 0 },
        .addClause { lits := [⟨1⟩, ⟨2⟩], activity := .int 0 },
        .addClause { lits := [⟨1⟩, ⟨3⟩, ⟨5⟩, ⟨6⟩], red := true, activity := .int 3, tier := .int 1 }]
    let db := (empty 4).run calls
    let coarse : Config := { Config.default with eps := .real 0.5, redTier := 1, verbosity := 3 }
    ∃ r r', db.Yields .default r ∧ db.Yields coarse r' ∧ Config.default.Governs coarse r r' ∧
      r'.redundant ≠ r.redundant ∧ r'.clausePolarity.std ≠ r.clausePolarity.std := by
  intro calls db coarse
  obtain ⟨⟨r, _, _⟩, reported⟩ : ∃ a, db.report .default (.int 0) .empty = .ok a :=
    exists_ok_of_isSome (by decide +kernel)
  obtain ⟨⟨r', _⟩, reported'⟩ : ∃ a, db.reportTo (fun _ => .ok ()) coarse (.int 0) = .ok a :=
    exists_ok_of_isSome (by decide +kernel)
  have yields : db.Yields .default r := .configured reported
  have yields' : db.Yields coarse r' := .passed reported'
  refine ⟨r, r', yields, yields', settings_scope db .default coarse yields yields', ?_, ?_⟩
  · have differ : (db.extractWith coarse).map (·.redundant) ≠ (db.extractWith .default).map (·.redundant) := by
      decide +kernel
    rw [yields.extracted, yields'.extracted] at differ
    exact fun same => differ (congrArg Except.ok same)
  · have differ : (db.extractWith coarse).map (·.clausePolarity.std) ≠
        (db.extractWith .default).map (·.clausePolarity.std) := by
      decide +kernel
    rw [yields.extracted, yields'.extracted] at differ
    exact fun same => differ (congrArg Except.ok same)

end Database

end ClauseFeatures
