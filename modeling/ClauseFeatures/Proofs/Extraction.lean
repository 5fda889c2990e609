import ClauseFeatures.Extractor
import ClauseFeatures.Proofs.Extent
import ClauseFeatures.Proofs.Interference
import ClauseFeatures.Proofs.Marker
import ClauseFeatures.Proofs.Population

/-!
When an extraction succeeds. After a run without markers everything but the distributions of long clauses is
computed and finite, under every configuration that was accepted, so an extraction succeeds exactly if both
distributions are computed and finite. Within limits that no solver reaches they are. Beyond them an
accepted glue, activity or increment can make a conversion or a sum of squares overflow, although the number
that is asked for is small enough.
-/
namespace ClauseFeatures

open Double

def Value.HeldFinite (v : Value) : Prop := ∃ x, v.toDouble = .ok x ∧ x.isFinite = true

theorem IsFinite.heldFinite {v : Value} (h : IsFinite v) : v.HeldFinite := by
  obtain ⟨x, rfl, finite⟩ := h
  exact ⟨x, rfl, finite⟩

theorem Value.heldFinite_int {n : ℤ} (hn : IsCount n) : (Value.int n).HeldFinite := by
  obtain ⟨x, converted, finite, -⟩ := Number.toDouble_count hn
  exact ⟨x, converted, finite⟩

namespace FeatureRecord

variable {r : FeatureRecord Value} {d e : Distribution Value}

theorem forall_values {P : Value → Prop} :
    (∀ v ∈ r.values, P v) ↔ (∀ v ∈ r.scalarValues, P v) ∧
      (∀ s ∈ r.summaries, ∀ v ∈ s.fieldValues, P v) ∧
      (∀ v ∈ r.redundant.fieldValues, P v) ∧ ∀ v ∈ r.irredundant.fieldValues, P v := by
  simp only [values, distributions, List.flatMap_cons, List.flatMap_nil, List.append_nil,
    List.forall_mem_append, List.forall_mem_flatMap, and_assoc]

theorem vector_ok (doubles : ∀ v ∈ r.values, ∃ x, v.toDouble = .ok x) :
    ∃ xs, r.vector = .ok xs ∧ xs.length = dimension ∧
      ((∀ x ∈ xs, x.isFinite = true) ↔ ∀ v ∈ r.values, v.HeldFinite) := by
  obtain ⟨xs, related⟩ := exists_forall₂ doubles
  refine ⟨xs, Value.doubles_eq_ok related, related.length_eq.symm, fun finite v hv => ?_,
    fun held x hx => ?_⟩
  · obtain ⟨x, hx, converted⟩ := exists_of_forall₂ related.flip v hv
    exact ⟨x, converted, finite x hx⟩
  · obtain ⟨v, hv, converted⟩ := exists_of_forall₂ related x hx
    obtain ⟨y, converted', finite⟩ := held v hv
    cases converted.symm.trans converted'
    exact finite

/-- Everything but the distributions is finite, and what a report tells of a record are counts. -/
structure Fine (r : FeatureRecord Value) : Prop where
  counts : ∃ m n : ℤ, IsCount m ∧ IsCount n ∧ r.numVars = .int m ∧ r.numClauses = .int n
  scalars : ∀ v ∈ r.scalarValues, v.HeldFinite
  summaries : ∀ s ∈ r.summaries, Summarises s

theorem Fine.doubles (h : r.Fine) (hd : d.IsReal) (he : e.IsReal) :
    ∀ v ∈ { r with redundant := d, irredundant := e }.values, ∃ x, v.toDouble = .ok x := by
  have real {v : Value} (hv : ∃ x, v = .real x) : ∃ x, v.toDouble = .ok x := by
    obtain ⟨x, rfl⟩ := hv
    exact ⟨x, rfl⟩
  refine forall_values.mpr ⟨fun v hv => ?_, fun s hs v hv => ?_, fun v hv => real (hd v hv),
    fun v hv => real (he v hv)⟩
  · obtain ⟨x, converted, -⟩ := h.scalars v hv
    exact ⟨x, converted⟩
  · obtain ⟨x, same, -⟩ := (h.summaries s hs).finite v hv
    exact real ⟨x, same⟩

theorem heldFinite_iff (real : d.IsReal) :
    (∀ v ∈ d.fieldValues, v.HeldFinite) ↔ d.IsFinite := by
  refine ⟨fun h v hv => ?_, fun h v hv => (h v hv).heldFinite⟩
  obtain ⟨x, rfl⟩ := real v hv
  obtain ⟨_, converted, finite⟩ := h _ hv
  cases converted
  exact ⟨x, rfl, finite⟩

theorem Fine.heldFinite_iff (h : r.Fine) (hd : d.IsReal) (he : e.IsReal) :
    (∀ v ∈ { r with redundant := d, irredundant := e }.values, v.HeldFinite) ↔
      d.IsFinite ∧ e.IsFinite := by
  rw [forall_values, ← FeatureRecord.heldFinite_iff hd, ← FeatureRecord.heldFinite_iff he]
  exact ⟨fun all => all.2.2, fun both =>
    ⟨h.scalars, fun s hs v hv => ((h.summaries s hs).finite v hv).heldFinite, both⟩⟩

end FeatureRecord

namespace Database

section Record

variable {db : Database Value} {eps : Value} {tier : Number} {r s : FeatureRecord Value}

/-- Where the rest is finite, an extraction stands or falls with the two distributions. -/
theorem extract_eq_ok_iff (computed : db.core eps = .ok r) (fine : r.Fine) :
    db.extract eps tier = .ok s ↔ ∃ d e, db.tierDistribution tier = .ok d ∧
      db.irredDistribution = .ok e ∧ (d.IsFinite ∧ e.IsFinite) ∧
      s = { r with redundant := d, irredundant := e } := by
  constructor
  · intro h
    obtain ⟨t, recorded, h⟩ := bind_eq_ok h
    obtain ⟨xs, array, h⟩ := bind_eq_ok h
    obtain ⟨_, checked, h⟩ := bind_eq_ok h
    cases h
    rw [record_eq, computed, ok_bind] at recorded
    obtain ⟨d, redundant, recorded⟩ := bind_eq_ok recorded
    obtain ⟨e, irredundant, recorded⟩ := bind_eq_ok recorded
    cases recorded
    have hd := tierDistribution_real redundant
    have he := Distribution.ofOffsets_real irredundant
    obtain ⟨ys, array', -, finite⟩ := FeatureRecord.vector_ok (fine.doubles hd he)
    cases array.symm.trans array'
    exact ⟨d, e, redundant, irredundant,
      (fine.heldFinite_iff hd he).mp (finite.mp ((Check.finite_eq_ok _).mp checked)), rfl⟩
  · rintro ⟨d, e, redundant, irredundant, finite, rfl⟩
    have hd := tierDistribution_real redundant
    have he := Distribution.ofOffsets_real irredundant
    obtain ⟨xs, array, -, all⟩ := FeatureRecord.vector_ok (fine.doubles hd he)
    have checked := (Check.finite_eq_ok "feature vector").mpr
      (all.mpr ((fine.heldFinite_iff hd he).mpr finite))
    rw [extract, record_eq, computed, ok_bind, redundant, ok_bind, irredundant, ok_bind]
    show (FeatureRecord.vector _ >>= _) = _
    rw [array, ok_bind, checked, ok_bind]
    rfl

theorem core_fine {occ : Occurrences} {e : Number} (he : e.IsThreshold)
    (counted : Occurrences.ofDatabase db = .ok occ) (ho : occ.Countable)
    (horn : IsCount occ.hornClauses) (ht : ClauseMoments.Traversable db.traversal db.irredCount)
    (binary : IsCount db.inline.irredBinary) (ternary : IsCount db.inline.irredTernary) :
    ∃ r, db.core (.number e) = .ok r ∧ r.Fine := by
  have active : IsCount occ.activeCount := ⟨Int.natCast_nonneg _, by exact_mod_cast ho.active⟩
  obtain ⟨m, first, fineM⟩ := ClauseMoments.first_fine ht active horn binary ternary
  obtain ⟨n, first', fineN⟩ := VariableMoments.first_fine ho active ht.fits
  obtain ⟨m', second, fineM'⟩ := ClauseMoments.second_fine he ht active fineM
  obtain ⟨n', second', fineN'⟩ := VariableMoments.second_fine ho active ht.fits fineN he
  have fine (ratio : Value) (finite : IsFinite ratio) : FeatureRecord.Fine
      ⟨.int occ.activeCount, .int db.irredCount, ratio, m'.binary, m'.ternary, m'.horn, m'.density,
        m'.polarity, n'.density, n'.polarity, n'.horn, .zero, .zero⟩ := by
    refine ⟨⟨_, _, active, ht.fits, rfl, rfl⟩, ?_, ?_⟩
    · simp only [FeatureRecord.scalarValues, List.forall_mem_cons]
      exact ⟨Value.heldFinite_int active, Value.heldFinite_int ht.fits, finite.heldFinite,
        fineM'.binary.heldFinite, fineM'.ternary.heldFinite, fineM'.horn.heldFinite, nofun⟩
    · simp only [FeatureRecord.summaries, List.forall_mem_cons]
      exact ⟨fineN'.density, fineM'.density, fineN'.polarity, fineM'.polarity, fineN'.horn, nofun⟩
  have held (n : ℤ) : (Quantity.ofInt n : Value) = .int n := rfl
  unfold core
  simp only [counted, ok_bind, held, first, first', second, second']
  split
  · rename_i some
    obtain ⟨ratio, divided, finite⟩ := ClauseMoments.div_counts_finite active ⟨some.2, ht.fits.2⟩
    rw [divided]
    exact ⟨_, rfl, fine ratio finite⟩
  · exact ⟨_, rfl, fine _ isFinite_zero⟩

end Record

/-! Runs. -/

section Runs

variable (vars : ℕ) {calls : List (Call Value)}

theorem traversable_run (unmarked : ∀ a ∈ (empty vars).history calls, a.1.isMarker = false)
    (few : ((empty vars : Database Value).added calls).length ≤ 2 ^ 53) :
    ClauseMoments.Traversable ((empty vars).run calls).traversal ((empty vars).run calls).irredCount := by
  have met := met_run vars unmarked
  obtain ⟨number, sizes⟩ := view_bounds vars unmarked few
  have count : (((empty vars).run calls).traversal.views.length : ℤ) =
      ((empty vars).run calls).irredCount := by
    rw [met.visited false, countP_visits]
  refine ⟨met.finished, fun v hv => ⟨?_, sizes v hv⟩, count, ?_⟩
  · have := two_le_of_mem_views vars unmarked v hv
    omega
  · rw [← count]
    exact ⟨Int.natCast_nonneg _, by exact_mod_cast number⟩

/-- After every run without markers all features but the distributions are computed and finite. -/
theorem core_run (unmarked : ∀ a ∈ (empty vars).history calls, a.1.isMarker = false)
    (few : ((empty vars : Database Value).added calls).length ≤ 2 ^ 53) {e : Number}
    (he : e.IsThreshold) : ∃ r, ((empty vars).run calls).core (.number e) = .ok r ∧ r.Fine := by
  have met := met_run vars unmarked
  have traversable := traversable_run vars unmarked few
  have sum := (length_views_flatMap_le vars unmarked).trans few
  have some (p : ClauseView → Bool) :
      IsCount (((empty vars).run calls).traversal.views.countP p : ℕ) :=
    ⟨Int.natCast_nonneg _, by exact_mod_cast List.countP_le_length.trans traversable.length_le⟩
  have counted := Occurrences.ofDatabase_eq (built_run vars calls).views_existing
  rw [met.finished] at counted
  refine core_fine he counted (Occurrences.countable_ofViews _ sum) ?_ traversable
    (met.binary ▸ some _) (met.ternary ▸ some _)
  show IsCount (0 + _)
  rw [zero_add]
  exact some _

end Runs

end Database

/-! The increment. -/

theorem Effect.foldl_scaled {K : Type} (es : List (Effect K)) (x : K) :
    es.foldl scaled x = x ∨ scale (es.foldl scaled x) ∈ es := by
  induction es generalizing x with
  | nil => exact .inl rfl
  | cons e es ih =>
      rw [List.foldl_cons]
      rcases ih (scaled x e) with same | member
      · rw [same]
        cases e with
        | scale y => exact .inr List.mem_cons_self
        | grow _ | mark _ _ | inline _ _ | long _ _ _ => exact .inl rfl
      · exact .inr (List.mem_cons_of_mem e member)

namespace Database

theorem eq_setIncrement_of_plan {K : Type} [Quantity K] {db : Database K} {c : Call K} {x : K}
    (h : (db.plan c).1 = some (.scale x)) : c = .setIncrement x := by
  obtain ⟨_, planned⟩ := exists_planned h
  cases planned with
  | accepted ha _ =>
      cases ha
      rfl

/-- The increment is the one that every database starts with or was given by a call and checked then. -/
theorem increment_run {K : Type} [Quantity K] (vars : ℕ) (calls : List (Call K)) :
    ((empty vars).run calls).increment = Quantity.one ∨
      .setIncrement ((empty vars).run calls).increment ∈ calls ∧
        Check.positive ((empty vars).run calls).increment "cla_inc" = .ok () := by
  rw [(built_run vars calls).increment_eq]
  refine (Effect.foldl_scaled ((empty vars).effects calls) Quantity.one).imp_right ?_
  intro member
  obtain ⟨c, hc, d, planned⟩ := exists_plan_of_mem_effects member
  cases eq_setIncrement_of_plan planned
  refine ⟨hc, ?_⟩
  simp only [plan] at planned
  split at planned
  · rename_i passed
    exact passed
  · cases planned

theorem positive_increment (vars : ℕ) (calls : List (Call Value)) :
    Check.positive ((empty vars).run calls).increment "cla_inc" = .ok () := by
  rcases increment_run vars calls with same | given
  · rw [same]
    rfl
  · exact given.2

/-- Numbers within limits that leave room for every sum of squares. -/
structure Moderate (db : Database Value) : Prop where
  glue : ∀ c ∈ db.store.bodies, ∃ x, c.glue.toDouble = .ok x ∧ x.isFinite = true ∧
    0 ≤ value x ∧ value x ≤ 2 ^ 400
  activity : ∀ c ∈ db.store.bodies, ∃ x, c.activity.toDouble = .ok x ∧ x.isFinite = true ∧
    0 ≤ value x ∧ value x ≤ 2 ^ 300
  increment : ∃ x, db.increment.toDouble = .ok x ∧ x.isFinite = true ∧ 1 / 2 ^ 100 ≤ value x

/-- Both distributions are computed, and all their numbers are finite. -/
def Distributes (db : Database Value) (tier : Number) : Prop :=
  (∃ d, db.tierDistribution tier = .ok d ∧ d.IsFinite) ∧ ∃ d, db.irredDistribution = .ok d ∧ d.IsFinite

theorem distributes_of_moderate (vars : ℕ) {calls : List (Call Value)}
    (few : ((empty vars : Database Value).added calls).length ≤ 2 ^ 53)
    (moderate : ((empty vars).run calls).Moderate) {tier : Number} {k : ℕ}
    (index : tier.int? = some (k : ℤ)) (inside : k < tierCount) :
    ((empty vars).run calls).Distributes tier := by
  have built := built_run vars calls
  have positive := positive_increment vars calls
  obtain ⟨unit, converted, finite, low⟩ := moderate.increment
  have population {f : Effect Value → Option (Clause Value × ℕ)}
      (listed : ∀ e p, f e = some p → e.literals = p.1.lits)
      (long : ∀ e p, f e = some p → ∃ tier, e = .long p.1 p.2 tier) :
      ∃ d, Distribution.ofPopulation
        (((empty vars).effects calls).filterMap fun e => (f e).map Prod.fst)
        ((empty vars).run calls).increment = .ok d ∧ d.IsFinite := by
    obtain ⟨number, bounds⟩ := population_bounds vars listed long few
    refine Distribution.ofPopulation_finite positive number (fun c hc => (bounds c hc).1)
      (fun c hc => ?_) (fun c hc => ?_) converted finite ?_
    · obtain ⟨x, converted, finite, nonneg, le⟩ := moderate.glue c (bounds c hc).2
      exact ⟨x, converted, .of_nonneg finite nonneg (by rw [Nat.cast_one, one_mul]; exact_mod_cast le)⟩
    · obtain ⟨x, converted, finite, nonneg, le⟩ := moderate.activity c (bounds c hc).2
      exact ⟨x, converted, .of_nonneg finite nonneg (by rw [Nat.cast_one, one_mul]; exact_mod_cast le)⟩
    · rw [zpow_neg, ← one_div]
      exact_mod_cast low
  rw [Distributes, built.tierDistribution_eq index inside, built.irredDistribution_eq]
  exact ⟨population (fun _ _ => Effect.literals_of_tierLong) fun _ _ => Effect.eq_long_of_tierLong,
    population (fun _ _ => Effect.literals_of_irredLong) fun _ _ => Effect.eq_long_of_irredLong⟩

end Database

/-! Configurations and reports. -/

namespace Config

variable {c : Config}

theorem threshold_of_make {eps tier verbosity file : Value}
    (h : make eps tier verbosity file = .ok c) : c.eps.IsThreshold := by
  obtain ⟨e, -, h⟩ := bind_eq_ok h
  split at h
  · obtain ⟨_, -, h⟩ := bind_eq_ok h
    cases h
  · rename_i inside
    obtain ⟨t, -, h⟩ := bind_eq_ok h
    split at h
    · obtain ⟨_, -, h⟩ := bind_eq_ok h
      cases h
    · obtain ⟨v, -, h⟩ := bind_eq_ok h
      split at h
      · obtain ⟨_, -, h⟩ := bind_eq_ok h
        cases h
      · cases h
        simp only [Bool.not_eq_true', Bool.not_eq_false, Bool.and_eq_true] at inside
        exact inside

/-- A log file, if there is one, whose path can be that of a file. -/
def IsLoggable (c : Config) : Prop :=
  c.logFile = .null ∨ ∃ path, c.logFile = .text path ∧ Text.isPath path = true

end Config

namespace Logger

theorem isTooLong_count {n : ℤ} (h : IsCount n) : Failure.isTooLong n = false := by
  obtain ⟨nonneg, le⟩ := h
  exact Failure.isTooLong_of_lt (by omega)

theorem untold?_count {n : ℤ} (h : IsCount n) (levels : Option ℕ) : (Value.int n).untold? levels = none := by
  rw [Value.untold?, Number.isTooLong, isTooLong_count h]
  rfl

variable {r : FeatureRecord Value} {m n : ℤ} (vars : r.numVars = .int m) (clauses : r.numClauses = .int n)
  (hm : IsCount m) (hn : IsCount n)

include vars clauses hm hn

theorem untold?_metrics (time : Float) (levels : ℕ) :
    (Value.mapping (r.metrics (.real time))).untold? (some (levels + 1)) = none := by
  rw [FeatureRecord.metrics, vars, clauses]
  simp only [Value.untold?, Value.untoldPair?, Number.isTooLong, isTooLong_count hm, isTooLong_count hn,
    Option.some.injEq, Nat.succ_ne_zero, Bool.false_eq_true, ite_false, Option.or_none]

theorem line_ok (time : Float) (levels : ℕ) : ∃ out, line levels (r.metrics (.real time)) = .ok out := by
  have first : metric "num_vars" (r.metrics (.real time)) = .int m := vars
  have second : metric "num_clauses" (r.metrics (.real time)) = .int n := clauses
  refine ⟨lineOf (Double.fixedText 4 time) (Value.int m).plain (Value.int n).plain, ?_⟩
  rw [line, first, second, told, told, Value.checked_eq_ok (untold?_count hm _),
    Value.checked_eq_ok (untold?_count hn _)]
  rfl

theorem printed_ok {l : Logger} {level : Number} (verbosity : l.verbosity = .number level) (time : Float)
    (levels : ℕ) : ∃ out, l.printed levels (.mapping (r.metrics (.real time))) = .ok out := by
  have compared : Value.lt (.int 0) l.verbosity = .ok (Number.lt (.int 0) level) := by
    rw [verbosity]
    rfl
  unfold printed
  rw [compared, ok_bind]
  split
  · obtain ⟨out, written⟩ := line_ok vars clauses hm hn time levels
    have reports : reportsExtraction (r.metrics (.real time)) = true := rfl
    exact ⟨out, by simp only [reports, ite_true, written]⟩
  · exact ⟨_, rfl⟩

theorem write_ok {l : Logger} (file : ∀ name, l.file = some name → Text.isPath name = true) (time : Float)
    (j : Journal) : ∃ j', l.write (.mapping (r.metrics (.real time))) j = (j', .ok ()) := by
  unfold write
  cases named : l.file with
  | none => exact ⟨j, rfl⟩
  | some name =>
      simp only [file name named, ite_true, entry, told,
        Value.checked_eq_ok (untold?_metrics vars clauses hm hn time j.levels)]
      exact ⟨_, rfl⟩

end Logger

namespace Database

/-- After an extraction nothing keeps a report from being made, unless a log file cannot be one. -/
theorem report_ok {db : Database Value} {c : Config} {r : FeatureRecord Value}
    (extracted : db.extractWith c = .ok r)
    (counts : ∃ m n : ℤ, IsCount m ∧ IsCount n ∧ r.numVars = .int m ∧ r.numClauses = .int n)
    (checked : c.checkTier = .ok ()) (loggable : c.IsLoggable) (time : Float) (j : Journal) :
    ∃ out j', db.report c (.real time) j = .ok (r, out, j') := by
  obtain ⟨logger, made, verbosity, file⟩ : ∃ logger, Logger.make (.number c.verbosity) c.logFile = .ok logger ∧
      logger.verbosity = .number c.verbosity ∧ ∀ name, logger.file = some name → Text.isPath name = true := by
    rcases loggable with missing | ⟨path, given, isPath⟩
    · rw [missing]
      exact ⟨_, rfl, rfl, nofun⟩
    · rw [given]
      refine ⟨_, rfl, rfl, ?_⟩
      rintro _ ⟨⟩
      exact isPath
  obtain ⟨m, n, hm, hn, vars, clauses⟩ := counts
  obtain ⟨out, printed⟩ := Logger.printed_ok vars clauses hm hn verbosity time j.levels
  obtain ⟨j', written⟩ := Logger.write_ok vars clauses hm hn file time j
  refine ⟨out, j', ?_⟩
  simp only [report, checked, ok_bind, made, extracted, Logger.log, printed, written]
  rfl

/-- After a run without markers, and with fewer literals than doubles can count, an extraction under an
accepted configuration succeeds exactly if both distributions are computed and finite. Then the vector has
all its entries, all of them finite, and the report is made. Within limits of glues, activities and the
increment both distributions are finite, provided that the tier is an index. -/
theorem extract_run (vars : ℕ) (calls : List (Call Value)) {eps tier verbosity file : Value} {c : Config}
    (made : Config.make eps tier verbosity file = .ok c) (checked : c.checkTier = .ok ())
    (unmarked : ∀ a ∈ (empty vars).history calls, a.1.isMarker = false)
    (few : ((empty vars : Database Value).added calls).length ≤ 2 ^ 53) :
    let db := (empty vars).run calls
    ((∃ r, db.extractWith c = .ok r) ↔ db.Distributes c.redTier) ∧
      (∀ r, db.extractWith c = .ok r →
        (∃ xs, r.vector = .ok xs ∧ xs.length = FeatureRecord.dimension ∧ ∀ x ∈ xs, x.isFinite = true) ∧
          (c.IsLoggable → ∀ time j, ∃ out j', db.report c (.real time) j = .ok (r, out, j'))) ∧
      (c.redTier.int?.isSome = true → db.Moderate → ∃ r, db.extractWith c = .ok r) := by
  intro db
  obtain ⟨r, computed, fine⟩ := core_run vars unmarked few (Config.threshold_of_make made)
  have answers (s : FeatureRecord Value) : db.extractWith c = .ok s ↔ _ :=
    extract_eq_ok_iff computed fine
  have succeeds : (∃ s, db.extractWith c = .ok s) ↔ db.Distributes c.redTier := by
    constructor
    · rintro ⟨s, extracted⟩
      obtain ⟨d, e, redundant, irredundant, finite, -⟩ := (answers s).mp extracted
      exact ⟨⟨d, redundant, finite.1⟩, e, irredundant, finite.2⟩
    · rintro ⟨⟨d, redundant, finite⟩, e, irredundant, finite'⟩
      exact ⟨_, (answers _).mpr ⟨d, e, redundant, irredundant, ⟨finite, finite'⟩, rfl⟩⟩
  refine ⟨succeeds, fun s extracted => ⟨?_, fun loggable => report_ok extracted ?_ checked loggable⟩,
    fun index moderate => succeeds.mpr ?_⟩
  · obtain ⟨d, e, redundant, irredundant, finite, rfl⟩ := (answers s).mp extracted
    have hd := tierDistribution_real redundant
    have he := Distribution.ofOffsets_real irredundant
    obtain ⟨xs, array, length, all⟩ := FeatureRecord.vector_ok (fine.doubles hd he)
    exact ⟨xs, array, length, all.mpr ((fine.heldFinite_iff hd he).mpr finite)⟩
  · obtain ⟨d, e, -, -, -, rfl⟩ := (answers s).mp extracted
    exact fine.counts
  · obtain ⟨t, index⟩ := Option.isSome_iff_exists.mp index
    obtain ⟨k, rfl, inside⟩ := Config.index_of_checkTier checked index
    exact distributes_of_moderate vars few moderate index inside

/-- Three clauses, of which a redundant one has a glue and an activity that are integers. -/
theorem extract_run_learned :
    let calls : List (Call Value) :=
      [.addClause { lits := [⟨0⟩, ⟨2⟩, ⟨4⟩, ⟨6⟩], activity := .real 0.5 },
        .addClause { lits := [⟨1⟩, ⟨4⟩], activity := .int 0 },
        .addClause { lits := [⟨0⟩, ⟨3⟩, ⟨5⟩, ⟨6⟩], red := true, glue := .int 2, activity := .int 3 }]
    ∃ r, ((empty 4).run calls).extractWith .default = .ok r ∧
      ∃ xs, r.vector = .ok xs ∧ xs.length = 43 ∧ ∀ x ∈ xs, x.isFinite = true := by
  intro calls
  have made : Config.make (.number Config.defaultEps) (.int 0) (.int 0) .null = .ok .default := by
    decide +kernel
  have unmarked : ∀ a ∈ (empty 4).history calls, a.1.isMarker = false := by decide +kernel
  have few : ((empty 4 : Database Value).added calls).length ≤ 2 ^ 53 := by decide +kernel
  have bodies : ((empty 4).run calls).store.bodies =
      #[⟨[⟨0⟩, ⟨2⟩, ⟨4⟩, ⟨6⟩], false, .int 0, .real 0.5⟩,
        ⟨[⟨0⟩, ⟨3⟩, ⟨5⟩, ⟨6⟩], true, .int 2, .int 3⟩] := by decide +kernel
  have increment : ((empty 4).run calls).increment = .real 1 := by decide +kernel
  have small {n : ℤ} (hn : IsCount n) (m : ℕ) (hm : 53 ≤ m) : ∃ x,
      (Value.int n).toDouble = .ok x ∧ x.isFinite = true ∧ 0 ≤ value x ∧ value x ≤ 2 ^ m := by
    obtain ⟨x, converted, finite, exact⟩ := Number.toDouble_count hn
    refine ⟨x, converted, finite, by rw [exact]; exact_mod_cast hn.1, ?_⟩
    rw [exact]
    calc (n : ℚ) ≤ 2 ^ 53 := by exact_mod_cast hn.2
      _ ≤ 2 ^ m := pow_le_pow_right₀ (by norm_num) hm
  have moderate : ((empty 4).run calls).Moderate := by
    refine ⟨?_, ?_, 1, by rw [increment]; rfl, rfl, by rw [value_one]; norm_num⟩
    all_goals
      rw [bodies]
      simp only [List.mem_toArray, List.forall_mem_cons]
    · exact ⟨small ⟨by decide, by decide⟩ 400 (by decide),
        small ⟨by decide, by decide⟩ 400 (by decide), nofun⟩
    · have half : value 0.5 ≤ 1 := by rw [value_half]; norm_num
      exact ⟨⟨0.5, rfl, rfl, by rw [value_half]; norm_num, half.trans (one_le_pow₀ one_le_two)⟩,
        small ⟨by decide, by decide⟩ 300 (by decide), nofun⟩
  obtain ⟨-, vector, succeeds⟩ := extract_run 4 calls made (by decide +kernel) unmarked few
  obtain ⟨r, extracted⟩ := succeeds rfl moderate
  exact ⟨r, extracted, (vector r extracted).1⟩

/-- Four clauses with the activities `0`, `0`, `2 ^ 512` and `2 ^ 512`: the variance of their activities is
`2 ^ 1022`, but the sum of the squared deviations is four times as large and no double. -/
theorem extract_run_overflow :
    let large : Float := .ofBits 0x5FF0000000000000
    let clause (x : Float) : Call Value := .addClause { lits := [⟨0⟩, ⟨2⟩, ⟨4⟩, ⟨6⟩], activity := .real x }
    let calls := [clause 0, clause 0, clause large, clause large]
    let db := (empty 4).run calls
    value large = 2 ^ 512 ∧ ((empty 4).history calls).length = calls.length ∧
      (∀ a ∈ (empty 4).history calls, a.1.isMarker = false) ∧
      db.store.bodies.map Clause.activity = #[.real 0, .real 0, .real large, .real large] ∧
      db.increment = .real 1 ∧ Config.ofSettings [] = .ok .default ∧ Config.default.checkTier = .ok () ∧
      db.extractWith .default = .error (.infiniteValues "feature vector" 1) := by
  intro large clause calls db
  refine ⟨?_, by decide +kernel, by decide +kernel, by decide +kernel, by decide +kernel,
    by decide +kernel, by decide +kernel, by decide +kernel⟩
  have pattern : large.toModel.unpack = .finite .positive (2 ^ 52) 460 (by decide) :=
    (unpack_ofBits _).trans rfl
  rw [value, pattern, exact, factor, one_mul, Nat.cast_pow, Nat.cast_ofNat, ← zpow_natCast,
    ← zpow_natCast, ← zpow_add₀ two_ne_zero]
  rfl

end Database

end ClauseFeatures
