import ClauseFeatures.Proofs.ActiveVariables
import ClauseFeatures.Proofs.Correspondence
import ClauseFeatures.Proofs.Sign

/-!
Degenerate populations. A database has irredundant clauses exactly if variables occur in some, so the two
populations that the features are averaged over are empty together. Every divisor of an extraction was
tested before or counts at least one; rounding does not take it to zero, so nothing is divided by zero.
-/
namespace ClauseFeatures

open Float.Model Float.Model.UnpackedFloat

/-! Doubles that are zero. -/

namespace Double

variable {x y : Float} {u : UnpackedFloat}

theorem beq_zero_iff : (x == 0) = true ↔ ∃ s, x.toModel.unpack = .zero s := by
  change (x.toModel.unpack.compare (.zero .positive) == some .eq) = true ↔ _
  generalize x.toModel.unpack = u
  cases u with
  | zero s => exact ⟨fun _ => ⟨s, rfl⟩, fun _ => rfl⟩
  | notANumber => exact ⟨nofun, nofun⟩
  | infinity s | finite s m e p => cases s <;> exact ⟨nofun, nofun⟩

theorem compareInt_zero : compareInt x 0 = some .eq ↔ (x == 0) = true := by
  cases finite : x.isFinite with
  | true =>
      rw [compareInt_eq finite, beq_iff finite rfl, value_zero, Int.cast_zero, Option.some.injEq,
        compare_eq_iff_eq]
  | false =>
      have stored := stored x
      rw [beq_zero_iff, compareInt, parts_eq]
      unfold Float.isFinite Float.Model.isFinite at finite
      generalize x.toModel.unpack = u at finite ⊢
      cases u with
      | notANumber => exact ⟨nofun, nofun⟩
      | infinity s => cases s <;> exact ⟨nofun, nofun⟩
      | zero _ | finite _ _ _ _ => cases finite

/-- A canonical number that is not zero is packed into a double that is not zero, even if it is too large. -/
theorem pack_ne_zero (canonical : Canonical u) (nonzero : exact u ≠ 0) :
    ¬ (Float.ofModel (.pack u) == 0) = true := by
  rw [beq_zero_iff]
  rintro ⟨t, unpacked⟩
  cases u with
  | infinity _ | notANumber => exact canonical.elim
  | zero _ => exact nonzero rfl
  | finite s m e p =>
      obtain ⟨small, least, normal⟩ := canonical
      by_cases most : e ≤ 971
      · have stored : Stored (.finite s m e p) := ⟨small, least, most, normal⟩
        rw [unpack_ofModel_pack stored] at unpacked
        cases unpacked
      · have beyond : UnpackedFloat.pack Format.binary64 (.finite s m e p) =
            UnpackedFloat.pack Format.binary64 (.infinity s) := by
          have bias : (Format.binary64.exponentBias : ℤ) = 1023 := by decide
          refine if_pos ?_
          change 2 ^ 11 ≤ (e + (Format.binary64.exponentBias : ℤ) + (52 : ℕ)).toNat + 1
          omega
        have infinite : (Float.ofModel (.pack (.finite s m e p))).toModel.unpack = .infinity s := by
          change UnpackedFloat.unpack Format.binary64 (UnpackedFloat.pack Format.binary64 _) = _
          rw [beyond, unpack_pack (u := .infinity s) trivial]
        rw [infinite] at unpacked
        cases unpacked

theorem exact_ne_zero {s : Sign} {m : ℕ} {e : ℤ} (p : 0 < m) : exact (.finite s m e p) ≠ 0 := by
  have positive : (0 : ℚ) < m * 2 ^ e := mul_pos (by exact_mod_cast p) (by positivity)
  cases s with
  | negative => exact mul_ne_zero (by norm_num [factor]) positive.ne'
  | positive => exact mul_ne_zero (by norm_num [factor]) positive.ne'

theorem pack_parts_ne_zero {s : Sign} {m : ℕ} {e : ℤ} (long : 2 ^ 52 ≤ m)
    (finite : (pack (isSet s) m e).isFinite) : value (pack (isSet s) m e) ≠ 0 := by
  obtain ⟨magnitude, hm⟩ : ∃ magnitude, magnitude = (e + 1074).toNat * 2 ^ 52 + m := ⟨_, rfl⟩
  have packed : pack (isSet s) m e = if 2047 * 2 ^ 52 ≤ magnitude then infinity (isSet s)
      else Float.ofBits (UInt64.ofNat (magnitude + if isSet s then 2 ^ 63 else 0)) := by
    rw [hm]
    rfl
  rw [packed] at finite ⊢
  split at finite
  · cases s <;> cases finite
  · rename_i fits
    rw [if_neg fits, value, unpack_ofNat (by omega), ofFields, if_neg (by omega), if_neg (by omega)]
    exact exact_ne_zero _

/-- The double nearest to an integer other than zero is not zero. -/
theorem ofInt?_ne_zero {n : ℤ} (nonzero : n ≠ 0) (converted : ofInt? n = some x) :
    x.isFinite ∧ value x ≠ 0 := by
  obtain ⟨s, hs⟩ := isSet_surjective (decide (n < 0))
  obtain ⟨e, he⟩ : ∃ e, e = roundingExponent n.natAbs 1 := ⟨_, rfl⟩
  obtain ⟨m, hm⟩ : ∃ m, m = roundDiv (scaled n.natAbs 1 e).1 (scaled n.natAbs 1 e).2 := ⟨_, rfl⟩
  have nearest_eq : nearest (decide (n < 0)) n.natAbs 1 = pack (isSet s) m e := by
    rw [hm, he, hs]
    rfl
  rw [ofInt?, nearest_eq] at converted
  obtain ⟨finite, same⟩ := Option.ite_none_right_eq_some.mp converted
  cases same
  refine ⟨finite, pack_parts_ne_zero ?_ finite⟩
  obtain ⟨-, below, normal⟩ := he ▸ roundingExponent_spec n.natAbs one_pos
  obtain ⟨positive, exact⟩ := scaled_spec n.natAbs one_pos e
  obtain ⟨-, down⟩ := roundDiv_spec (scaled n.natAbs 1 e).1 positive
  rw [exact, ← hm] at down
  have one : (1 : ℚ) ≤ n.natAbs := by exact_mod_cast Int.natAbs_pos.mpr nonzero
  -- At the least exponent even one would have too many digits.
  have long : (2 ^ 52 : ℚ) ≤ n.natAbs / (1 : ℕ) / 2 ^ e := by
    refine normal.resolve_left fun least => ?_
    have small : (2 : ℚ) ^ (-1074 : ℤ) ≤ 2 ^ (-53 : ℤ) := zpow_le_zpow_right₀ (by norm_num) (by decide)
    rw [least, Nat.cast_one, div_one, div_lt_iff₀ (by positivity)] at below
    have : (2 : ℚ) ^ 53 * 2 ^ (-53 : ℤ) = 1 := by norm_num
    nlinarith
  exact_mod_cast down ((2 ^ 52 : ℕ) : ℤ) (by push_cast; exact long)

/-- Doubling takes no double to zero. -/
theorem two_mul_ne_zero (finite : x.isFinite) (nonzero : value x ≠ 0) : ¬ (2 * x == 0) = true := by
  have rounded : RoundsTo (value 2 * value x) _ :=
    roundsTo_mul (isFinite_iff.mp (show (2 : Float).isFinite = true from rfl)) (isFinite_iff.mp finite)
  have grid : Grid (value 2 * value x) := by
    obtain ⟨m, e, hm, he, eq⟩ := grid_value finite
    rw [eq, value_two, mul_left_comm, ← zpow_one_add₀ two_ne_zero]
    exact .scaled hm (by omega)
  refine pack_ne_zero rounded.canonical ?_
  rw [rounded.rounds.eq grid, value_two]
  exact mul_ne_zero two_ne_zero nonzero

end Double

/-! Numbers that are not zero. -/

namespace Number

open Double

variable {a b : Number} {y : Float}

theorem toDouble_ne_zero (nonzero : b.equal 0 = false) (converted : b.toDouble = .ok y) :
    ¬ (y == 0) = true := by
  cases b with
  | truth b =>
      cases b with
      | true =>
          cases converted
          refine not_beq_zero rfl ?_
          change value 1 ≠ 0
          rw [value_one]
          exact one_ne_zero
      | false => cases nonzero
  | real x =>
      obtain rfl := Except.ok.inj converted
      intro zero
      rw [← compareInt_zero] at zero
      change (compareInt x 0 == some .eq) = false at nonzero
      rw [zero] at nonzero
      cases nonzero
  | int n =>
      have given : n ≠ 0 := by
        rintro rfl
        cases nonzero
      rw [toDouble_int] at converted
      cases rounded : ofInt? n with
      | none =>
          rw [rounded] at converted
          cases converted
      | some x =>
          rw [rounded] at converted
          cases converted
          obtain ⟨finite, nonzero⟩ := ofInt?_ne_zero given rounded
          exact not_beq_zero finite nonzero

theorem real_combine_eq (f : ℤ → ℤ → ℤ) (g : Float → Float → Float) (x : Float) (b : Number) :
    combine f g (.real x) b = (b.toDouble >>= fun y => .ok (.real (g x y))) := rfl

theorem int_ne_zero_of_equal {n : ℤ} (nonzero : b.equal 0 = false) (whole : b.int? = some n) : n ≠ 0 := by
  rintro rfl
  cases b with
  | real _ => cases whole
  | int m =>
      cases whole
      cases nonzero
  | truth b =>
      cases b with
      | false => cases nonzero
      | true => cases whole

/-- A division by a number other than zero may overflow. -/
theorem div_failsNumerically (a : Number) (nonzero : b.equal 0 = false) : FailsNumerically (a.div b) := by
  unfold div
  split
  · rename_i m n whole whole'
    rw [if_neg (int_ne_zero_of_equal nonzero whole')]
    split
    · exact .ok _
    · exact .error rfl
  · refine (toDouble_failsNumerically a).bind fun x => ?_
    refine (toDouble_failsNumerically b).bind_of_ok fun y converted => ?_
    rw [if_neg (toDouble_ne_zero nonzero converted)]
    exact .ok _

/-- What is above a threshold is not zero. -/
theorem IsThreshold.ne_zero_of_lt {e : Number} (he : IsThreshold e) (above : e.lt a = true) :
    a.equal 0 = false := by
  have low : ¬ e.compare? (.int 0) = some .lt := by
    intro below
    have least := he.1
    change ((Number.int 0).compare? e == some .lt || (Number.int 0).compare? e == some .eq) = true at least
    rw [compare_zero_swap, below] at least
    cases least
  rw [lt, beq_iff_eq] at above
  by_contra zero
  rw [Bool.not_eq_false, equal, beq_iff_eq] at zero
  cases a with
  | truth b =>
      cases b with
      | true => cases zero
      | false =>
          cases e with
          | truth b => cases b <;> exact low above
          | int _ | real _ => exact low above
  | int n =>
      have zero : some (compare n 0) = some .eq := zero
      rw [Option.some.injEq, compare_eq_iff_eq] at zero
      exact low (zero ▸ above)
  | real y =>
      have zero : (y == 0) = true := compareInt_zero.mp zero
      obtain ⟨s, unpacked⟩ := beq_zero_iff.mp zero
      have finite : y.isFinite := isFinite_iff.mpr (by rw [unpacked]; trivial)
      rw [beq_iff finite rfl, value_zero] at zero
      have positive := he.pos_of_lt finite (beq_iff_eq.mpr above)
      exact positive.ne' zero

theorem isThreshold_zero : IsThreshold 0 := ⟨rfl, rfl⟩

end Number

namespace Value

theorem ne_zero_of_lt {e : Number} (he : e.IsThreshold) {v : Value} (h : lt (.number e) v = .ok true) :
    Quantity.isZero v = false := by
  obtain ⟨a, rfl, above⟩ := exists_number_of_lt h
  exact he.ne_zero_of_lt above

/-- Twice a positive count is not zero, not even if it is too large for a double. -/
theorem ne_zero_of_twice {n : ℤ} (positive : 0 < n) {v : Value}
    (h : Arithmetic.mul Arithmetic.two (Quantity.ofInt n) = .ok v) : Quantity.isZero v = false := by
  change (Number.mul (.real 2) (.int n)).map Value.number = .ok v at h
  rw [Number.mul, Number.real_combine_eq, Number.toDouble_int] at h
  cases rounded : Double.ofInt? n with
  | none =>
      rw [rounded] at h
      cases h
  | some x =>
      rw [rounded] at h
      cases h
      obtain ⟨finite, nonzero⟩ := Double.ofInt?_ne_zero positive.ne' rounded
      have product := Double.two_mul_ne_zero finite nonzero
      change (Double.compareInt (2 * x) 0 == some .eq) = false
      rwa [← Double.compareInt_zero, ← beq_iff_eq, Bool.not_eq_true] at product

theorem kind_of_isNumeric {e : Failure} (h : e.isNumeric = true) : e.kind ≠ .zeroDivision := by
  cases e <;> first | (cases h; done) | nofun

/-- Under a threshold from zero on, dynamic values compute without a division by zero. -/
theorem computes_nonzero {eps : Number} (threshold : eps.IsThreshold) :
    Computes Value (fun e => e.kind ≠ .zeroDivision) (fun v => Quantity.isZero v = false)
      (.number eps) := by
  refine computes_of (fun _ => kind_of_isNumeric) ?_ (fun _ => id) ?_ ?_ ?_ fun _ _ positive => ne_zero_of_twice positive
  · intro a b nonzero
    have numeric : FailsNumerically (onNumbers Number.div a b) := by
      unfold onNumbers
      split
      · exact (Number.div_failsNumerically _ nonzero).map _
      · exact .error rfl
    exact numeric.imp fun _ => kind_of_isNumeric
  · intro v positive
    exact ne_zero_of_lt Number.isThreshold_zero positive
  · intro v above
    exact ne_zero_of_lt threshold above
  · intro n positive
    change (some (compare n 0) == some .eq) = false
    rw [beq_eq_false_iff_ne, Ne, Option.some.injEq, compare_eq_iff_eq]
    exact positive.ne'

end Value

/-! Extraction and report. -/

theorem Logger.told_failsNumerically (levels : ℕ) (v : Value) : FailsNumerically (told levels v) :=
  (Value.checked_fails _ v _).imp fun _ h => h.elim (fun same => same ▸ rfl) fun deep => deep.2 ▸ rfl

theorem Logger.log_failsNumerically (l : Logger) (metrics : Value) (j : Journal) :
    FailsNumerically (l.log metrics j).2.2 := by
  have duration (v : Value) : FailsNumerically (durationText v) := by
    unfold durationText
    split
    · exact (Number.toDouble_failsNumerically _).bind fun _ => .ok _
    all_goals exact .error rfl
  have line (entries : List (Value × Value)) : FailsNumerically (line j.levels entries) :=
    (duration _).bind fun _ => (told_failsNumerically _ _).bind fun _ => (told_failsNumerically _ _).bind fun _ => .ok _
  have printed : FailsNumerically (l.printed j.levels metrics) := by
    refine ((Value.isBelow_fails _ _ _).imp fun e h => h ▸ rfl).bind fun isTalkative => .ite ?_ (.ok _)
    split
    · exact .ite (line _) (.ok _)
    · exact .error rfl
  have entry : FailsNumerically (entry j.levels metrics) := (told_failsNumerically _ _).bind fun _ => .ok _
  have written : FailsNumerically (l.write metrics j).2 := by
    unfold Logger.write
    split
    · exact .ok _
    · split
      · split
        · exact .ok _
        · rename_i e failed
          exact .error (entry e failed)
      · exact .error rfl
  unfold Logger.log
  split
  · exact written
  · rename_i e failed
    exact .error (printed e failed)

theorem Config.checkTier_failsNumerically (c : Config) : FailsNumerically c.checkTier := by
  have below (v w : Value) : FailsNumerically (v.le w) := (Value.isBelow_fails _ _ _).imp fun e h => h ▸ rfl
  refine (bothHold_fails (below _ _) (below _ _)).bind fun _ => .ite (.ok _) ?_
  exact .telling rfl (Value.told_fails _) fun _ => .telling rfl (Value.told_fails _) fun _ =>
    .telling rfl (Value.told_fails _) fun _ => .error rfl

theorem Logger.make_failsNumerically (verbosity logFile : Value) :
    FailsNumerically (Logger.make verbosity logFile) := by
  unfold Logger.make
  split
  · exact .ok _
  · exact .ok _
  · exact .error rfl

namespace Database

theorem extractWith_nonzero {vars : ℕ} {es : List (Effect Value)} {db : Database Value}
    (built : Built vars es db) (unmarked : ∀ e ∈ es, e.isMark = false) {c : Config}
    (threshold : c.eps.IsThreshold) : FailsOnly (fun e => e.kind ≠ .zeroDivision) (db.extractWith c) := by
  have finished : db.traversal.failure = none :=
    congrArg Traversal.failure (built.traversal_eq unmarked)
  exact built.extract_fails (Value.computes_nonzero threshold) finished (built.ofDatabase_eq unmarked) _

theorem report_nonzero {db : Database Value} {c : Config}
    (extraction : FailsOnly (fun e => e.kind ≠ .zeroDivision) (db.extractWith c)) (time : Value)
    (j : Journal) : FailsOnly (fun e => e.kind ≠ .zeroDivision) (db.report c time j) := by
  have numeric {α : Type} {x : Except Failure α} (h : FailsNumerically x) :
      FailsOnly (fun e => e.kind ≠ .zeroDivision) x := h.imp fun _ => Value.kind_of_isNumeric
  refine (numeric c.checkTier_failsNumerically).bind fun _ => ?_
  refine (numeric (Logger.make_failsNumerically _ _)).bind fun logger => extraction.bind fun r => ?_
  exact (numeric (logger.log_failsNumerically _ j)).bind fun _ => .ok _

/-! Empty populations. -/

section Empty

variable {K E : Type} [Element E] [Arithmetic K E] {db : Database K}

theorem irredCount_eq_zero_iff (met : db.Met) : db.irredCount = 0 ↔ db.traversal.views = [] := by
  rw [irredCount_eq_length met, Int.natCast_eq_zero, List.length_eq_zero_iff]

theorem longIrred_eq_nil (met : db.Met) (none : db.irredCount = 0) : db.longIrred = [] := by
  have binary := met.binary
  have ternary := met.ternary
  rw [irredCount] at none
  apply List.length_eq_zero_iff.mp
  omega

/-- Some variable occurs exactly if some clause is met. -/
theorem activeCount_eq_zero_iff {vars : ℕ} {views : List ClauseView}
    (inside : ∀ v ∈ views, ∀ l ∈ v.lits, l.var < vars) (sizes : ∀ v ∈ views, 2 ≤ v.size) :
    (Occurrences.ofViews vars views).activeCount = 0 ↔ views = [] := by
  rw [Occurrences.activeCount_ofViews, List.length_eq_zero_iff]
  cases views with
  | nil =>
      refine ⟨fun _ => rfl, fun _ => List.eq_nil_iff_forall_not_mem.mpr fun var active => ?_⟩
      obtain ⟨-, l, literal, -⟩ := mem_activeVariables.mp active
      cases literal
  | cons v views =>
      refine ⟨fun none => ?_, nofun⟩
      have some : 0 < v.lits.length := Nat.lt_of_lt_of_le Nat.two_pos (sizes v List.mem_cons_self)
      obtain ⟨l, hl⟩ := List.exists_mem_of_length_pos some
      have active : l.var ∈ activeVariables vars (v :: views) := mem_activeVariables.mpr
        ⟨inside v List.mem_cons_self l hl, l, List.mem_flatMap.mpr ⟨v, List.mem_cons_self, hl⟩, rfl⟩
      rw [none] at active
      cases active

end Empty

/-- Without irredundant clauses the record is that of an empty database, apart from redundant clauses. -/
theorem extract_of_irredCount {db : Database Value} {occ : Occurrences} {eps : Value} {tier : Number}
    {r : FeatureRecord Value} (counted : Occurrences.ofDatabase db = .ok occ)
    (inactive : occ.activeCount = 0) (none : db.irredCount = 0) (long : db.longIrred = [])
    (extracted : db.extract eps tier = .ok r) : { r with redundant := .zero } = FeatureRecord.zero := by
  obtain ⟨core, redundant, irredundant, hcore, hirred, rfl⟩ := parts_of_extract extracted
  have zero : Distribution.zero = irredundant := by
    rw [irredDistribution, long] at hirred
    obtain ⟨_, -, hirred⟩ := bind_eq_ok hirred
    exact Except.ok.inj hirred
  rw [core_eq, counted, ok_bind, inactive, none] at hcore
  cases hcore
  rw [← zero]
  rfl

/-- After every run without accepted markers, and with a threshold from zero on, variables occur exactly if
irredundant clauses are counted, and exactly if some are met. Neither an extraction nor its report divides
by zero, and without such clauses the record is that of an empty database, apart from redundant clauses. -/
theorem degenerate_run (vars : ℕ) (calls : List (Call Value))
    (unmarked : ∀ a ∈ (empty vars).history calls, a.1.isMarker = false) (c : Config)
    (threshold : c.eps.IsThreshold) :
    let db := (empty vars).run calls
    (∃ occ, Occurrences.ofDatabase db = .ok occ ∧ (occ.activeCount = 0 ↔ db.irredCount = 0)) ∧
      (db.irredCount = 0 ↔ db.traversal.views = []) ∧
      FailsOnly (fun e => e.kind ≠ .zeroDivision) (db.extractWith c) ∧
      (∀ time j, FailsOnly (fun e => e.kind ≠ .zeroDivision) (db.report c time j)) ∧
      (db.irredCount = 0 → ∀ r, db.extractWith c = .ok r →
        { r with redundant := .zero } = FeatureRecord.zero) := by
  intro db
  have built : Built vars _ db := built_run vars calls
  have met : db.Met := met_run vars unmarked
  have counted : Occurrences.ofDatabase db = .ok (.ofViews db.vars db.traversal.views) :=
    ofDatabase_run vars unmarked
  have inactive := activeCount_eq_zero_iff built.views_existing (two_le_of_mem_views vars unmarked)
  have populated := irredCount_eq_zero_iff met
  have extraction := extractWith_nonzero built (isMark_of_history unmarked) threshold
  refine ⟨⟨_, counted, inactive.trans populated.symm⟩, populated, extraction, report_nonzero extraction,
    fun none r extracted => ?_⟩
  exact extract_of_irredCount counted (inactive.mpr (populated.mp none)) none (longIrred_eq_nil met none)
    extracted

/-- Two redundant clauses only: their variables are not active, and of the record only their distribution is
not that of an empty database. -/
theorem degenerate_run_learned :
    let calls : List (Call Value) :=
      [.addClause { lits := [⟨0⟩, ⟨1⟩], red := true, activity := .int 0 },
        .addClause { lits := [⟨0⟩, ⟨2⟩, ⟨4⟩, ⟨7⟩], red := true, activity := .int 3 }]
    let db := (empty 5).run calls
    ∃ r, db.extractWith .default = .ok r ∧ { r with redundant := .zero } = FeatureRecord.zero ∧
      r ≠ FeatureRecord.zero := by
  intro calls db
  have unmarked : ∀ a ∈ (empty 5).history calls, a.1.isMarker = false := by decide +kernel
  obtain ⟨r, extracted⟩ : ∃ r, db.extractWith .default = .ok r := exists_ok_of_isSome (by decide +kernel)
  have threshold : Config.default.eps.IsThreshold := ⟨by decide +kernel, by decide +kernel⟩
  obtain ⟨-, -, -, -, empty⟩ := degenerate_run 5 calls unmarked .default threshold
  refine ⟨r, extracted, empty (by decide +kernel) r extracted, ?_⟩
  rintro rfl
  have other : db.extractWith .default ≠ .ok .zero := by decide +kernel
  exact other extracted

end Database

end ClauseFeatures
