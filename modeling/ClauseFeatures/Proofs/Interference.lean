import ClauseFeatures.Extractor
import ClauseFeatures.Proofs.Agreement

/-!
Redundant clauses do not interfere with the features of the formula. Two runs without markers that differ
only by added redundant clauses, wherever these were added and whether or not they were accepted, cannot be
told apart by what is extracted of irredundant clauses.
-/
namespace ClauseFeatures

variable {K : Type}

namespace Call

def isRedundant : Call K → Bool
  | addClause p => p.red
  | _ => false

/-- Whether a call adds a redundant clause that is inline or belongs to another tier. -/
def isRedundantOutside (tier : Number) : Call K → Bool
  | addClause p => p.red && (decide (p.lits.length < 4) || !p.tier.equal (.number tier))
  | _ => false

theorem isRedundant_of_outside {tier : Number} {c : Call K} (h : c.isRedundantOutside tier = true) :
    c.isRedundant = true := by
  cases c with
  | addClause p => exact (Bool.and_eq_true _ _ ▸ h).1
  | newVar | newVars _ | setIncrement _ | addMarker _ _ => cases h

end Call

/-! Two runs. -/

namespace Database

variable [Quantity K] {vars vars' : Nat} {es es' : List (Effect K)} {db db' : Database K}
  {t : Option Nat}

theorem plan_seen (hv : db.vars = db'.vars) (t : Option Nat) (c : Call K) :
    (db.plan c).1.bind (Effect.seen? t) = (db'.plan c).1.bind (Effect.seen? t) := by
  cases c with
  | newVar | newVars _ | setIncrement _ => rfl
  | addMarker _ _ => rw [plan, plan, hv]
  | addClause p =>
      have check : db.check p = db'.check p := by rw [Database.check, Database.check, hv]
      simp only [plan, check]
      cases db'.check p with
      | error e => rfl
      | ok c =>
          simp only [planLong]
          split
          · rfl
          · split
            · cases checkTier p.tier with
              | error e => rfl
              | ok _ => cases p.tier.number?.bind Number.int? <;> rfl
            · rfl

theorem vars_call (hs : db.Shaped) (t : Option Nat) (c : Call K) :
    (db.call c).1.vars =
      ((db.plan c).1.bind (Effect.seen? t)).elim db.vars fun e => e.grown db.vars := by
  rw [call_eq hs, carryOut]
  cases (db.plan c).1 with
  | none => rfl
  | some e =>
      have seen := (Effect.reads_grown t db.vars).seen e
      rw [Option.elim_some, Option.bind_some]
      refine Eq.trans ?_ seen.symm
      cases e <;> rfl

/-- Calls whose effects are hidden can be left out of a run. -/
theorem seen_effects {hidden : Call K → Bool}
    (hides : ∀ c, hidden c = true → ∀ (db : Database K) (e : Effect K),
      (db.plan c).1 = some e → e.isHidden t = true)
    (h : Built vars es db) (h' : Built vars' es' db') (hv : db.vars = db'.vars) (cs : List (Call K)) :
    (db.effects cs).filterMap (Effect.seen? t) =
      (db'.effects (cs.filter fun c => !hidden c)).filterMap (Effect.seen? t) := by
  have unseen (c : Call K) (hc : hidden c = true) (db : Database K) :
      (db.plan c).1.bind (Effect.seen? t) = none := by
    cases hp : (db.plan c).1 with
    | none => rfl
    | some e => exact if_pos (hides c hc db e hp)
  have ofPlan (o : Option (Effect K)) :
      o.toList.filterMap (Effect.seen? t) = (o.bind (Effect.seen? t)).toList := by
    cases o with
    | none => rfl
    | some e => cases he : e.seen? t <;> simp [he]
  induction cs generalizing es es' db db' with
  | nil => rfl
  | cons c cs ih =>
      rw [effects, List.filterMap_append, ofPlan]
      cases hc : hidden c with
      | true =>
          have vars : (db.call c).1.vars = db'.vars := by
            rw [vars_call h.shaped t, unseen c hc db]
            exact hv
          rw [List.filter_cons, hc, unseen c hc db, ih (built_call h c) h' vars]
          rfl
      | false =>
          have vars : (db.call c).1.vars = (db'.call c).1.vars := by
            rw [vars_call h.shaped t, vars_call h'.shaped t, plan_seen hv, hv]
          rw [List.filter_cons, hc, ih (built_call h c) (built_call h' c) vars, plan_seen hv]
          simp only [Bool.not_false, ite_true, effects, List.filterMap_append, ofPlan]

/-- An added redundant clause is hidden, unless it is long and its tier is the one that is seen. -/
theorem isHidden_of_red {p : Proposal K} (red : p.red = true)
    (other : ∀ k : Nat, t = some k → 4 ≤ p.lits.length →
      p.tier.number?.bind Number.int? ≠ some (k : Int))
    (db : Database K) (e : Effect K) (he : (db.plan (.addClause p)).1 = some e) :
    e.isHidden t = true := by
  obtain ⟨_, planned⟩ := exists_planned he
  cases planned with
  | stranded hs => simp [Effect.isHidden, hs.body_red]
  | accepted ha hs =>
      cases ha with
      | inline _ => exact red
      | @long _ c tier lits hr _ index _ =>
          have red : c.red = true := hr.trans red
          cases tier with
          | none => simp [Effect.isHidden, red]
          | some k =>
              have unlisted : some k ≠ t := by
                rintro rfl
                exact other k rfl (lits ▸ hs.fits.2) (index k rfl)
              simp [Effect.isHidden, red, unlisted]

theorem isRedundant_hides (c : Call K) (hc : c.isRedundant = true) (db : Database K) (e : Effect K)
    (he : (db.plan c).1 = some e) : e.isHidden none = true := by
  cases c with
  | addClause p => exact isHidden_of_red hc (by rintro _ ⟨⟩) db e he
  | newVar | newVars _ | setIncrement _ | addMarker _ _ => cases hc

end Database

theorem Number.equal_of_int? {a b : Number} {n : Int} (ha : a.int? = some n) (hb : b.int? = some n) :
    a.equal b = true := by
  have cmp (m : Int) : (some (compare m m) == some Ordering.eq) = true := by
    rw [Int.compare_eq_eq.mpr rfl]
    rfl
  cases a with
  | real _ => cases ha
  | int a =>
      cases ha
      cases b with
      | real _ => cases hb
      | int b =>
          cases hb
          exact cmp n
      | truth b => cases b <;> cases hb <;> rfl
  | truth a =>
      cases b with
      | real _ => cases hb
      | int b =>
          cases hb
          cases a <;> cases ha <;> rfl
      | truth b => cases a <;> cases b <;> cases ha <;> first | rfl | cases hb

namespace Database

variable [Quantity K]

theorem isRedundantOutside_hides {tier : Number} {k : Nat} (hk : tier.int? = some (k : Int))
    (c : Call K) (hc : c.isRedundantOutside tier = true) (db : Database K) (e : Effect K)
    (he : (db.plan c).1 = some e) : e.isHidden (some k) = true := by
  have redundant := c.isRedundant_of_outside hc
  cases c with
  | newVar | newVars _ | setIncrement _ | addMarker _ _ => cases hc
  | addClause p =>
      refine isHidden_of_red redundant ?_ db e he
      rintro _ ⟨⟩ long index
      have long : ¬ p.lits.length < 4 := Nat.not_lt.mpr long
      simp only [Call.isRedundantOutside, long, decide_false, Bool.false_or, Bool.and_eq_true,
        Bool.not_eq_true'] at hc
      obtain ⟨n, hn, hi⟩ := Option.bind_eq_some_iff.mp index
      have number : p.tier = .number n := by
        cases ht : p.tier with
        | number m =>
            rw [ht] at hn
            exact congrArg Value.number (Option.some.inj hn)
        | null | text _ | rawText _ | list _ | mapping _ =>
            rw [ht] at hn
            cases hn
      rw [number, Value.equal, Number.equal_of_int? hi hk] at hc
      cases hc.2

end Database

theorem Config.index_of_checkTier {c : Config} (h : c.checkTier = .ok ()) {i : Int}
    (hi : c.redTier.int? = some i) : ∃ k : Nat, i = k ∧ k < tierCount := by
  have low : Value.le (.int 0) (.number c.redTier) = .ok (Number.le (.int 0) c.redTier) := by
    simp only [Value.le, Value.isBelow, ite_true]
  have high : Value.le (.number c.redTier) (.int (tierCount - 1)) =
      .ok (c.redTier.le (.int (tierCount - 1))) := by
    simp only [Value.le, Value.isBelow, ite_true]
  obtain ⟨inside, hinside, h⟩ := bind_eq_ok h
  rw [low, high, bothHold_ok] at hinside
  cases hinside
  have range : 0 ≤ i ∧ i ≤ 2 := by
    cases hr : c.redTier with
    | real x =>
        rw [hr] at hi
        cases hi
    | truth b =>
        rw [hr] at hi
        cases hi
        cases b <;> decide
    | int n =>
        rw [hr] at hi h
        cases hi
        split at h
        · rename_i both
          rw [Bool.and_eq_true, Number.le_int_iff, Number.le_int_iff] at both
          exact both
        · refine absurd h (bind_ne_ok fun _ => bind_ne_ok fun _ => bind_ne_ok fun _ refused => ?_)
          cases refused
  obtain ⟨k, rfl⟩ := Int.eq_ofNat_of_zero_le range.1
  refine ⟨k, rfl, ?_⟩
  rw [tierCount]
  omega

namespace Database

variable (vars : Nat) {calls calls' : List (Call Value)}

private theorem seen_run {t : Option Nat} {hidden : Call Value → Bool}
    (hides : ∀ c, hidden c = true → ∀ (db : Database Value) (e : Effect Value),
      (db.plan c).1 = some e → e.isHidden t = true)
    (same : calls.filter (fun d => !hidden d) = calls'.filter fun d => !hidden d) :
    ((empty vars).effects calls).filterMap (Effect.seen? t) =
      ((empty vars).effects calls').filterMap (Effect.seen? t) := by
  rw [seen_effects hides .empty .empty rfl calls, same, ← seen_effects hides .empty .empty rfl calls']

private theorem agree_run (unmarked : ∀ d ∈ calls, d.isMarker = false)
    (unmarked' : ∀ d ∈ calls', d.isMarker = false) {t : Option Nat}
    (seen : ((empty vars).effects calls).filterMap (Effect.seen? t) =
      ((empty vars).effects calls').filterMap (Effect.seen? t)) :
    Agree ((empty vars).run calls) ((empty vars).run calls') :=
  (built_run vars calls).agree (built_run vars calls') (isMark_of_isMarker unmarked)
    (isMark_of_isMarker unmarked') seen

theorem extractWith_run_eq {c : Config} (unmarked : ∀ d ∈ calls, d.isMarker = false)
    (unmarked' : ∀ d ∈ calls', d.isMarker = false) (checked : c.checkTier = .ok ())
    (same : (calls.filter fun d => !d.isRedundantOutside c.redTier) =
      calls'.filter fun d => !d.isRedundantOutside c.redTier) :
    ((empty vars).run calls).extractWith c = ((empty vars).run calls').extractWith c := by
  cases hi : c.redTier.int? with
  | none =>
      -- A double is no index, so no tier is looked up.
      have seen := seen_run vars (t := none)
        (fun d hd => isRedundant_hides d (d.isRedundant_of_outside hd)) same
      refine (agree_run vars unmarked unmarked' seen).extract_eq ?_ _
      simp only [tierDistribution, tierOffsets, hi, error_bind]
  | some i =>
      obtain ⟨k, rfl, inside⟩ := Config.index_of_checkTier checked hi
      have seen := seen_run vars (isRedundantOutside_hides hi) same
      exact (agree_run vars unmarked unmarked' seen).extract_eq
        ((built_run vars calls).agree_tier (built_run vars calls') hi inside seen) _

/-- Two runs without markers that differ by calls that add redundant clauses. If extraction succeeds after
both, the records differ in the distribution of redundant clauses at most. If all those calls add inline
clauses or clauses of other tiers than the one summarised, the outcomes are the same, and so is what is
printed and logged. -/
theorem redundant_noninterference (c : Config) (calls calls' : List (Call Value))
    (unmarked : ∀ d ∈ calls, d.isMarker = false) (unmarked' : ∀ d ∈ calls', d.isMarker = false) :
    let db := (empty vars).run calls
    let db' := (empty vars).run calls'
    ((calls.filter fun d => !d.isRedundant) = (calls'.filter fun d => !d.isRedundant) →
      ∀ r r', db.extractWith c = .ok r → db'.extractWith c = .ok r' →
        { r with redundant := r'.redundant } = r') ∧
      (c.checkTier = .ok () →
        (calls.filter fun d => !d.isRedundantOutside c.redTier) =
          (calls'.filter fun d => !d.isRedundantOutside c.redTier) →
        db.extractWith c = db'.extractWith c ∧
          ∀ time j, db.report c time j = db'.report c time j) := by
  intro db db'
  refine ⟨?_, ?_⟩
  · intro same r r' hr hr'
    exact (agree_run vars unmarked unmarked' (seen_run vars isRedundant_hides same)).extract_eq_of_ok hr hr'
  · intro checked same
    have extracted := extractWith_run_eq vars unmarked unmarked' checked same
    refine ⟨extracted, ?_⟩
    intro time j
    simp only [report, db, db', extracted]

/-- One clause beside the same clause with a learned one, in the tier that is summarised and in another. -/
theorem redundant_noninterference_learned :
    let clause : Call Value := .addClause { lits := [⟨0⟩, ⟨2⟩, ⟨4⟩, ⟨7⟩], activity := .int 0 }
    let learned (tier : Int) : Call Value := .addClause
      { lits := [⟨3⟩, ⟨1⟩, ⟨4⟩, ⟨7⟩], red := true, activity := .int 0, tier := .int tier }
    let db (calls : List (Call Value)) : Database Value := (empty 4).run calls
    (∃ r r', (db [clause]).extractWith .default = .ok r ∧
      (db [learned 0, clause]).extractWith .default = .ok r' ∧
      { r with redundant := r'.redundant } = r') ∧
      (db [clause]).extractWith .default = (db [clause, learned 1]).extractWith .default := by
  intro clause learned db
  have unmarked : ∀ d ∈ [clause], d.isMarker = false := by decide
  have before : ∀ d ∈ [learned 0, clause], d.isMarker = false := by decide
  have after : ∀ d ∈ [clause, learned 1], d.isMarker = false := by decide
  refine ⟨?_, ((redundant_noninterference 4 .default _ _ unmarked after).2 rfl rfl).1⟩
  have ok : ((db [clause]).extractWith .default).toOption.isSome = true := by decide +kernel
  have ok' : ((db [learned 0, clause]).extractWith .default).toOption.isSome = true := by
    decide +kernel
  cases hr : (db [clause]).extractWith .default with
  | error e => simp [hr, Except.toOption] at ok
  | ok r =>
      cases hr' : (db [learned 0, clause]).extractWith .default with
      | error e => simp [hr', Except.toOption] at ok'
      | ok r' =>
          exact ⟨r, r', rfl, rfl,
            (redundant_noninterference 4 .default _ _ unmarked before).1 rfl r r' hr hr'⟩

end Database

end ClauseFeatures
