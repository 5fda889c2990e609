import ClauseFeatures.Proofs.Exact.Distribution
import ClauseFeatures.Proofs.Extraction
import ClauseFeatures.Proofs.Partition
import ClauseFeatures.Proofs.Renaming

/-!
Features up to isomorphism. Renaming the variables, reordering the clauses and reordering their literals change
every owner, every offset and every order of summation. In exact arithmetic nothing of this shows: all features
of the irredundant clauses and their distribution stay the same.
-/
namespace ClauseFeatures

variable {K : Type}

/-! The clauses of a history. -/

def Call.clause? : Call K → Option (Proposal K)
  | addClause p => if p.red then none else some p
  | _ => none

/-- The body under which an irredundant clause is stored, if it is long enough to be stored. -/
def Proposal.body? [Quantity K] (p : Proposal K) : Option (Clause K) :=
  if p.lits.length < 4 then none
  else some ⟨p.lits, false, Quantity.ofInt ((p.glue.number?.bind Number.int?).getD 0), p.activity⟩

theorem Call.irredundant_eq (c : Call K) : c.irredundant? = c.clause?.map Proposal.lits := by
  cases c with
  | addClause p =>
      simp only [irredundant?, clause?]
      split <;> rfl
  | newVar | newVars _ | setIncrement _ | addMarker _ _ => rfl

namespace Database

variable [Quantity K] {vars : Nat} {es : List (Effect K)} {db : Database K}

/-- The effect of an accepted call stores the body that the call proposes. -/
theorem body_of_plan {c : Call K} {e : Effect K} {answer : Option Nat}
    (h : db.plan c = (some e, .ok answer)) :
    e.irredLong?.map Prod.fst = c.clause?.bind Proposal.body? := by
  cases c with
  | newVar => cases h; rfl
  | newVars _ | setIncrement _ | addMarker _ _ =>
      simp only [plan] at h
      split at h <;> cases h
      rfl
  | addClause p =>
      simp only [plan] at h
      cases checked : db.check p with
      | error _ =>
          rw [checked] at h
          cases h
      | ok c =>
          obtain ⟨-, -, glue, given, rfl⟩ := check_eq_ok.mp checked
          simp only [checked] at h
          split at h
          · rename_i short
            cases h
            simp only [Effect.irredLong?, Call.clause?]
            cases p.red with
            | true => rfl
            | false => exact (if_pos short).symm
          · rename_i long
            obtain ⟨o, tier, rfl⟩ := long_of_planLong (congrArg Prod.fst h)
            have index : (p.glue.number?.bind Number.int?).getD 0 = glue := by rw [given]; rfl
            simp only [Effect.irredLong?, Call.clause?]
            cases p.red with
            | true => rfl
            | false => simp [Proposal.body?, long, index]

theorem bodies_history (h : Built vars es db) (cs : List (Call K)) :
    ((db.history cs).filterMap fun a => a.1.clause?.bind Proposal.body?) =
      (db.effects cs).filterMap fun e => e.irredLong?.map Prod.fst := by
  induction cs generalizing es db with
  | nil => rfl
  | cons c cs ih =>
      have ih := ih (built_call h c)
      have hp := planned db c
      rw [history, effects, List.filterMap_append, ← ih]
      have answered := congrArg Prod.snd (call_eq h.shaped c)
      generalize plan : db.plan c = p at hp answered
      cases hp with
      | refused _ _ =>
          rw [answered]
          rfl
      | accepted _ _ =>
          rw [answered]
          simp only [carryOut, Option.toList_some, List.filterMap_cons, body_of_plan plan, List.filterMap_nil]
          cases c.clause?.bind Proposal.body? <;> rfl
      | @stranded _ cl hs =>
          have red := hs.body_red
          rw [answered]
          simp only [carryOut, Option.toList_some, List.filterMap_cons, List.filterMap_nil,
            Effect.irredLong?, red, ite_true, Option.map_none, List.nil_append]

theorem literals_existing (h : Built vars es db) : ∀ l ∈ literalsOf db.traversal.views, l.var < db.vars := by
  intro l hl
  obtain ⟨v, hv, hl⟩ := List.mem_flatMap.mp hl
  exact h.views_existing v hv l hl

/-- The irredundant clauses that a run adds, as they were proposed. -/
def accepted (db : Database K) (calls : List (Call K)) : List (Proposal K) :=
  (db.history calls).filterMap fun a => a.1.clause?

theorem irredundant_accepted (db : Database K) (calls : List (Call K)) :
    ((db.history calls).filterMap fun a => a.1.irredundant?) = (db.accepted calls).map Proposal.lits := by
  simp only [accepted, List.map_filterMap, Call.irredundant_eq]

theorem bodies_accepted (h : Built vars es db) (calls : List (Call K)) :
    ((db.effects calls).filterMap fun e => e.irredLong?.map Prod.fst) =
      (db.accepted calls).filterMap Proposal.body? := by
  rw [← bodies_history h, accepted, List.filterMap_filterMap]

end Database

/-! Renamed clauses. -/

deriving instance DecidableEq for Proposal

/-- A clause and the same clause with its variables renamed, in another order of literals. A clause that is
stored keeps its glue and its activity. -/
structure Proposal.Renamed (σ : Nat → Nat) (p q : Proposal K) : Prop where
  lits : (p.lits.map (Literal.rename σ)).Perm q.lits
  body : 4 ≤ p.lits.length → p.glue = q.glue ∧ p.activity = q.activity

theorem Proposal.Renamed.bodies [Quantity K] {σ : Nat → Nat} {p q : Proposal K} (h : Renamed σ p q) :
    Option.Rel (fun c d : Clause K => c.size = d.size ∧ c.glue = d.glue ∧ c.activity = d.activity)
      p.body? q.body? := by
  have size : p.lits.length = q.lits.length := by rw [← h.lits.length_eq, List.length_map]
  simp only [body?, ← size]
  split
  · exact .none
  · rename_i long
    obtain ⟨glue, activity⟩ := h.body (Nat.le_of_not_lt long)
    exact .some ⟨size, by rw [glue], activity⟩

namespace Database

section Runs

variable {F : Type} [Field F] [LinearOrder F] {r : Reading F} {vars vars' : Nat}
  {calls calls' : List (Call (Exact r))} {σ : Nat → Nat}

theorem views_accepted (unmarked : ∀ a ∈ (empty vars).history calls, a.1.isMarker = false) :
    Corresponds (fun (p : Proposal (Exact r)) v => v.lits.Perm p.lits) ((empty vars).accepted calls)
      ((empty vars).run calls).traversal.views := by
  have met := views_correspond vars unmarked
  rw [irredundant_accepted] at met
  exact (Corresponds.self_map Proposal.lits _).trans met fun p lits v hp hv => hp ▸ hv

/-- A traversal meets no variable but those of accepted clauses. -/
theorem occurring_accepted (unmarked : ∀ a ∈ (empty vars).history calls, a.1.isMarker = false) :
    {v | ∃ l ∈ literalsOf ((empty vars).run calls).traversal.views, l.var = v} ⊆
      {v | ∃ p ∈ (empty vars).accepted calls, ∃ l ∈ p.lits, l.var = v} := by
  have literals := (views_accepted unmarked).flatMap_perm fun p v (h : v.lits.Perm p.lits) => h.symm
  rintro _ ⟨l, hl, rfl⟩
  obtain ⟨p, hp, hl⟩ := List.mem_flatMap.mp (literals.mem_iff.mpr hl)
  exact ⟨p, hp, l, hl, rfl⟩

theorem regular_run (unmarked : ∀ a ∈ (empty vars).history calls, a.1.isMarker = false) :
    Exact.Regular ((empty vars).run calls) := by
  refine ⟨congrArg Traversal.failure (traversal_history vars unmarked), ?_⟩
  intro v hv
  have := two_le_of_mem_views vars unmarked v hv
  omega

section Renamed

variable (unmarked : ∀ a ∈ (empty vars).history calls, a.1.isMarker = false)
  (unmarked' : ∀ a ∈ (empty vars').history calls', a.1.isMarker = false)
  (renamed : Corresponds (Proposal.Renamed σ) ((empty vars).accepted calls) ((empty vars').accepted calls'))

include unmarked unmarked' renamed

theorem views_renamed : Corresponds (ClauseView.Renamed σ) ((empty vars).run calls).traversal.views
    ((empty vars').run calls').traversal.views := by
  have given := (views_accepted unmarked).symm.trans renamed (T := fun v q =>
    (v.lits.map (Literal.rename σ)).Perm q.lits) fun v p q hv hpq => (hv.map _).trans hpq.lits
  exact given.trans (views_accepted unmarked') fun v q w hvq hw => hvq.trans hw.symm

theorem rows_renamed
    (injective : Set.InjOn σ {v | ∃ p ∈ (empty vars).accepted calls, ∃ l ∈ p.lits, l.var = v}) :
    (activeRows ((empty vars).run calls).vars ((empty vars).run calls).traversal.views).Perm
      (activeRows ((empty vars').run calls').vars ((empty vars').run calls').traversal.views) :=
  activeRows_renamed (views_renamed unmarked unmarked' renamed) (injective.mono (occurring_accepted unmarked))
    (literals_existing (built_run vars calls)) (literals_existing (built_run vars' calls'))

end Renamed

variable [IsStrictOrderedRing F]

/-- Nothing compares as NaN here: every increment that was accepted is positive. -/
theorem positive_exact (vars : Nat) (calls : List (Call (Exact r))) :
    Check.positive ((empty vars).run calls).increment "cla_inc" = .ok () := by
  rcases increment_run vars calls with same | given
  · rw [same]
    exact Exact.check_positive zero_lt_one "cla_inc"
  · exact given.2

/-- In exact arithmetic nothing keeps an extraction from a tier that exists from returning a record. -/
theorem exists_extract (unmarked : ∀ a ∈ (empty vars).history calls, a.1.isMarker = false)
    {eps : Exact r} (he : 0 ≤ eps) {tier : Number} {k : Nat} (index : tier.int? = some (k : Int))
    (inside : k < tierCount) : ∃ f, ((empty vars).run calls).extract eps tier = .ok f := by
  have built := built_run vars calls
  have positive := positive_exact vars calls
  obtain ⟨core, hcore⟩ := Exact.exists_core (regular_run unmarked) (ofDatabase_run vars unmarked)
    (VariableRatios.ofOccurrences_ofViews _ _) he
  obtain ⟨redundant, hred⟩ : ∃ d, ((empty vars).run calls).tierDistribution tier = .ok d := by
    rw [built.tierDistribution_eq index inside]
    exact Exact.exists_ofPopulation positive _
  obtain ⟨irredundant, hirred⟩ : ∃ d, ((empty vars).run calls).irredDistribution = .ok d := by
    rw [built.irredDistribution_eq]
    exact Exact.exists_ofPopulation positive _
  have finite (xs : List (Exact r)) (name : String) : Check.finite xs name = .ok () := by
    simp [Check.finite]
  have recorded : ((empty vars).run calls).record eps tier = .ok { core with redundant, irredundant } := by
    rw [record_eq, hcore, ok_bind, hred, ok_bind, hirred]
    rfl
  rw [extract, recorded, ok_bind, FeatureRecord.vector, Exact.toArray_eq, ok_bind, finite]
  exact ⟨_, rfl⟩

section Isomorphism

variable (unmarked : ∀ a ∈ (empty vars).history calls, a.1.isMarker = false)
  (unmarked' : ∀ a ∈ (empty vars').history calls', a.1.isMarker = false)
  (renamed : Corresponds (Proposal.Renamed σ) ((empty vars).accepted calls) ((empty vars').accepted calls'))

include renamed

theorem irredDistribution_renamed
    (increment : ((empty vars).run calls).increment = ((empty vars').run calls').increment) :
    ((empty vars).run calls).irredDistribution = ((empty vars').run calls').irredDistribution := by
  rw [(built_run vars calls).irredDistribution_eq, (built_run vars' calls').irredDistribution_eq,
    bodies_accepted .empty, bodies_accepted .empty, increment]
  exact Exact.ofPopulation_congr (renamed.filterMap fun _ _ h => h.bodies) _

include unmarked unmarked'

theorem core_renamed
    (injective : Set.InjOn σ {v | ∃ p ∈ (empty vars).accepted calls, ∃ l ∈ p.lits, l.var = v})
    (eps : Exact r) : ((empty vars).run calls).core eps = ((empty vars').run calls').core eps := by
  have views := views_renamed unmarked unmarked' renamed
  have rows := rows_renamed unmarked unmarked' renamed injective
  have regular := regular_run unmarked
  have regular' := regular_run unmarked'
  have same : Corresponds (fun v w : ClauseView => v.size = w.size ∧ v.pos = w.pos)
      ((empty vars).run calls).traversal.views ((empty vars').run calls').traversal.views :=
    views.imp fun _ _ h => ⟨h.size_eq, h.pos_eq⟩
  obtain ⟨binary, ternary, irredCount⟩ := counters_eq (met_run vars unmarked) (met_run vars' unmarked')
    (views.imp fun _ _ h => h.size_eq)
  have ratios (clauses : Exact r) := VariableRatios.ofOccurrences_ofViews ((empty vars).run calls).vars
    ((empty vars).run calls).traversal.views clauses
  have ratios' (clauses : Exact r) := VariableRatios.ofOccurrences_ofViews ((empty vars').run calls').vars
    ((empty vars').run calls').traversal.views clauses
  apply core_congr (ofDatabase_run vars unmarked) (ofDatabase_run vars' unmarked')
  · have active := rows.length_eq
    rw [activeRows, activeRows, List.length_map, List.length_map] at active
    rw [Occurrences.activeCount_ofViews, Occurrences.activeCount_ofViews, active]
  · rw [Occurrences.ofViews_eq, Occurrences.ofViews_eq]
    exact congrArg Nat.cast (views.countP_eq fun _ _ h => h.isHorn_eq)
  · exact irredCount
  · exact Exact.first_congr regular regular' same binary ternary
  · intro m vars clauses
    exact Exact.second_congr regular regular' same m vars clauses eps
  · exact Exact.varFirst_congr ratios ratios' rows
  · intro m vars clauses
    exact Exact.varSecond_congr ratios ratios' rows m vars clauses eps

end Isomorphism

/-- Two runs without markers whose irredundant clauses are the same up to a renaming of variables, the order
of the clauses and the order of literals in each, with the same increment at the end: in exact arithmetic all
features of the irredundant clauses are the same. Every extraction returns, and the records can differ in the
distribution of redundant clauses only. -/
theorem features_renamed (unmarked : ∀ a ∈ (empty vars).history calls, a.1.isMarker = false)
    (unmarked' : ∀ a ∈ (empty vars').history calls', a.1.isMarker = false)
    (renamed : Corresponds (Proposal.Renamed σ) ((empty vars).accepted calls) ((empty vars').accepted calls'))
    (injective : Set.InjOn σ {v | ∃ p ∈ (empty vars).accepted calls, ∃ l ∈ p.lits, l.var = v})
    (increment : ((empty vars).run calls).increment = ((empty vars').run calls').increment) :
    let db := (empty vars).run calls
    let db' := (empty vars').run calls'
    (∀ eps, db.core eps = db'.core eps) ∧ db.irredDistribution = db'.irredDistribution ∧
      ∀ eps, 0 ≤ eps → ∀ tier tier' : Number, ∀ k < tierCount, ∀ k' < tierCount,
        tier.int? = some (k : Int) → tier'.int? = some (k' : Int) →
        ∃ f f', db.extract eps tier = .ok f ∧ db'.extract eps tier' = .ok f' ∧
          { f with redundant := f'.redundant } = f' := by
  intro db db'
  have core : ∀ eps, db.core eps = db'.core eps := core_renamed unmarked unmarked' renamed injective
  have irredundant : db.irredDistribution = db'.irredDistribution :=
    irredDistribution_renamed renamed increment
  refine ⟨core, irredundant, ?_⟩
  intro eps he tier tier' k inside k' inside' index index'
  obtain ⟨f, hf⟩ := exists_extract unmarked he index inside
  obtain ⟨f', hf'⟩ := exists_extract unmarked' he index' inside'
  exact ⟨f, f', hf, hf', extract_eq_of_ok (core eps) irredundant hf hf'⟩

end Runs

/-- Two clauses whose variables are counted from the other end, added in the other order, the second time
after a redundant clause and over more variables. -/
theorem features_renamed_mirrored :
    let r : Reading Rat := { root := fun a => a, top := 0, bottom := 0, text := fun _ => "" }
    let short (a b : Nat) : Call (Exact r) := .addClause { lits := [⟨a⟩, ⟨b⟩], activity := (0 : Rat) }
    let long (red : Bool) (a b c d : Nat) : Call (Exact r) := .addClause
      { lits := [⟨a⟩, ⟨b⟩, ⟨c⟩, ⟨d⟩], red, glue := .int 2, activity := (3 / 2 : Rat), tier := .int 1 }
    let calls := [long false 0 3 4 6, short 0 5]
    let calls' := [short 7 10, long true 1 3 5 6, long false 4 6 9 10]
    ∃ f f', ((empty 4).run calls).extract (1 / 100 : Rat) (.int 0) = .ok f ∧
      ((empty 6).run calls').extract (1 / 100 : Rat) (.int 1) = .ok f' ∧
      { f with redundant := f'.redundant } = f' := by
  intro r short long calls calls'
  have accepted : (empty 4 : Database (Exact r)).accepted calls =
      [{ lits := [⟨0⟩, ⟨3⟩, ⟨4⟩, ⟨6⟩], glue := .int 2, activity := (3 / 2 : Rat), tier := .int 1 },
        { lits := [⟨0⟩, ⟨5⟩], activity := (0 : Rat) }] := by decide +kernel
  have accepted' : (empty 6 : Database (Exact r)).accepted calls' =
      [{ lits := [⟨7⟩, ⟨10⟩], activity := (0 : Rat) },
        { lits := [⟨4⟩, ⟨6⟩, ⟨9⟩, ⟨10⟩], glue := .int 2, activity := (3 / 2 : Rat), tier := .int 1 }] := by
    decide +kernel
  have unmarked : ∀ a ∈ (empty 4).history calls, a.1.isMarker = false := by decide +kernel
  have unmarked' : ∀ a ∈ (empty 6).history calls', a.1.isMarker = false := by decide +kernel
  have increment : ((empty 4).run calls).increment = ((empty 6).run calls').increment := by decide +kernel
  have renamed : Corresponds (Proposal.Renamed (5 - ·)) ((empty 4).accepted calls)
      ((empty 6).accepted calls') := by
    rw [accepted, accepted']
    refine ⟨_, .swap _ _ _, .cons ⟨by decide, ?_⟩ (.cons ⟨by decide, ?_⟩ .nil)⟩
    · exact fun _ => ⟨rfl, rfl⟩
    · exact fun _ => ⟨rfl, rfl⟩
  have injective : Set.InjOn (5 - ·) {v | ∃ p ∈ (empty 4).accepted calls, ∃ l ∈ p.lits, l.var = v} := by
    have below : ∀ p ∈ (empty 4).accepted calls, ∀ l ∈ p.lits, l.var < 4 := by
      rw [accepted]
      decide
    rintro _ ⟨p, hp, l, hl, rfl⟩ _ ⟨q, hq, m, hm, rfl⟩ same
    have := below p hp l hl
    have := below q hq m hm
    change 5 - l.var = 5 - m.var at same
    omega
  have positive : (0 : Rat) ≤ 1 / 100 := by decide +kernel
  obtain ⟨-, -, extracted⟩ := features_renamed unmarked unmarked' renamed injective increment
  exact extracted (1 / 100 : Rat) positive (.int 0) (.int 1) 0 (by decide) 1 (by decide) rfl rfl

end Database

end ClauseFeatures
