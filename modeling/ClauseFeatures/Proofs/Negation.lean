import Mathlib.Data.Nat.Bitwise
import ClauseFeatures.Proofs.Incidence
import ClauseFeatures.Proofs.Stage

/-!
Runs whose clauses are negated. If every clause is added with the opposite literals, each call has the same
answer as before, and what it leaves behind differs in the literals only. The watch lists of the two literals
of a variable change places, so the clauses are met in another order; the occurrences of a variable stay as
many, and those that are not negated become those that were.
-/
namespace ClauseFeatures

variable {K E : Type}

/-! Negated literals, clauses and calls. -/

namespace Literal

variable (l : Literal)

@[simp]
theorem var_negate : l.negate.var = l.var := by
  rw [var, negate, Nat.xor_div_two, var]
  exact Nat.xor_zero _

@[simp]
theorem negated_negate : l.negate.negated = !l.negated := by
  have sign : (l.code ^^^ 1) % 2 = (l.code + 1) % 2 := Nat.xor_mod_two_eq
  rw [negated, negate, sign, negated, Bool.eq_iff_iff, Bool.not_eq_true', beq_iff_eq, beq_eq_false_iff_ne]
  omega

theorem negate_involutive : Function.Involutive negate :=
  fun l => eq_iff_code.mpr (Nat.xor_xor_cancel_right l.code 1)

end Literal

def Clause.negate (c : Clause K) : Clause K := { c with lits := c.lits.map Literal.negate }

def Proposal.negate (p : Proposal K) : Proposal K := { p with lits := p.lits.map Literal.negate }

/-- The same call, which adds its clause with the opposite literals if it adds one. -/
def Call.negate : Call K → Call K
  | addClause p => addClause p.negate
  | c => c

def Effect.negate : Effect K → Effect K
  | inline lits red => inline (lits.map Literal.negate) red
  | long c offset tier => long c.negate offset tier
  | e => e

theorem Call.isMarker_negate (c : Call K) : c.negate.isMarker = c.isMarker := by
  cases c <;> rfl

theorem Call.irredundant_negate (c : Call K) :
    c.negate.irredundant? = c.irredundant?.map (List.map Literal.negate) := by
  cases c with
  | addClause p =>
      simp only [negate, irredundant?, Proposal.negate]
      cases p.red <;> rfl
  | newVar | newVars _ | setIncrement _ | addMarker _ _ => rfl

/-! Databases. -/

namespace Database

/-- A database and one whose clauses are stored with the opposite literals, apart from the watch lists. -/
structure Negates (db db' : Database K) : Prop where
  vars : db'.vars = db.vars
  store : db'.store.bodies = db.store.bodies.map Clause.negate
  longIrred : db'.longIrred = db.longIrred
  longRed : db'.longRed = db.longRed
  inline : db'.inline = db.inline
  increment : db'.increment = db.increment

namespace Negates

variable {db db' : Database K} (h : db.Negates db')

include h

theorem size_eq : db'.store.size = db.store.size := by
  rw [ClauseStore.size, h.store, Array.size_map]
  rfl

theorem irredCount_eq : db'.irredCount = db.irredCount := by
  rw [irredCount, h.longIrred, h.inline, irredCount]

theorem redCount_eq : db'.redCount = db.redCount := by
  rw [redCount, h.longRed, h.inline, redCount]

/-- An effect is negated together with its clause. -/
theorem apply (e : Effect K) : (db.apply e).Negates (db'.apply e.negate) := by
  cases e with
  | grow n => exact { h with vars := congrArg (· + n) h.vars }
  | scale x => exact { h with increment := rfl }
  | mark l index => exact { h with }
  | inline lits red =>
      refine { h with inline := ?_ }
      change countInline db'.inline (lits.map Literal.negate) red = countInline db.inline lits red
      rw [h.inline, countInline, List.length_map, countInline]
  | long c offset tier =>
      refine { h with store := ?_, longIrred := ?_, longRed := ?_ }
      · change db'.store.bodies.push c.negate = (db.store.bodies.push c).map Clause.negate
        rw [h.store, Array.map_push]
      · change (if c.red then db'.longIrred else _) = if c.red then db.longIrred else _
        rw [h.longIrred]
      · cases tier with
        | none => exact h.longRed
        | some t => exact congrArg (·.modify t (· ++ [.int offset])) h.longRed

variable [Quantity K]

/-- A check does not look at signs, and its failures do not tell them. -/
theorem check (p : Proposal K) : db'.check p.negate = (db.check p).map Clause.negate := by
  have distinct : Check.distinct (p.lits.map Literal.negate) "clause literals" =
      Check.distinct p.lits "clause literals" := by
    simp only [Check.distinct, List.nodup_map_iff Literal.negate_involutive.injective]
  have existing : ((p.lits.map Literal.negate).forM fun l => Check.existing l db'.vars "literal") =
      p.lits.forM fun l => Check.existing l db.vars "literal" := by
    rw [h.vars, List.forM_eq_forM, List.forM_map]
    simp only [Check.existing, Literal.var_negate]
  simp only [Database.check, Proposal.negate, List.length_map, distinct, existing]
  split
  · rfl
  · cases Check.distinct p.lits "clause literals" with
    | error e => rfl
    | ok _ =>
        cases p.lits.forM fun l => Check.existing l db.vars "literal" with
        | error e => rfl
        | ok _ =>
            cases Check.count p.glue "glue" with
            | error e => rfl
            | ok glue =>
                cases Check.nonNegative p.activity "activity" <;> rfl

theorem plan (c : Call K) : db'.plan c.negate = ((db.plan c).1.map Effect.negate, (db.plan c).2) := by
  cases c with
  | newVar =>
      simp only [Call.negate, Database.plan, h.vars]
      rfl
  | newVars n =>
      simp only [Call.negate, Database.plan]
      cases Check.count n "n" <;> rfl
  | setIncrement x =>
      simp only [Call.negate, Database.plan]
      cases Check.positive x "cla_inc" <;> rfl
  | addMarker l index =>
      simp only [Call.negate, Database.plan, h.vars]
      cases Check.existing l db.vars "literal" with
      | error e => rfl
      | ok _ => cases Watch.marker index <;> rfl
  | addClause p =>
      simp only [Call.negate, Database.plan, h.check]
      cases db.check p with
      | error e => rfl
      | ok c =>
          have long : db'.planLong c.negate p.tier =
              ((db.planLong c p.tier).1.map Effect.negate, (db.planLong c p.tier).2) := by
            simp only [planLong, h.size_eq, Clause.negate]
            split
            · cases checkTier p.tier with
              | error e => rfl
              | ok _ => cases p.tier.number?.bind Number.int? <;> rfl
            · rfl
          simp only [Except.map, Clause.negate, List.length_map]
          split
          · rfl
          · exact long

/-- Two calls on databases of the right shape go the same way. -/
theorem call (shaped : db.Shaped) (shaped' : db'.Shaped) (c : Call K) :
    (db.call c).1.Negates (db'.call c.negate).1 ∧ (db'.call c.negate).2 = (db.call c).2 := by
  rw [call_eq shaped, call_eq shaped', h.plan, carryOut, carryOut]
  refine ⟨?_, rfl⟩
  cases (db.plan c).1 with
  | none => exact h
  | some e => exact h.apply e

end Negates

/-! Runs. -/

variable [Quantity K]

def answers (db : Database K) : List (Call K) → List (Except Failure (Option Nat))
  | [] => []
  | c :: cs => (db.call c).2 :: (db.call c).1.answers cs

/-- A run and the run with negated clauses: the same calls are accepted, and what they leave behind differs in
the literals only. -/
structure RunNegates (db db' : Database K) (calls : List (Call K)) : Prop where
  answers : db'.answers (calls.map Call.negate) = db.answers calls
  history : db'.history (calls.map Call.negate) = (db.history calls).map fun a => (a.1.negate, a.2)
  negates : (db.run calls).Negates (db'.run (calls.map Call.negate))

theorem Negates.run {vars : Nat} {es es' : List (Effect K)} {db db' : Database K} (h : db.Negates db')
    (built : Built vars es db) (built' : Built vars es' db') (calls : List (Call K)) :
    db.RunNegates db' calls := by
  induction calls generalizing es es' db db' with
  | nil => exact ⟨rfl, rfl, h⟩
  | cons c cs ih =>
      obtain ⟨after, answer⟩ := h.call built.shaped built'.shaped c
      obtain ⟨answers, history, negates⟩ := ih after (built_call built c) (built_call built' c.negate)
      refine ⟨?_, ?_, negates⟩
      · rw [List.map_cons, Database.answers, answer, answers, Database.answers]
      · rw [List.map_cons, Database.history, answer, history, Database.history]
        cases (db.call c).2 <;> rfl

theorem negates_run (vars : Nat) (calls : List (Call K)) :
    (empty vars : Database K).RunNegates (empty vars) calls :=
  Negates.run ⟨rfl, Array.map_empty.symm, rfl, rfl, rfl, rfl⟩ .empty .empty calls

namespace RunNegates

variable {db db' : Database K} {calls : List (Call K)} (h : db.RunNegates db' calls)

include h

theorem unmarked (unmarked : ∀ a ∈ db.history calls, a.1.isMarker = false) :
    ∀ a ∈ db'.history (calls.map Call.negate), a.1.isMarker = false := by
  rw [h.history]
  intro a ha
  obtain ⟨b, hb, rfl⟩ := List.mem_map.mp ha
  exact (Call.isMarker_negate b.1).trans (unmarked b hb)

theorem irredundant_eq : ((db'.history (calls.map Call.negate)).filterMap fun a => a.1.irredundant?) =
    ((db.history calls).filterMap fun a => a.1.irredundant?).map (List.map Literal.negate) := by
  rw [h.history, List.filterMap_map, List.map_filterMap]
  exact List.filterMap_congr fun a _ => Call.irredundant_negate a.1

end RunNegates

end Database

/-! Occurrences. -/

section Occurrences

variable {clauses : List (List Literal)}

theorem occurrencesIn_map (f : Literal → Literal) (kind : Literal → Bool) (clauses : List (List Literal)) :
    occurrencesIn kind (clauses.map (List.map f)) = occurrencesIn (fun l => kind (f l)) clauses := by
  induction clauses with
  | nil => rfl
  | cons clause clauses ih => rw [List.map_cons, occurrencesIn, ih, List.countP_map]; rfl

theorem variablesOf_negate (clauses : List (List Literal)) :
    variablesOf (clauses.map (List.map Literal.negate)) = variablesOf clauses := by
  simp only [variablesOf, List.flatMap_map, List.map_map, Function.comp_def, Literal.var_negate]

theorem occurrencesIn_negate (var : Nat) (clauses : List (List Literal)) :
    occurrencesIn (fun l => l.var = var) (clauses.map (List.map Literal.negate)) =
      occurrencesIn (fun l => l.var = var) clauses := by
  simp only [occurrencesIn_map, Literal.var_negate]

/-- Each occurrence is one of a literal that is negated or becomes negated. -/
theorem occurrencesIn_positive_negate (var : Nat) (clauses : List (List Literal)) :
    occurrencesIn (fun l => l.var = var && !l.negated) (clauses.map (List.map Literal.negate)) +
        occurrencesIn (fun l => l.var = var && !l.negated) clauses =
      occurrencesIn (fun l => l.var = var) clauses := by
  rw [occurrencesIn_map, occurrencesIn_eq, occurrencesIn_eq, occurrencesIn_eq]
  simp only [Literal.var_negate, Literal.negated_negate, Bool.not_not]
  rw [List.countP_eq_countP_filter_add _ (fun l => l.var = var) Literal.negated, List.countP_filter,
    List.countP_filter]

namespace Occurrences

/-- Counts of which those of all literals stay, and those of literals that are not negated become the others. -/
structure Negates (occ occ' : Occurrences) : Prop where
  size : occ'.size = occ.size
  pos : occ'.pos = List.zipWith (· - ·) occ.size occ.pos
  activeCount : occ'.activeCount = occ.activeCount

theorem Counts.negates {occ occ' : Occurrences} {vars vars' : Nat} (same : vars' = vars)
    (h : occ.Counts vars clauses) (h' : occ'.Counts vars' (clauses.map (List.map Literal.negate))) :
    occ.Negates occ' := by
  subst same
  refine ⟨List.ext_getElem? fun var => ?_, List.ext_getElem? fun var => ?_, ?_⟩
  · by_cases inside : var < vars'
    · rw [h.size var inside, h'.size var inside, occurrencesIn_negate]
    · rw [List.getElem?_eq_none (by rw [h'.length_size]; omega),
        List.getElem?_eq_none (by rw [h.length_size]; omega)]
  · by_cases inside : var < vars'
    · have total := occurrencesIn_positive_negate var clauses
      rw [h'.pos var inside, List.getElem?_zipWith, h.size var inside, h.pos var inside]
      simp only [Option.some.injEq]
      omega
    · rw [List.getElem?_eq_none (by rw [h'.length_pos]; omega),
        List.getElem?_eq_none (by rw [List.length_zipWith, h.length_size, h.length_pos]; omega)]
  · rw [h.activeCount, h'.activeCount, variablesOf_negate]

end Occurrences

end Occurrences

/-! Records. -/

/-- Records with the same numbers of variables and clauses and the same fractions of short clauses. -/
structure FeatureRecord.SameCounts (f f' : FeatureRecord K) : Prop where
  numVars : f'.numVars = f.numVars
  numClauses : f'.numClauses = f.numClauses
  varClauseRatio : f'.varClauseRatio = f.varClauseRatio
  binary : f'.binary = f.binary
  ternary : f'.ternary = f.ternary

section Records

variable [Arithmetic K E] {db db' : Database K}

theorem ClauseMoments.first_fractions (inline : db'.inline = db.inline) {vars clauses horn horn' : K}
    {m m' : ClauseMoments K} (h : first db vars clauses horn = .ok m)
    (h' : first db' vars clauses horn' = .ok m') : m'.binary = m.binary ∧ m'.ternary = m.ternary := by
  rw [first] at h h'
  split at h
  · rename_i none
    rw [if_pos none] at h'
    cases h
    cases h'
    exact ⟨rfl, rfl⟩
  · rename_i some
    rw [if_neg some, inline] at h'
    obtain ⟨_, -, h⟩ := bind_eq_ok h
    obtain ⟨binary, hbinary, h⟩ := bind_eq_ok h
    obtain ⟨ternary, hternary, h⟩ := bind_eq_ok h
    obtain ⟨_, -, h⟩ := bind_eq_ok h
    obtain ⟨_, -, h⟩ := bind_eq_ok h
    obtain ⟨_, -, h⟩ := bind_eq_ok h
    obtain ⟨_, -, h'⟩ := bind_eq_ok h'
    rw [hbinary, ok_bind, hternary, ok_bind] at h'
    obtain ⟨_, -, h'⟩ := bind_eq_ok h'
    obtain ⟨_, -, h'⟩ := bind_eq_ok h'
    obtain ⟨_, -, h'⟩ := bind_eq_ok h'
    cases h
    cases h'
    exact ⟨rfl, rfl⟩

variable [Element E]

namespace Database

theorem sameCounts_of_core {occ occ' : Occurrences} (counted : Occurrences.ofDatabase db = .ok occ)
    (counted' : Occurrences.ofDatabase db' = .ok occ') (active : occ'.activeCount = occ.activeCount)
    (irredCount : db'.irredCount = db.irredCount) (inline : db'.inline = db.inline) {eps : K}
    {f f' : FeatureRecord K} (h : db.core eps = .ok f) (h' : db'.core eps = .ok f') : f.SameCounts f' := by
  rw [core_eq, counted, ok_bind] at h
  rw [core_eq, counted', ok_bind, active, irredCount] at h'
  obtain ⟨ratio, hratio, h⟩ := bind_eq_ok h
  obtain ⟨first, hfirst, h⟩ := bind_eq_ok h
  obtain ⟨varFirst, -, h⟩ := bind_eq_ok h
  obtain ⟨second, hsecond, h⟩ := bind_eq_ok h
  obtain ⟨varSecond, -, h⟩ := bind_eq_ok h
  rw [hratio, ok_bind] at h'
  obtain ⟨first', hfirst', h'⟩ := bind_eq_ok h'
  obtain ⟨varFirst', -, h'⟩ := bind_eq_ok h'
  obtain ⟨second', hsecond', h'⟩ := bind_eq_ok h'
  obtain ⟨varSecond', -, h'⟩ := bind_eq_ok h'
  obtain ⟨binary, ternary⟩ := ClauseMoments.first_fractions inline hfirst hfirst'
  have kept := ClauseMoments.second_keeps hsecond
  have kept' := ClauseMoments.second_keeps hsecond'
  cases h
  cases h'
  exact ⟨rfl, rfl, rfl, kept'.binary.trans (binary.trans kept.binary.symm),
    kept'.ternary.trans (ternary.trans kept.ternary.symm)⟩

theorem sameCounts_of_extract {occ occ' : Occurrences} (counted : Occurrences.ofDatabase db = .ok occ)
    (counted' : Occurrences.ofDatabase db' = .ok occ') (active : occ'.activeCount = occ.activeCount)
    (irredCount : db'.irredCount = db.irredCount) (inline : db'.inline = db.inline) {eps : K} {tier : Number}
    {f f' : FeatureRecord K} (h : db.extract eps tier = .ok f) (h' : db'.extract eps tier = .ok f') :
    f.SameCounts f' := by
  obtain ⟨core, _, _, hcore, -, rfl⟩ := parts_of_extract h
  obtain ⟨core', _, _, hcore', -, rfl⟩ := parts_of_extract h'
  obtain ⟨numVars, numClauses, ratio, binary, ternary⟩ :=
    sameCounts_of_core counted counted' active irredCount inline hcore hcore'
  exact ⟨numVars, numClauses, ratio, binary, ternary⟩

end Database

end Records

end ClauseFeatures
