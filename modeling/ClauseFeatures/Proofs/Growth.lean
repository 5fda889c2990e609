import ClauseFeatures.Proofs.ActiveVariables
import ClauseFeatures.Proofs.Correspondence
import ClauseFeatures.Proofs.Interference

/-!
Unused variables. A run to which calls that add variables are added, and which starts with more variables,
has the same effects apart from growth, provided that its clauses were accepted before. Everything that is
extracted is computed from these effects and from the rows of active variables, so it stays the same.
-/
namespace ClauseFeatures

variable {K E : Type}

/-! Runs with further variables. -/

/-- Whether a call only adds variables. -/
def Call.isGrowth : Call K → Bool
  | newVar | newVars _ => true
  | _ => false

/-- The second list of calls is the first one with calls that add variables put in anywhere. -/
inductive Padded : List (Call K) → List (Call K) → Prop
  | nil : Padded [] []
  | call (c : Call K) {cs ds : List (Call K)} (h : Padded cs ds) : Padded (c :: cs) (c :: ds)
  | growth {c : Call K} (hc : c.isGrowth = true) {cs ds : List (Call K)} (h : Padded cs ds) :
      Padded cs (c :: ds)

/-- Whether every clause that a run adds is accepted. -/
def Database.addsAll [Quantity K] (db : Database K) : List (Call K) → Bool
  | [] => true
  | c :: cs => (!c.addsClause || (db.call c).2.isOk) && (db.call c).1.addsAll cs

namespace Effect

def isGrow : Effect K → Bool
  | grow _ => true
  | _ => false

def ungrown (es : List (Effect K)) : List (Effect K) := es.filter fun e => !e.isGrow

theorem ungrown_append (es es' : List (Effect K)) :
    ungrown (es ++ es') = ungrown es ++ ungrown es' := List.filter_append _ _

theorem filterMap_ungrown {β : Type} {f : Effect K → Option β} (hf : ∀ n, f (grow n) = none)
    (es : List (Effect K)) : (ungrown es).filterMap f = es.filterMap f := by
  rw [ungrown, List.filterMap_filter]
  congr 1
  funext e
  cases e with
  | grow n => exact (hf n).symm
  | scale _ | mark _ _ | inline _ _ | long _ _ _ => rfl

end Effect

namespace Database

variable {db db' : Database K}

/-- A database beside one with at least as many variables that is the same but for its watch lists. -/
structure Roomier (db db' : Database K) : Prop where
  vars : db.vars ≤ db'.vars
  store : db.store = db'.store
  longIrred : db.longIrred = db'.longIrred
  longRed : db.longRed = db'.longRed
  inline : db.inline = db'.inline
  increment : db.increment = db'.increment

namespace Roomier

theorem apply (h : Roomier db db') (e : Effect K) : Roomier (db.apply e) (db'.apply e) := by
  obtain ⟨vars, store, longIrred, longRed, inline, increment⟩ := h
  cases e with
  | grow n => exact ⟨Nat.add_le_add_right vars n, store, longIrred, longRed, inline, increment⟩
  | scale x => exact ⟨vars, store, longIrred, longRed, inline, rfl⟩
  | mark l index => exact ⟨vars, store, longIrred, longRed, inline, increment⟩
  | inline lits red =>
      exact ⟨vars, store, longIrred, longRed, congrArg (countInline · lits red) inline, increment⟩
  | long c offset tier =>
      refine ⟨vars, congrArg (ClauseStore.push · c) store, ?_, ?_, inline, increment⟩
      · simp only [Database.apply, longIrred]
      · simp only [Database.apply, longRed]

theorem grow (h : Roomier db db') (n : Nat) : Roomier db (db'.grow n) :=
  { h with vars := Nat.le_add_right_of_le h.vars }

variable [Quantity K]

theorem check_eq (h : Roomier db db') {p : Proposal K} {c : Clause K} (checked : db.check p = .ok c) :
    db'.check p = .ok c := by
  obtain ⟨clause, numbers⟩ := check_eq_ok.mp checked
  exact check_eq_ok.mpr ⟨clause.mono h.vars, numbers⟩

/-- Where there is more room, a clause that was accepted is accepted with the same effect, and every other
call but that of a marker has the same effect anyway. -/
theorem plan_eq (h : Roomier db db') {c : Call K} (unmarked : c.isMarker = false)
    (accepted : c.addsClause = true → (db.plan c).2.isOk = true) :
    (db.plan c).1 = (db'.plan c).1 := by
  cases c with
  | newVar => rfl
  | newVars n => simp only [plan]
  | setIncrement x => simp only [plan]
  | addMarker l index => cases unmarked
  | addClause p =>
      have accepted := accepted rfl
      simp only [plan] at accepted ⊢
      cases checked : db.check p with
      | error e =>
          rw [checked] at accepted
          cases accepted
      | ok c =>
          rw [h.check_eq checked]
          simp only [planLong, h.store]

end Roomier

section Runs

variable [Quantity K] {vars vars' : Nat} {es es' : List (Effect K)}

theorem grow_of_plan (db : Database K) {c : Call K} (hc : c.isGrowth = true) :
    (db.plan c).1 = none ∨ ∃ n, (db.plan c).1 = some (.grow n) := by
  cases c with
  | newVar => exact .inr ⟨1, rfl⟩
  | newVars n =>
      simp only [plan]
      cases Check.count n "n" with
      | error e => exact .inl rfl
      | ok n => exact .inr ⟨n, rfl⟩
  | setIncrement _ | addClause _ | addMarker _ _ => cases hc

/-- Step by step both runs have the same effects apart from growth, and stay the same but for their watch
lists. -/
theorem ungrown_effects {cs ds : List (Call K)} (padded : Padded cs ds) (h : Built vars es db)
    (h' : Built vars' es' db') (roomier : Roomier db db') (accepted : db.addsAll cs = true)
    (unmarked : ∀ c ∈ cs, c.isMarker = false) :
    Roomier (db.run cs) (db'.run ds) ∧
      Effect.ungrown (db.effects cs) = Effect.ungrown (db'.effects ds) := by
  induction padded generalizing es es' db db' with
  | nil => exact ⟨roomier, rfl⟩
  | @call c cs ds _ ih =>
      simp only [addsAll, Bool.and_eq_true, Bool.or_eq_true, Bool.not_eq_true'] at accepted
      obtain ⟨first, rest⟩ := accepted
      have planned : (db.plan c).1 = (db'.plan c).1 := by
        refine roomier.plan_eq (unmarked c List.mem_cons_self) fun adds => ?_
        have := first.resolve_left (by rw [adds]; nofun)
        rwa [call_eq h.shaped] at this
      have roomier' : Roomier (db.call c).1 (db'.call c).1 := by
        rw [call_eq h.shaped, call_eq h'.shaped, carryOut, carryOut, ← planned]
        cases (db.plan c).1 with
        | none => exact roomier
        | some e => exact roomier.apply e
      obtain ⟨after, same⟩ := ih (built_call h c) (built_call h' c) roomier' rest
        fun d hd => unmarked d (List.mem_cons_of_mem c hd)
      refine ⟨after, ?_⟩
      rw [effects, effects, Effect.ungrown_append, Effect.ungrown_append, same, planned]
  | @growth c hc cs ds _ ih =>
      have roomier' : Roomier db (db'.call c).1 := by
        rw [call_eq h'.shaped, carryOut]
        rcases grow_of_plan db' hc with planned | ⟨n, planned⟩ <;> rw [planned]
        · exact roomier
        · exact roomier.grow n
      have grown : Effect.ungrown (db'.plan c).1.toList = [] := by
        rcases grow_of_plan db' hc with planned | ⟨n, planned⟩ <;> rw [planned] <;> rfl
      obtain ⟨after, same⟩ := ih h (built_call h' c) roomier' accepted unmarked
      refine ⟨after, ?_⟩
      rw [same, effects, Effect.ungrown_append, grown, List.nil_append]

end Runs

end Database

/-! What does not depend on growth. -/

/-- Occurrences over more variables, none of them in a clause. -/
def Occurrences.pad (occ : Occurrences) (more : Nat) : Occurrences :=
  { occ with
    size := occ.size ++ List.replicate more 0
    pos := occ.pos ++ List.replicate more 0
    horn := occ.horn ++ List.replicate more 0 }

section Pad

variable {vars : Nat} {views : List ClauseView}

theorem VariableCounts.ofViews_of_unused (existing : ∀ v ∈ views, ∀ l ∈ v.lits, l.var < vars) (i : Nat) :
    ofViews views (vars + i) = ⟨0, 0, 0⟩ := by
  have unused : ∀ l ∈ literalsOf views, ¬ l.var = vars + i := by
    intro l hl
    obtain ⟨v, hv, hl⟩ := List.mem_flatMap.mp hl
    have := existing v hv l hl
    omega
  have zero {ls : List Literal} (within : ∀ l ∈ ls, l ∈ literalsOf views) :
      (ls.countP fun l => l.var = vars + i) = 0 := by
    rw [List.countP_eq_zero]
    intro l hl
    simpa using unused l (within l hl)
  rw [ofViews, zero fun _ => id, zero fun _ => List.mem_of_mem_filter, zero fun _ => mem_literalsOf_of_filter]
  rfl

theorem activeVariables_add (existing : ∀ v ∈ views, ∀ l ∈ v.lits, l.var < vars) (more : Nat) :
    activeVariables (vars + more) views = activeVariables vars views := by
  have new : (((List.range more).map (vars + ·)).filter fun v =>
      0 < (VariableCounts.ofViews views v).size) = [] := by
    rw [List.filter_eq_nil_iff]
    intro v hv
    obtain ⟨i, -, rfl⟩ := List.mem_map.mp hv
    rw [VariableCounts.ofViews_of_unused existing]
    decide
  rw [activeVariables, List.range_add, List.filter_append, new, List.append_nil, activeVariables]

theorem Occurrences.ofViews_add (existing : ∀ v ∈ views, ∀ l ∈ v.lits, l.var < vars) (more : Nat) :
    ofViews (vars + more) views = (ofViews vars views).pad more := by
  simp only [ofViews_eq, pad, List.range_add, List.map_append, List.map_map, Function.comp_def,
    VariableCounts.ofViews_of_unused existing, List.map_const', List.length_range]

end Pad

theorem Padded.unmarked {cs ds : List (Call K)} (h : Padded cs ds)
    (unmarked : ∀ c ∈ cs, c.isMarker = false) : ∀ d ∈ ds, d.isMarker = false := by
  induction h with
  | nil => exact unmarked
  | call c _ ih =>
      rw [List.forall_mem_cons] at unmarked ⊢
      exact ⟨unmarked.1, ih unmarked.2⟩
  | @growth c hc _ _ _ ih =>
      rw [List.forall_mem_cons]
      refine ⟨?_, ih unmarked⟩
      cases c with
      | newVar | newVars _ => rfl
      | setIncrement _ | addClause _ | addMarker _ _ => cases hc

namespace Database

variable {vars vars' : Nat}

/-- A run without markers in which every clause is accepted, beside the same run with more variables at the
start and further calls that add variables in between. Both are met by the same traversal, the occurrences
differ by zeros, which no ratio is computed from, and every extraction and report has the same outcome. -/
theorem extract_padded (c : Config) (calls calls' : List (Call Value)) (le : vars ≤ vars')
    (padded : Padded calls calls') (unmarked : ∀ d ∈ calls, d.isMarker = false)
    (accepted : (empty vars : Database Value).addsAll calls = true) :
    let db := (empty vars).run calls
    let db' := (empty vars').run calls'
    db.traversal = db'.traversal ∧
      (∃ occ more, Occurrences.ofDatabase db = .ok occ ∧ Occurrences.ofDatabase db' = .ok (occ.pad more) ∧
        ∀ clauses : Value, VariableRatios.ofOccurrences (occ.pad more) clauses =
          VariableRatios.ofOccurrences occ clauses) ∧
      db.extractWith c = db'.extractWith c ∧ ∀ time j, db.report c time j = db'.report c time j := by
  intro db db'
  have built : Built vars _ db := built_run vars calls
  have built' : Built vars' _ db' := built_run vars' calls'
  obtain ⟨after, same⟩ := ungrown_effects padded .empty .empty ⟨le, rfl, rfl, rfl, rfl, rfl⟩ accepted unmarked
  have unmarkedEffects : ∀ e ∈ (empty vars).effects calls, e.isMark = false := isMark_of_isMarker unmarked
  have unmarkedEffects' : ∀ e ∈ (empty vars').effects calls', e.isMark = false :=
    isMark_of_isMarker (padded.unmarked unmarked)
  have traversal : db.traversal = db'.traversal := by
    rw [built.traversal_eq unmarkedEffects, built'.traversal_eq unmarkedEffects',
      ← Effect.filterMap_ungrown (fun _ => rfl), same, Effect.filterMap_ungrown fun _ => rfl]
  have existing := built.views_existing
  obtain ⟨more, grown⟩ := Nat.le.dest after.vars
  have counted := built.ofDatabase_eq unmarkedEffects
  have counted' : Occurrences.ofDatabase db' =
      .ok ((Occurrences.ofViews db.vars db.traversal.views).pad more) := by
    rw [built'.ofDatabase_eq unmarkedEffects', ← traversal, ← Occurrences.ofViews_add existing]
    exact congrArg (fun n => Except.ok (Occurrences.ofViews n _)) grown.symm
  have rows := activeVariables_add existing more
  have ratios (clauses : Value) : VariableRatios.ofOccurrences
      ((Occurrences.ofViews db.vars db.traversal.views).pad more) clauses =
      VariableRatios.ofOccurrences (.ofViews db.vars db.traversal.views) clauses := by
    rw [← Occurrences.ofViews_add existing, VariableRatios.ofOccurrences_ofViews,
      VariableRatios.ofOccurrences_ofViews, activeRows, activeRows, rows]
  have irredCount : db.irredCount = db'.irredCount := by
    rw [irredCount, irredCount, after.longIrred, after.inline]
  have active : (Occurrences.ofViews db.vars db.traversal.views).activeCount =
      ((Occurrences.ofViews db.vars db.traversal.views).pad more).activeCount := by
    rw [← Occurrences.ofViews_add existing, Occurrences.activeCount_ofViews,
      Occurrences.activeCount_ofViews, rows]
  have extracted : db.extractWith c = db'.extractWith c := by
    apply extract_congr
    · exact core_eq_of_rows counted counted' active rfl (fun clauses => (ratios clauses).symm) traversal
        (congrArg InlineCounts.irredBinary after.inline) (congrArg InlineCounts.irredTernary after.inline)
        irredCount
    · rw [tierDistribution, tierDistribution, tierOffsets, tierOffsets, after.longRed, after.store,
        after.increment]
    · rw [irredDistribution, irredDistribution, after.longIrred, after.store, after.increment]
  refine ⟨traversal, ⟨_, more, counted, counted', ratios⟩, extracted, ?_⟩
  intro time j
  simp only [report, extracted]

/-- A clause over the last new variable, after one new variable and after many. -/
theorem extract_padded_last :
    let clause : Call Value := .addClause { lits := [⟨0⟩, ⟨2⟩, ⟨4⟩, ⟨7⟩], activity := .real 0.5 }
    let last : Call Value := .addClause { lits := [⟨8⟩, ⟨1⟩], activity := .int 0 }
    let calls := [clause, .newVar, last]
    let calls' := [.newVars (.int 2), clause, .newVar, .newVars (.int (-1)), .newVar, last, .newVar]
    ∃ r, ((empty 4).run calls).extractWith .default = .ok r ∧
      ((empty 7).run calls').extractWith .default = .ok r := by
  intro clause last calls calls'
  have padded : Padded calls calls' :=
    .growth rfl (.call clause (.call .newVar (.growth rfl (.growth rfl (.call last (.growth rfl .nil))))))
  have unmarked : ∀ d ∈ calls, d.isMarker = false := by decide
  have accepted : (empty 4 : Database Value).addsAll calls = true := by decide +kernel
  obtain ⟨r, hr⟩ : ∃ r, ((empty 4).run calls).extractWith .default = .ok r :=
    exists_ok_of_isSome (by decide +kernel)
  have more : 4 ≤ 7 := by decide
  obtain ⟨-, -, extracted, -⟩ := extract_padded .default calls calls' more padded unmarked accepted
  exact ⟨r, hr, extracted ▸ hr⟩

end Database

end ClauseFeatures
