import ClauseFeatures.Proofs.History
import ClauseFeatures.Proofs.Refusal
import ClauseFeatures.Proofs.Scan

/-!
The representation invariant of the watch lists. After every run whose tiers are indices, the list of a
literal holds exactly what is owed to it for the accepted calls, in the order of the calls; a stranded
clause would be watched although its call failed.
-/
namespace ClauseFeatures

variable {K : Type}

/-- The lists of a database hold what is owed to the accepted calls of a history and nothing else. -/
structure Database.Owes (db : Database K) (history : List (Call K × Option Nat)) : Prop where
  size : db.watches.size = 2 * db.vars
  lists : ∀ x : Literal, x.code < 2 * db.vars →
    db.watches.get x = .ok (entriesAt x (history.flatMap fun a => a.1.owed a.2))
  /-- The two literals that a ternary entry names ascend. -/
  ascending : ∀ (x : Literal) (entries : List Watch), db.watches.get x = .ok entries →
    ∀ w ∈ entries, ∀ a b red, w.body = .ternary a b red → a < b
  /-- The offset owed for a long clause is where its body lies. -/
  stored : ∀ p answer, (Call.addClause p, answer) ∈ history → 4 ≤ p.lits.length →
    ∃ offset c, answer = some offset ∧ db.store.bodies[offset]? = some c ∧ c.lits = p.lits ∧
      c.red = p.red
  total : (db.watches.totalEntries : Int) =
    2 * (db.inline.irredBinary + db.inline.redBinary) +
      3 * (db.inline.irredTernary + db.inline.redTernary) + 2 * db.store.size +
      history.countP fun a => a.1.isMarker

/-! The number of entries. -/

theorem length_placementsOf_inline {lits : List Literal} (h : lits.length = 2 ∨ lits.length = 3)
    (red : Bool) (offset : Option Nat) : (placementsOf lits red offset).length = lits.length := by
  match lits, h with
  | [_, _], _ | [_, _, _], _ => rfl
  | [], h | [_], h | _ :: _ :: _ :: _ :: _, h =>
      simp only [List.length_cons, List.length_nil] at h
      omega

theorem length_placementsOf_long {lits : List Literal} (h : 4 ≤ lits.length) (red : Bool)
    (offset : Nat) : (placementsOf lits red (some offset)).length = 2 := by
  match lits, h with
  | _ :: _ :: _ :: _ :: _, _ => rfl
  | [], h | [_], h | [_, _], h | [_, _, _], h =>
      simp only [List.length_cons, List.length_nil] at h
      omega

/-- Effects place two entries for a binary and for a long clause, three for a ternary one, and one for a
marker. -/
theorem length_placements {vars : Nat} {es : List (Effect K)} (h : ∀ e ∈ es, e.Fits vars) :
    (es.flatMap Effect.placements).length =
      2 * (es.countP (Effect.isInline 2 false) + es.countP (Effect.isInline 2 true)) +
        3 * (es.countP (Effect.isInline 3 false) + es.countP (Effect.isInline 3 true)) +
        2 * (es.filterMap Effect.long?).length + es.countP Effect.isMark := by
  induction es with
  | nil => rfl
  | cons e es ih =>
      have ih := ih fun d hd => h d (List.mem_cons_of_mem e hd)
      have fits := h e List.mem_cons_self
      rw [List.flatMap_cons, List.length_append, ih]
      simp only [List.countP_cons]
      cases e with
      | grow _ | scale _ =>
          simp [Effect.placements, Effect.isInline, Effect.long?, Effect.isMark, List.filterMap_cons]
      | mark _ _ =>
          simp only [Effect.placements, Effect.isInline, Effect.long?, Effect.isMark,
            List.filterMap_cons, List.length_singleton, Bool.false_eq_true, ite_true, ite_false]
          omega
      | inline lits red =>
          have size := fits.1.size_of_short fits.2
          simp only [Effect.placements, length_placementsOf_inline size, Effect.isInline, Effect.long?,
            Effect.isMark, List.filterMap_cons, Bool.false_eq_true, ite_false]
          rcases size with size | size <;> cases red <;> simp [size] <;> omega
      | long c offset tier =>
          simp only [Effect.placements, length_placementsOf_long fits.2, Effect.isInline, Effect.long?,
            Effect.isMark, List.filterMap_cons, List.length_cons, Bool.false_eq_true, ite_false]
          omega

/-! The order in ternary entries. -/

theorem ascending_of_mem_placementsOf {lits : List Literal} (h : lits.Nodup) {red : Bool}
    {offset : Option Nat} {p : Literal × Watch} (hp : p ∈ placementsOf lits red offset)
    {a b : Literal} {r : Bool} (hw : p.2.body = .ternary a b r) : a < b := by
  unfold placementsOf at hp
  split at hp
  · simp only [List.mem_cons, List.not_mem_nil, or_false] at hp
    rcases hp with rfl | rfl <;> cases hw
  · simp only [List.nodup_cons, List.mem_cons, List.not_mem_nil, or_false, not_or] at h
    obtain ⟨⟨hab, hac⟩, hbc, -⟩ := h
    simp only [List.mem_cons, List.not_mem_nil, or_false] at hp
    rcases hp with rfl | rfl | rfl <;> cases hw
    · exact Literal.min_lt_max hbc
    · exact Literal.min_lt_max hac
    · exact Literal.min_lt_max hab
  · simp only [List.mem_cons, List.not_mem_nil, or_false] at hp
    rcases hp with rfl | rfl <;> cases hw
  · cases hp

theorem ascending_of_mem_placements {vars : Nat} {e : Effect K} (h : e.Fits vars)
    {p : Literal × Watch} (hp : p ∈ e.placements) {a b : Literal} {r : Bool}
    (hw : p.2.body = .ternary a b r) : a < b := by
  cases e with
  | grow _ | scale _ => cases hp
  | mark l index =>
      cases List.mem_singleton.mp hp
      cases hw
  | inline lits red | long c _ _ => exact ascending_of_mem_placementsOf h.1.distinct hp hw

section Runs

variable [Quantity K] {vars : Nat} {es : List (Effect K)} {db : Database K}

theorem Built.totalEntries_count (h : Built vars es db) :
    (db.watches.totalEntries : Int) =
      2 * (db.inline.irredBinary + db.inline.redBinary) +
        3 * (db.inline.irredTernary + db.inline.redTernary) + 2 * db.store.size +
        es.countP Effect.isMark := by
  have store : db.store.size = (es.filterMap Effect.long?).length := by
    rw [← h.store_eq, List.length_zipIdx, Array.length_toList]
    rfl
  rw [h.totalEntries_eq, length_placements h.fits, h.inline_eq, store]
  push_cast
  rfl

theorem Built.ascending (h : Built vars es db) {x : Literal} {entries : List Watch}
    (get : db.watches.get x = .ok entries) {w : Watch} (hw : w ∈ entries) {a b : Literal} {red : Bool}
    (body : w.body = .ternary a b red) : a < b := by
  obtain ⟨e, he, hp⟩ := h.exists_placed get hw
  exact ascending_of_mem_placements (h.fits e he) hp body

theorem Built.owes (h : Built vars es db) {history : List (Call K × Option Nat)}
    (answers : List.Forall₂ (fun e a => e.Answers a.1 a.2) es history) : db.Owes history := by
  have owed : es.flatMap Effect.placements = history.flatMap fun a => a.1.owed a.2 := by
    rw [List.flatMap_def, List.flatMap_def]
    exact congrArg List.flatten (map_eq_of_forall₂ answers fun _ _ ha => ha.owed_eq.symm)
  have marks : es.countP Effect.isMark = history.countP fun a => a.1.isMarker := by
    have := map_eq_of_forall₂ (f := Effect.isMark) (g := fun a => a.1.isMarker) answers
      fun _ _ ha => ha.isMark_eq
    have := congrArg (List.countP id) this
    rwa [List.countP_map, List.countP_map] at this
  refine ⟨h.shaped.watches, ?_, ?_, ?_, ?_⟩
  · intro x hx
    rw [h.get_eq hx, owed]
  · intro x entries get w hw a b red body
    exact h.ascending get hw body
  · intro p answer hp long
    obtain ⟨e, he, ha⟩ := exists_of_forall₂ answers _ hp
    cases ha with
    | inline _ => exact absurd long (Nat.not_le_of_lt (h.fits _ he).2)
    | @long _ c tier lits red _ _ offset => exact ⟨offset, c, rfl, h.store_get he, lits, red⟩
  · rw [h.totalEntries_count, marks]

end Runs

/-- After every run whose tiers are indices the lists hold exactly what is owed to the accepted calls, and
no further call fails while it attaches an entry. -/
theorem Database.owes_run (vars : Nat) (calls : List (Call Value))
    (typed : ∀ c ∈ calls, c.isTyped = true) :
    ((empty vars).run calls).Owes ((empty vars).history calls) ∧
      ∀ c e, (((empty vars).run calls).call c).2 = .error e → e.isAttaching = false := by
  have built := built_run vars calls
  refine ⟨built.owes (answers_history_of_isTyped .empty typed), ?_⟩
  intro c e h
  rw [call_eq built.shaped] at h
  exact plan_neverAttaching _ c e h

/-- A marker and a redundant long clause on a literal that a refused clause names too. -/
theorem Database.owes_run_marker :
    let calls : List (Call Value) :=
      [.addClause { lits := [⟨3⟩, ⟨2⟩], red := true, activity := .int 0 },
        .addClause { lits := [⟨2⟩, ⟨9⟩], activity := .int 0 }, .newVar, .addMarker ⟨2⟩ (.int 7),
        .addClause { lits := [⟨4⟩, ⟨2⟩, ⟨0⟩, ⟨5⟩], red := true, activity := .int 0, tier := .int 2 }]
    (∀ c ∈ calls, c.isTyped = true) ∧
      ((empty 2).run calls).watches.get ⟨2⟩ =
        .ok [.binary ⟨3⟩ true, .markerOf (.int 7), .long 0] := by
  intro calls
  have typed : ∀ c ∈ calls, c.isTyped = true := by decide
  have owes := (owes_run 2 calls typed).1
  refine ⟨typed, (owes.lists ⟨2⟩ (by decide +kernel)).trans (congrArg Except.ok ?_)⟩
  decide +kernel

end ClauseFeatures
