import ClauseFeatures.Database.Build
import ClauseFeatures.Proofs.Agreement
import ClauseFeatures.Proofs.SignedLiteral
import ClauseFeatures.Proofs.Told
import ClauseFeatures.Proofs.WatchInvariant

/-!
Databases of whole formulas. A clause with default settings is accepted if and only if it is well formed. A
formula is a run of such calls, in which each list of the database grows by the clauses of one sort in their
order.
-/
namespace ClauseFeatures

/-! Clauses with default settings. -/

/-- A clause that is added with default glue, activity and tier. -/
def Proposal.plain (red : Bool) (lits : List Literal) : Proposal Value := { lits, red, activity := .int 0 }

/-- The body of such a clause. -/
def Clause.plain (red : Bool) (lits : List Literal) : Clause Value := ⟨lits, red, .int 0, .int 0⟩

def Call.plain (red : Bool) (lits : List Literal) : Call Value := .addClause (.plain red lits)

theorem Check.existing_refused {l : Literal} {vars : Nat} (name : String) (missing : ¬ l.var < vars) :
    ∃ e, existing l vars name = .error e ∧ e.kind = if Failure.isTooLong l.var then .value else .validation := by
  rw [existing, if_neg missing]
  cases long : Failure.isTooLong l.var with
  | true => exact ⟨.integerTooLong, by rw [Failure.integerText_eq_error long]; rfl, rfl⟩
  | false =>
      -- The number of variables is not larger than the variable, so it has a text as well.
      have short : Failure.isTooLong vars = false := Failure.isTooLong_of_le (Nat.not_lt.mp missing) long
      exact ⟨_, by rw [Failure.integerText_eq_ok long, Failure.integerText_eq_ok short]; rfl, rfl⟩

/-- Whether the first literal of a variable that does not exist is told by a number with too many digits. -/
def untoldVariable (vars : Nat) (lits : List Literal) : Bool :=
  (lits.find? fun l => vars ≤ l.var).any fun l => Failure.isTooLong l.var

theorem Check.forM_existing_refused {lits : List Literal} {vars : Nat} (name : String)
    (h : ¬ ∀ l ∈ lits, l.var < vars) :
    ∃ e, (lits.forM fun l => existing l vars name) = .error e ∧
      e.kind = if untoldVariable vars lits then .value else .validation := by
  induction lits with
  | nil => exact absurd nofun h
  | cons l lits ih =>
      change ∃ e, (existing l vars name >>= fun _ => lits.forM fun l => existing l vars name) = _ ∧ _
      by_cases inside : l.var < vars
      · have later : untoldVariable vars (l :: lits) = untoldVariable vars lits := by
          rw [untoldVariable, untoldVariable, List.find?_cons_of_neg]
          rwa [decide_eq_true_eq, Nat.not_le]
        rw [later, existing, if_pos inside, ok_bind]
        exact ih fun rest => h (List.forall_mem_cons.mpr ⟨inside, rest⟩)
      · have here : untoldVariable vars (l :: lits) = Failure.isTooLong l.var := by
          rw [untoldVariable, List.find?_cons_of_pos, Option.any_some]
          exact decide_eq_true (Nat.not_lt.mp inside)
        obtain ⟨e, refused, kind⟩ := existing_refused name inside
        rw [here, refused]
        exact ⟨e, rfl, kind⟩

namespace Database

variable {db : Database Value} {red : Bool} {lits : List Literal}

theorem check_plain (h : IsClause lits db.vars) : db.check (.plain red lits) = .ok (.plain red lits) :=
  check_eq_ok.mpr ⟨h, rfl, 0, rfl, rfl⟩

/-- A refused clause is too short, repeats a literal or has one of a variable that does not exist. -/
theorem check_plain_refused (red : Bool) (h : ¬ IsClause lits db.vars) :
    ∃ e, db.check (.plain red lits) = .error e ∧
      (e.kind = if 2 ≤ lits.length ∧ lits.Nodup ∧ untoldVariable db.vars lits = true then .value else .validation) ∧
      ((∀ l ∈ lits, l.var < db.vars) → ∀ name var count, e ≠ .unknownVariable name var count) := by
  by_cases short : lits.length < 2
  · refine ⟨.tooShort lits.length, ?_, ?_, fun _ _ _ _ => Failure.noConfusion⟩
    · simp only [check, Proposal.plain, short, if_true]
      rfl
    · rw [if_neg fun both => absurd both.1 (Nat.not_le.mpr short)]
      rfl
  · by_cases distinct : lits.Nodup
    · have missing : ¬ ∀ l ∈ lits, l.var < db.vars := fun all => h ⟨Nat.not_lt.mp short, distinct, all⟩
      obtain ⟨e, refused, kind⟩ := Check.forM_existing_refused "literal" missing
      have different : Check.distinct lits "clause literals" = .ok () := Check.distinct_eq_ok.mpr distinct
      refine ⟨e, ?_, ?_, fun all => absurd all missing⟩
      · simp only [check, Proposal.plain, short, if_false, different, ok_bind, refused]
        rfl
      · simp only [kind, Nat.not_lt.mp short, distinct, true_and]
    · have refused : Check.distinct lits "clause literals" = .error (.duplicates "clause literals") :=
        if_neg distinct
      refine ⟨.duplicates "clause literals", ?_, ?_, fun _ _ _ _ => Failure.noConfusion⟩
      · simp only [check, Proposal.plain, short, if_false, refused]
        rfl
      · rw [if_neg fun both => absurd both.2.1 distinct]
        rfl

/-- What a clause with default settings leaves behind. -/
def gain (db : Database Value) (red : Bool) (lits : List Literal) : Effect Value :=
  if lits.length < 4 then .inline lits red
  else .long (.plain red lits) db.store.size (if red then some 0 else none)

theorem plan_plain (red : Bool) (h : IsClause lits db.vars) :
    ∃ answer, db.plan (.plain red lits) = (some (db.gain red lits), .ok answer) := by
  simp only [plan, Call.plain, check_plain h, gain]
  by_cases short : lits.length < 4
  · exact ⟨none, by simp only [Clause.plain, short, if_true]⟩
  · refine ⟨some db.store.size, ?_⟩
    simp only [Clause.plain, short, if_false, planLong]
    cases red <;> rfl

theorem call_plain (red : Bool) (hs : db.Shaped) (h : IsClause lits db.vars) :
    ∃ answer, db.call (.plain red lits) = (db.apply (db.gain red lits), .ok answer) := by
  obtain ⟨answer, planned⟩ := plan_plain red h
  exact ⟨answer, by rw [call_eq hs, planned]; rfl⟩

end Database

/-! What a list of clauses adds to a database. -/

/-- The clauses that go to the store. -/
def longOf (clauses : List (List Literal)) : List (List Literal) := clauses.filter fun c => 4 ≤ c.length

/-- The offsets of the long clauses among some, from a first one on. -/
def offsetsOf (first : Nat) (clauses : List (List Literal)) : List Value :=
  (List.range' first (longOf clauses).length).map fun o : Nat => .int o

def InlineCounts.gain (counts : InlineCounts) (red : Bool) (clauses : List (List Literal)) : InlineCounts :=
  let binary := clauses.countP fun c => c.length = 2
  let ternary := clauses.countP fun c => c.length = 3
  if red then
    { counts with redBinary := counts.redBinary + binary, redTernary := counts.redTernary + ternary }
  else
    { counts with irredBinary := counts.irredBinary + binary, irredTernary := counts.irredTernary + ternary }

theorem longOf_append (cs ds : List (List Literal)) : longOf (cs ++ ds) = longOf cs ++ longOf ds :=
  List.filter_append ..

theorem offsetsOf_append (first : Nat) (cs ds : List (List Literal)) :
    offsetsOf first (cs ++ ds) = offsetsOf first cs ++ offsetsOf (first + (longOf cs).length) ds := by
  rw [offsetsOf, offsetsOf, offsetsOf, longOf_append, List.length_append, ← List.range'_append_1, List.map_append]

theorem InlineCounts.gain_append (counts : InlineCounts) (red : Bool) (cs ds : List (List Literal)) :
    (counts.gain red cs).gain red ds = counts.gain red (cs ++ ds) := by
  cases red <;> simp [gain, List.countP_append, Int.add_assoc]

namespace Database

/-- A database with some more clauses of one sort. -/
structure Gains (db : Database Value) (red : Bool) (clauses : List (List Literal)) (db' : Database Value) :
    Prop where
  vars : db'.vars = db.vars
  increment : db'.increment = db.increment
  store : db'.store.bodies.toList = db.store.bodies.toList ++ (longOf clauses).map (.plain red)
  longIrred : db'.longIrred = db.longIrred ++ if red then [] else offsetsOf db.store.size clauses
  longRed : db'.longRed = db.longRed.modify 0 (· ++ if red then offsetsOf db.store.size clauses else [])
  inline : db'.inline = db.inline.gain red clauses

namespace Gains

variable {db db' db'' : Database Value} {red : Bool} {cs ds : List (List Literal)} {lits : List Literal}

theorem nil (db : Database Value) (red : Bool) : db.Gains red [] db where
  vars := rfl
  increment := rfl
  store := (List.append_nil _).symm
  longIrred := by cases red <;> exact (List.append_nil _).symm
  longRed := by
    have unchanged : (fun offsets : List Value => offsets ++ if red then offsetsOf db.store.size [] else []) = id := by
      funext offsets
      cases red <;> exact List.append_nil offsets
    rw [unchanged, List.modify_id]
  inline := by cases red <;> simp [InlineCounts.gain]

theorem size (h : db.Gains red cs db') : db'.store.size = db.store.size + (longOf cs).length := by
  have lengths := congrArg List.length h.store
  rwa [List.length_append, List.length_map] at lengths

theorem trans (h : db.Gains red cs db') (h' : db'.Gains red ds db'') : db.Gains red (cs ++ ds) db'' where
  vars := h'.vars.trans h.vars
  increment := h'.increment.trans h.increment
  store := by rw [h'.store, h.store, longOf_append, List.map_append, List.append_assoc]
  longIrred := by
    rw [h'.longIrred, h.longIrred, h.size, offsetsOf_append, List.append_assoc]
    cases red <;> rfl
  longRed := by
    rw [h'.longRed, h.longRed, h.size, offsetsOf_append, List.modify_modify_eq]
    congr 1
    funext offsets
    cases red <;> simp
  inline := by rw [h'.inline, h.inline, InlineCounts.gain_append]

/-- One clause is one effect. -/
theorem gain (red : Bool) (h : IsClause lits db.vars) : db.Gains red [lits] (db.apply (db.gain red lits)) := by
  by_cases short : lits.length < 4
  · have effect : db.gain red lits = .inline lits red := if_pos short
    have stored : longOf [lits] = longOf [] := by simp [longOf, short]
    have offsets : offsetsOf db.store.size [lits] = offsetsOf db.store.size [] := by rw [offsetsOf, stored]; rfl
    have unchanged := nil db red
    rw [effect]
    refine ⟨rfl, rfl, ?_, ?_, ?_, ?_⟩
    · rw [stored]
      exact unchanged.store
    · rw [offsets]
      exact unchanged.longIrred
    · rw [offsets]
      exact unchanged.longRed
    · have size := h.size_of_short short
      rcases size with size | size <;> cases red <;>
        simp [apply, countInline, countBinary, countTernary, InlineCounts.gain, size]
  · have effect : db.gain red lits = .long (.plain red lits) db.store.size (if red then some 0 else none) :=
      if_neg short
    have stored : longOf [lits] = [lits] := by simp [longOf, Nat.not_lt.mp short]
    have offsets : offsetsOf db.store.size [lits] = [.int db.store.size] := by rw [offsetsOf, stored]; rfl
    have size : lits.length ≠ 2 ∧ lits.length ≠ 3 := by omega
    rw [effect]
    refine ⟨rfl, rfl, ?_, ?_, ?_, ?_⟩
    · rw [stored]
      exact Array.toList_push
    · rw [offsets]
      cases red <;> simp [apply, Clause.plain]
    · rw [offsets]
      cases red with
      | true => rfl
      | false => exact (nil db false).longRed
    · cases red <;> simp [apply, InlineCounts.gain, size]

end Gains

variable {vars : Nat} {es : List (Effect Value)} {db : Database Value} {red : Bool}

/-- A run that adds clauses of one sort, all of them well formed. -/
theorem run_plain (red : Bool) (h : Built vars es db) (clauses : List (List Literal))
    (formed : ∀ lits ∈ clauses, IsClause lits db.vars) :
    db.Gains red clauses (db.run (clauses.map (Call.plain red))) ∧
      (db.history (clauses.map (Call.plain red))).map Prod.fst = clauses.map (Call.plain red) := by
  induction clauses generalizing es db with
  | nil => exact ⟨.nil db red, rfl⟩
  | cons lits clauses ih =>
      obtain ⟨first, rest⟩ := List.forall_mem_cons.mp formed
      obtain ⟨answer, called⟩ := call_plain red h.shaped first
      have built := built_call h (.plain red lits)
      rw [called] at built
      have step := Gains.gain red first
      obtain ⟨gains, accepted⟩ := ih built fun lits hl => step.vars ▸ rest lits hl
      rw [List.map_cons, run, history, called]
      exact ⟨step.trans gains, by rw [List.map_cons, accepted]⟩

/-- The calls that add a formula, its redundant clauses last. -/
def formulaCalls (irred red : List (List Literal)) : List (Call Value) :=
  irred.map (Call.plain false) ++ red.map (Call.plain true)

/-- A database that holds some irredundant and some redundant clauses in their order and nothing else: the long
ones are stored and listed, the redundant ones in the first tier, the others are counted, and the watch lists
hold what is owed to them. -/
structure Contains (db : Database Value) (n : Nat) (irred red : List (List Literal)) : Prop where
  vars : db.vars = n
  store : db.store.bodies.toList = (longOf irred).map (.plain false) ++ (longOf red).map (.plain true)
  longIrred : db.longIrred = offsetsOf 0 irred
  longRed : db.longRed = [offsetsOf (longOf irred).length red, [], []]
  inline : db.inline = ⟨irred.countP fun c => c.length = 2, irred.countP fun c => c.length = 3,
    red.countP fun c => c.length = 2, red.countP fun c => c.length = 3⟩
  run : db = (empty n).run (formulaCalls irred red)
  accepted : ((empty n).history (formulaCalls irred red)).map Prod.fst = formulaCalls irred red
  owes : db.Owes ((empty n).history (formulaCalls irred red))

theorem contains_run (vars : Nat) {irred red : List (List Literal)}
    (formed : ∀ lits ∈ irred ++ red, IsClause lits vars) :
    ((empty vars).run (formulaCalls irred red)).Contains vars irred red := by
  obtain ⟨formedIrred, formedRed⟩ := List.forall_mem_append.mp formed
  have start : Built vars [] (empty vars : Database Value) := .empty
  obtain ⟨gains, accepted⟩ := run_plain false start irred formedIrred
  have between := built_run_from start (irred.map (Call.plain false))
  obtain ⟨gains', accepted'⟩ := run_plain true between red (gains.vars.symm ▸ formedRed)
  have typed : ∀ c ∈ formulaCalls irred red, c.isTyped = true := by
    intro c hc
    rcases List.mem_append.mp hc with hc | hc <;>
      (obtain ⟨lits, -, rfl⟩ := List.mem_map.mp hc; rfl)
  have owes := (built_run vars (formulaCalls irred red)).owes (answers_history_of_isTyped start typed)
  have whole : (empty vars).run (formulaCalls irred red) =
      ((empty vars).run (irred.map (Call.plain false))).run (red.map (Call.plain true)) := run_append ..
  refine ⟨?_, ?_, ?_, ?_, ?_, rfl, ?_, owes⟩
  · rw [whole, gains'.vars, gains.vars]
    rfl
  · rw [whole, gains'.store, gains.store]
    rfl
  · rw [whole, gains'.longIrred, gains.longIrred]
    exact List.append_nil _
  · have first : ((empty vars).run (irred.map (Call.plain false))).longRed = List.replicate tierCount [] := by
      rw [gains.longRed]
      rfl
    have size : ((empty vars).run (irred.map (Call.plain false))).store.size = (longOf irred).length :=
      gains.size.trans (Nat.zero_add _)
    rw [whole, gains'.longRed, first, size]
    rfl
  · rw [whole, gains'.inline, gains.inline]
    simp [InlineCounts.gain, empty]
  · rw [formulaCalls, history_append, List.map_append, accepted, accepted']

end Database

end ClauseFeatures
