import ClauseFeatures.Proofs.Extraction
import ClauseFeatures.Proofs.Partition

/-!
The signs of stored numbers. The checks refuse a number only if a comparison speaks against it, so each
accepts the numbers of the sign it asks for and, beside them, every NaN. A database keeps its signs as long
as no NaN is stored: a call that gives one for the increment or for an activity is accepted.
-/
namespace ClauseFeatures

/-! Comparison with zero. -/

theorem Number.compare_zero_eq_none {n : Number} : n.compare? (.int 0) = none ↔ n.isNaN = true := by
  cases n with
  | truth _ | int _ => exact ⟨nofun, nofun⟩
  | real x =>
      change Double.compareInt x 0 = none ↔ x.isNaN = true
      unfold Double.compareInt Float.isNaN Float.Model.isNaN
      rw [Double.parts_eq]
      generalize x.toModel.unpack = u
      cases u with
      | notANumber => exact ⟨fun _ => rfl, fun _ => rfl⟩
      | zero _ | finite _ _ _ _ => exact ⟨nofun, nofun⟩
      | infinity s => cases s <;> exact ⟨nofun, nofun⟩

theorem Number.compare_zero_swap (n : Number) :
    (Number.int 0).compare? n = (n.compare? (.int 0)).map Ordering.swap := by
  cases n with
  | real x => rfl
  | truth b => cases b <;> rfl
  | int n =>
      have swap : compare 0 n = (compare n 0).swap := Std.OrientedCmp.eq_swap
      exact congrArg some swap

namespace Value

variable {n : Number}

theorem zero_lt_iff : lt (.int 0) (.number n) = .ok true ↔ n.compare? (.int 0) = some .gt := by
  change Except.ok ((Number.int 0).compare? n == some .lt) = Except.ok true ↔ _
  rw [Number.compare_zero_swap]
  cases n.compare? (.int 0) with
  | none => exact ⟨nofun, nofun⟩
  | some o => cases o <;> simp

theorem zero_le_iff : le (.int 0) (.number n) = .ok true ↔
    n.compare? (.int 0) = some .gt ∨ n.compare? (.int 0) = some .eq := by
  change Except.ok ((Number.int 0).compare? n == some .lt ||
    (Number.int 0).compare? n == some .eq) = Except.ok true ↔ _
  rw [Number.compare_zero_swap]
  cases n.compare? (.int 0) with
  | none => simp
  | some o => cases o <;> simp

theorem isNaN_iff : Quantity.isNaN (Value.number n) = true ↔ n.compare? (.int 0) = none :=
  Number.compare_zero_eq_none.symm

theorem isNaN_of_zero_lt {v : Value} (h : lt (.int 0) v = .ok true) : Quantity.isNaN v = false := by
  cases v with
  | number n => rw [Bool.eq_false_iff, Ne, isNaN_iff, zero_lt_iff.mp h]; exact nofun
  | null | text _ | rawText _ | list _ | mapping _ => rfl

theorem isNaN_of_zero_le {v : Value} (h : le (.int 0) v = .ok true) : Quantity.isNaN v = false := by
  cases v with
  | number n =>
      rw [Bool.eq_false_iff, Ne, isNaN_iff]
      rcases zero_le_iff.mp h with h | h <;> rw [h] <;> exact nofun
  | null | text _ | rawText _ | list _ | mapping _ => rfl

end Value

/-! What the checks let pass. -/

namespace Check

theorem refuse_eq_ok {refused : Bool} {text : Except Failure String} {e : String → Failure} :
    (if refused then do throw (e (← text)) else pure () : Except Failure Unit) = .ok () ↔ refused = false := by
  cases refused with
  | false => exact ⟨fun _ => rfl, fun _ => rfl⟩
  | true => exact iff_of_false (bind_ne_ok nofun) nofun

variable {v : Value} {name : String}

theorem positive_eq_ok :
    positive v name = .ok () ↔ Value.lt (.int 0) v = .ok true ∨ Quantity.isNaN v = true := by
  cases v with
  | number n =>
      refine refuse_eq_ok.trans ?_
      rw [Value.zero_lt_iff, Value.isNaN_iff]
      change (n.compare? (.int 0) == some .lt || n.compare? (.int 0) == some .eq) = false ↔ _
      cases n.compare? (.int 0) with
      | none => decide
      | some o => cases o <;> decide
  | null | text _ | rawText _ | list _ | mapping _ => exact ⟨nofun, (nomatch ·)⟩

theorem nonNegative_eq_ok :
    nonNegative v name = .ok () ↔ Value.le (.int 0) v = .ok true ∨ Quantity.isNaN v = true := by
  cases v with
  | number n =>
      refine refuse_eq_ok.trans ?_
      rw [Value.zero_le_iff, Value.isNaN_iff]
      change (n.compare? (.int 0) == some .lt) = false ↔ _
      cases n.compare? (.int 0) with
      | none => decide
      | some o => cases o <;> decide
  | null | text _ | rawText _ | list _ | mapping _ => exact ⟨nofun, (nomatch ·)⟩

end Check

namespace Database

/-- What the comparisons of the later stages take for granted: an increment above zero, and bodies with a
glue and an activity from zero on. -/
structure Signed (db : Database Value) : Prop where
  increment : Value.lt (.int 0) db.increment = .ok true
  glue : ∀ c ∈ db.store.bodies, Value.le (.int 0) c.glue = .ok true
  activity : ∀ c ∈ db.store.bodies, Value.le (.int 0) c.activity = .ok true

/-- Neither the increment nor a stored activity is a NaN. -/
structure Ordered (db : Database Value) : Prop where
  increment : Quantity.isNaN db.increment = false
  activity : ∀ c ∈ db.store.bodies, Quantity.isNaN c.activity = false

end Database

def Call.givesNaN : Call Value → Bool
  | setIncrement x => Quantity.isNaN x
  | addClause p => Quantity.isNaN p.activity
  | _ => false

namespace Database

section Calls

variable {K : Type} [Quantity K] {db : Database K}

/-- A stored clause was given by a call and checked then. -/
theorem check_of_mem_effects {calls : List (Call K)} {c : Clause K} {o : Nat} {tier : Option Nat}
    (h : .long c o tier ∈ db.effects calls) :
    ∃ (p : Proposal K) (d : Database K), .addClause p ∈ calls ∧ d.check p = .ok c := by
  obtain ⟨call, hc, d, planned⟩ := exists_plan_of_mem_effects h
  cases call with
  | newVar => cases planned
  | newVars _ | setIncrement _ | addMarker _ _ =>
      simp only [plan] at planned
      split at planned <;> cases planned
  | addClause p =>
      refine ⟨p, d, hc, ?_⟩
      simp only [plan] at planned
      split at planned
      · rename_i checked
        split at planned
        · cases planned
        · obtain ⟨_, _, stored⟩ := long_of_planLong planned
          cases stored
          exact checked
      · cases planned

end Calls

variable (vars : Nat) (calls : List (Call Value))

theorem check_of_stored {c : Clause Value} (h : c ∈ ((empty vars).run calls).store.bodies) :
    ∃ (p : Proposal Value) (d : Database Value), .addClause p ∈ calls ∧ d.check p = .ok c := by
  obtain ⟨o, ho, rfl⟩ := Array.mem_iff_getElem.mp h
  obtain ⟨c, tier, he⟩ := (built_run vars calls).exists_long ho
  obtain rfl := Option.some.inj
    ((Array.getElem?_eq_getElem ho).symm.trans ((built_run vars calls).store_get he))
  exact check_of_mem_effects he

/-- Every number in a database has its sign or is a NaN. -/
theorem signed_iff_ordered :
    ((empty vars).run calls).Signed ↔ ((empty vars).run calls).Ordered := by
  constructor
  · intro signed
    exact ⟨Value.isNaN_of_zero_lt signed.increment,
      fun c hc => Value.isNaN_of_zero_le (signed.activity c hc)⟩
  · intro ordered
    refine ⟨?_, ?_, ?_⟩
    · have checked := Check.positive_eq_ok.mp (positive_increment vars calls)
      exact checked.resolve_right (Bool.eq_false_iff.mp ordered.increment)
    · intro c hc
      obtain ⟨p, d, -, checked⟩ := check_of_stored vars calls hc
      obtain ⟨-, -, glue, -, rfl⟩ := check_eq_ok.mp checked
      exact congrArg Except.ok (Number.le_int_iff.mpr (Int.natCast_nonneg glue))
    · intro c hc
      obtain ⟨p, d, -, checked⟩ := check_of_stored vars calls hc
      obtain ⟨-, passed, _, -, rfl⟩ := check_eq_ok.mp checked
      exact (Check.nonNegative_eq_ok.mp passed).resolve_right (Bool.eq_false_iff.mp (ordered.activity _ hc))

/-- Without a call that gives a NaN none is stored. -/
theorem ordered_of_calls (given : ∀ c ∈ calls, c.givesNaN = false) :
    ((empty vars).run calls).Ordered := by
  refine ⟨?_, ?_⟩
  · rcases increment_run vars calls with same | ⟨member, -⟩
    · rw [same]
      rfl
    · exact given _ member
  · intro c hc
    obtain ⟨p, d, member, checked⟩ := check_of_stored vars calls hc
    obtain ⟨-, -, _, -, rfl⟩ := check_eq_ok.mp checked
    exact given _ member

theorem setIncrement_accepted_iff (db : Database Value) (x : Value) :
    (∃ answer, (db.call (.setIncrement x)).2 = .ok answer) ↔
      Value.lt (.int 0) x = .ok true ∨ Quantity.isNaN x = true := by
  refine Iff.trans ?_ (Check.positive_eq_ok : Check.positive x "cla_inc" = .ok () ↔ _)
  simp only [call, setIncrement]
  cases Check.positive x "cla_inc" with
  | ok _ => exact ⟨fun _ => rfl, fun _ => ⟨none, rfl⟩⟩
  | error e =>
      constructor
      · rintro ⟨_, accepted⟩
        cases accepted
      · intro accepted
        cases accepted

theorem signs_of_addClause {db : Database Value} {p : Proposal Value} {answer : Option Nat}
    (h : (db.call (.addClause p)).2 = .ok answer) :
    Value.le (.int 0) p.glue = .ok true ∧
      (Value.le (.int 0) p.activity = .ok true ∨ Quantity.isNaN p.activity = true) := by
  simp only [call, addClause] at h
  split at h
  · rename_i checked
    obtain ⟨-, passed, glue, given, -⟩ := check_eq_ok.mp checked
    exact ⟨given ▸ congrArg Except.ok (Number.le_int_iff.mpr (Int.natCast_nonneg glue)),
      Check.nonNegative_eq_ok.mp passed⟩
  · cases h

/-- After every run all signs hold exactly if no NaN is stored, and a NaN is stored only if a call gave one.
The increment is accepted exactly if it is above zero or a NaN, and a clause only with a glue from zero on and
an activity that is from zero on or a NaN. -/
theorem signed_run (vars : Nat) (calls : List (Call Value)) :
    let db := (empty vars).run calls
    (db.Signed ↔ db.Ordered) ∧ (db.Ordered ∨ ∃ c ∈ calls, c.givesNaN = true) ∧
      (∀ x, (∃ answer, (db.call (.setIncrement x)).2 = .ok answer) ↔
        Value.lt (.int 0) x = .ok true ∨ Quantity.isNaN x = true) ∧
      ∀ p answer, (db.call (.addClause p)).2 = .ok answer → Value.le (.int 0) p.glue = .ok true ∧
        (Value.le (.int 0) p.activity = .ok true ∨ Quantity.isNaN p.activity = true) := by
  refine ⟨signed_iff_ordered vars calls, ?_, setIncrement_accepted_iff _,
    fun _ _ => signs_of_addClause⟩
  by_cases given : ∃ c ∈ calls, c.givesNaN = true
  · exact .inr given
  · refine .inl (ordered_of_calls vars calls fun c hc => ?_)
    exact Bool.eq_false_iff.mpr fun nan => given ⟨c, hc, nan⟩

/-- A NaN is accepted as the increment and as an activity, and then neither comparison holds. -/
theorem signed_run_nan :
    let calls : List (Call Value) := [.setIncrement (.real Double.nan),
      .addClause { lits := [⟨0⟩, ⟨2⟩, ⟨4⟩, ⟨6⟩], activity := .real Double.nan }]
    let db := (empty 4).run calls
    ((empty 4).history calls).length = calls.length ∧ Value.lt (.int 0) db.increment = .ok false ∧
      db.store.bodies.map (fun c => Value.le (.int 0) c.activity) = #[.ok false] ∧ ¬ db.Signed := by
  refine ⟨by decide +kernel, by decide +kernel, by decide +kernel, ?_⟩
  intro signed
  have : Value.lt (.int 0) (.real Double.nan) = .ok true := signed.increment
  exact absurd this (by decide +kernel)

end Database

end ClauseFeatures
