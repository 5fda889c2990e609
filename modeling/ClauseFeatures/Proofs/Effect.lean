import ClauseFeatures.Proofs.Placement
import ClauseFeatures.Proofs.Run

/-!
What calls leave behind. The plan of a call says which single effect it has, if any, and what it answers.
A call on a database of the right shape goes as planned: it never stops halfway, and attaching never fails.
-/
namespace ClauseFeatures

variable {K : Type}

inductive Effect (K : Type)
  | grow (n : Nat)
  | scale (x : K)
  | mark (l : Literal) (index : Value)
  | inline (lits : List Literal) (red : Bool)
  /-- A stored clause with its offset and the tier that lists it, if one does. -/
  | long (c : Clause K) (offset : Nat) (tier : Option Nat)

/-- Literals that make up a clause over a number of variables. -/
structure IsClause (lits : List Literal) (vars : Nat) : Prop where
  size : 2 ≤ lits.length
  distinct : lits.Nodup
  existing : ∀ l ∈ lits, l.var < vars

theorem IsClause.mono {lits : List Literal} {vars more : Nat} (h : IsClause lits vars) (le : vars ≤ more) :
    IsClause lits more :=
  ⟨h.size, h.distinct, fun l hl => Nat.lt_of_lt_of_le (h.existing l hl) le⟩

/-- A clause that is not long is binary or ternary. -/
theorem IsClause.size_of_short {lits : List Literal} {vars : Nat} (h : IsClause lits vars)
    (short : lits.length < 4) : lits.length = 2 ∨ lits.length = 3 := by
  have := h.size
  omega

namespace Effect

/-- The entries that an effect puts into the watch lists. -/
def placements : Effect K → List (Literal × Watch)
  | mark l index => [(l, .markerOf index)]
  | inline lits red => placementsOf lits red none
  | long c offset _ => placementsOf c.lits c.red (some offset)
  | _ => []

/-- The literals of an effect belong to existing variables, and clauses take the form of their size. -/
def Fits (vars : Nat) : Effect K → Prop
  | mark l _ => l.var < vars
  | inline lits _ => IsClause lits vars ∧ lits.length < 4
  | long c _ _ => IsClause c.lits vars ∧ 4 ≤ c.lits.length
  | _ => True

/-- What holds of an effect that a call can have on a database. -/
structure Sound (db : Database K) (e : Effect K) : Prop where
  fits : e.Fits db.vars
  offset : ∀ c o t, e = long c o t → o = db.store.size
  tier : ∀ c o t, e = long c o (some t) → c.red = true ∧ t < tierCount

inductive Answers : Effect K → Call K → Option Nat → Prop
  | newVar (var : Nat) : (grow 1).Answers .newVar (some var)
  | newVars (v : Value) (n : Nat) : (grow n).Answers (.newVars v) none
  | setIncrement (x : K) : (scale x).Answers (.setIncrement x) none
  | inline (p : Proposal K) : (inline p.lits p.red).Answers (.addClause p) none
  | long {p : Proposal K} {c : Clause K} {tier : Option Nat} (lits : c.lits = p.lits)
      (red : c.red = p.red) (listed : tier.isSome = c.red)
      (index : ∀ t : Nat, tier = some t → p.tier.number?.bind Number.int? = some (t : Int))
      (offset : Nat) : (long c offset tier).Answers (.addClause p) (some offset)
  | addMarker (l : Literal) (index : Value) : (mark l index).Answers (.addMarker l index) none

end Effect

namespace Database

def countInline (counts : InlineCounts) (lits : List Literal) (red : Bool) : InlineCounts :=
  if lits.length = 2 then countBinary counts red else countTernary counts red

def apply (db : Database K) : Effect K → Database K
  | .grow n => db.grow n
  | .scale x => { db with increment := x }
  | .mark l index => { db with watches := db.watches.place [(l, .markerOf index)] }
  | .inline lits red =>
    { db with
      watches := db.watches.place (placementsOf lits red none)
      inline := countInline db.inline lits red }
  | .long c offset tier =>
    { db with
      watches := db.watches.place (placementsOf c.lits c.red (some offset))
      store := db.store.push c
      longIrred := if c.red then db.longIrred else db.longIrred ++ [.int offset]
      longRed :=
        match tier with
        | some t => db.longRed.modify t (· ++ [.int offset])
        | none => db.longRed }

/-- One list for each literal, and one list for each tier. -/
structure Shaped (db : Database K) : Prop where
  watches : db.watches.size = 2 * db.vars
  tiers : db.longRed.length = tierCount

/-- The plan for a checked long clause. A tier in range that is no index is noticed too late. -/
def planLong (db : Database K) (c : Clause K) (tier : Value) :
    Option (Effect K) × Except Failure (Option Nat) :=
  let offset := db.store.size
  if c.red then
    match checkTier tier, tier.number?.bind Number.int? with
    | .error e, _ => (none, .error e)
    | .ok (), none => (some (.long c offset none), .error .wrongType)
    | .ok (), some t => (some (.long c offset (some t.toNat)), .ok (some offset))
  else (some (.long c offset none), .ok (some offset))

variable [Quantity K]

/-- What a call leaves behind, if anything, and what it answers. -/
def plan (db : Database K) : Call K → Option (Effect K) × Except Failure (Option Nat)
  | .newVar => (some (.grow 1), .ok (some db.vars))
  | .newVars n =>
    match Check.count n "n" with
    | .ok n => (some (.grow n), .ok none)
    | .error e => (none, .error e)
  | .setIncrement x =>
    match Check.positive x "cla_inc" with
    | .ok () => (some (.scale x), .ok none)
    | .error e => (none, .error e)
  | .addClause p =>
    match db.check p with
    | .ok c => if c.lits.length < 4 then (some (.inline c.lits c.red), .ok none) else db.planLong c p.tier
    | .error e => (none, .error e)
  | .addMarker l index =>
    match Check.existing l db.vars "literal", Watch.marker index with
    | .error e, _ => (none, .error e)
    | .ok (), .error e => (none, .error e)
    | .ok (), .ok _ => (some (.mark l index), .ok none)

/-- A redundant long clause that passes every check although its tier is no index. -/
structure Strands (db : Database K) (p : Proposal K) (c : Clause K) : Prop where
  checked : db.check p = .ok c
  red : p.red = true
  long : 4 ≤ p.lits.length
  tier : checkTier p.tier = .ok ()
  noIndex : p.tier.number?.bind Number.int? = none

/-- What can become of a call: it is refused and leaves nothing behind, it is accepted with its effect, or
its clause is stranded, stored and watched but in no tier. -/
inductive Planned (db : Database K) :
    Call K → Option (Effect K) × Except Failure (Option Nat) → Prop
  | refused (c : Call K) (e : Failure) : Planned db c (none, .error e)
  | accepted {c : Call K} {answer : Option Nat} {e : Effect K} (h : e.Answers c answer)
      (hs : e.Sound db) : Planned db c (some e, .ok answer)
  | stranded {p : Proposal K} {c : Clause K} (h : Strands db p c) :
      Planned db (.addClause p) (some (.long c db.store.size none), .error .wrongType)

def carryOut (db : Database K) (p : Option (Effect K) × Except Failure (Option Nat)) :
    Database K × Except Failure (Option Nat) :=
  (p.1.elim db db.apply, p.2)

end Database

/-! Checks. -/

theorem bothHold_ok (a b : Bool) : bothHold (.ok a) (.ok b) = .ok (a && b) := by
  cases a <;> rfl

namespace Number

theorem le_int_iff {m n : Int} : Number.le (.int m) (.int n) = true ↔ m ≤ n := by
  simp only [Number.le, compare?, Option.some_beq_some, Bool.or_eq_true, beq_iff_eq,
    Std.LawfulEqCmp.compare_eq_iff_eq, Int.compare_eq_lt]
  omega

theorem lt_int_iff {m n : Int} : Number.lt (.int m) (.int n) = true ↔ m < n := by
  simp only [Number.lt, compare?, Option.some_beq_some, beq_iff_eq, Int.compare_eq_lt]

end Number

namespace Check

theorem existing_eq_ok {l : Literal} {vars : Nat} {name : String} :
    existing l vars name = .ok () ↔ l.var < vars := by
  unfold existing
  split
  · rename_i inside
    exact iff_of_true rfl inside
  · rename_i outside
    exact iff_of_false (bind_ne_ok fun _ => bind_ne_ok nofun) outside

theorem forM_existing_eq_ok {lits : List Literal} {vars : Nat} {name : String} :
    (lits.forM fun l => existing l vars name) = .ok () ↔ ∀ l ∈ lits, l.var < vars := by
  induction lits with
  | nil => simp only [List.not_mem_nil, false_implies, implies_true, iff_true]; rfl
  | cons l ls ih =>
      change (existing l vars name >>= fun _ => ls.forM fun l => existing l vars name) = _ ↔ _
      rw [List.forall_mem_cons, ← ih, ← existing_eq_ok]
      cases existing l vars name <;> simp

theorem distinct_eq_ok {lits : List Literal} {name : String} :
    distinct lits name = .ok () ↔ lits.Nodup := by
  unfold distinct
  split <;> simp [*]

theorem countOf?_eq_some {v : Value} {n : Nat} : countOf? v = some n ↔ v = .int n := by
  constructor
  · intro h
    unfold countOf? at h
    split at h
    · split at h
      · rename_i natural
        cases h
        rw [Int.toNat_of_nonneg natural]
      · cases h
    · cases h
  · rintro rfl
    rw [countOf?, if_pos (Int.natCast_nonneg n), Int.toNat_natCast]

theorem count_eq_ok {v : Value} {name : String} {n : Nat} : count v name = .ok n ↔ v = .int n := by
  rw [← countOf?_eq_some, count]
  cases countOf? v with
  | some m => rw [Except.ok.injEq, Option.some.injEq]
  | none => exact iff_of_false (bind_ne_ok nofun) nofun

end Check

namespace Database

/-- What passes the check is a clause over the existing variables with a count as its glue and an activity that is
not refused, and its body is as it was proposed. -/
theorem check_eq_ok [Quantity K] {db : Database K} {p : Proposal K} {c : Clause K} :
    db.check p = .ok c ↔ IsClause p.lits db.vars ∧ Check.nonNegative p.activity "activity" = .ok () ∧
      ∃ glue : Nat, p.glue = .int glue ∧ c = ⟨p.lits, p.red, Quantity.ofInt glue, p.activity⟩ := by
  constructor
  · intro h
    unfold check at h
    split at h
    · cases h
    · rename_i short
      obtain ⟨_, distinct, h⟩ := bind_eq_ok h
      obtain ⟨_, existing, h⟩ := bind_eq_ok h
      obtain ⟨glue, counted, h⟩ := bind_eq_ok h
      obtain ⟨_, passed, h⟩ := bind_eq_ok h
      cases h
      have clause : IsClause p.lits db.vars := ⟨Nat.le_of_not_lt short, Check.distinct_eq_ok.mp distinct,
        Check.forM_existing_eq_ok.mp existing⟩
      exact ⟨clause, passed, glue, Check.count_eq_ok.mp counted, rfl⟩
  · rintro ⟨clause, passed, glue, given, rfl⟩
    have long : ¬ p.lits.length < 2 := Nat.not_lt.mpr clause.size
    have distinct : Check.distinct p.lits "clause literals" = .ok () := Check.distinct_eq_ok.mpr clause.distinct
    have existing : (p.lits.forM fun l => Check.existing l db.vars "literal") = .ok () :=
      Check.forM_existing_eq_ok.mpr clause.existing
    have counted : Check.count p.glue "glue" = .ok glue := Check.count_eq_ok.mpr given
    simp only [check, long, if_false, distinct, existing, counted, passed, ok_bind]
    rfl

theorem fits_of_check [Quantity K] {db : Database K} {p : Proposal K} {c : Clause K}
    (h : db.check p = .ok c) : IsClause c.lits db.vars ∧ c.lits = p.lits ∧ c.red = p.red := by
  obtain ⟨clause, -, _, -, rfl⟩ := check_eq_ok.mp h
  exact ⟨clause, rfl, rfl⟩

/-- Only a number passes as a tier, and only from zero to the last tier. -/
theorem checkTier_eq_ok {tier : Value} :
    checkTier tier = .ok () ↔
      ∃ n, tier = .number n ∧ Number.le (.int 0) n = true ∧ n.lt (.int tierCount) = true := by
  cases tier with
  | number n =>
      have below : Value.le (.int 0) (.number n) = .ok (Number.le (.int 0) n) := by
        simp only [Value.le, Value.isBelow, ite_true]
      have above : Value.lt (.number n) (.int tierCount) = .ok (n.lt (.int tierCount)) := by
        simp only [Value.lt, Value.isBelow, Bool.false_eq_true, ite_false]
      rw [checkTier, below, above, bothHold_ok, ok_bind]
      simp only [Value.number.injEq, exists_eq_left']
      have outside : (do throw (.noSuchTier tierCount (← (Value.number n).told)) : Except Failure Unit) ≠ .ok () :=
        bind_ne_ok nofun
      cases Number.le (.int 0) n with
      | false => exact iff_of_false outside (fun h => nomatch h.1)
      | true =>
          cases n.lt (.int tierCount) with
          | false => exact iff_of_false outside (fun h => nomatch h.2)
          | true => exact iff_of_true rfl ⟨rfl, rfl⟩
  | null | text _ | rawText _ | list _ | mapping _ =>
      simp [checkTier, Value.le, Value.isBelow, Value.codes?, bothHold]

theorem resolvePosition_of_checkTier {tier : Value} {t : Int} (h : checkTier tier = .ok ())
    (ht : tier.number?.bind Number.int? = some t) :
    resolvePosition tierCount t = some t.toNat ∧ t.toNat < tierCount ∧ (t.toNat : Int) = t := by
  obtain ⟨n, rfl, low, high⟩ := checkTier_eq_ok.mp h
  change n.int? = some t at ht
  have inside : 0 ≤ t ∧ t < 3 := by
    cases n with
    | real x => cases ht
    | int n =>
        cases ht
        exact ⟨Number.le_int_iff.mp low, Number.lt_int_iff.mp high⟩
    | truth b => cases ht; cases b <;> decide
  have notNegative : ¬ t < 0 := by omega
  simp only [resolvePosition, notNegative, ite_false, tierCount]
  exact ⟨if_pos (by omega), by omega, by omega⟩

theorem Strands.body_red [Quantity K] {db : Database K} {p : Proposal K} {c : Clause K} (h : db.Strands p c) :
    c.red = true := (fits_of_check h.checked).2.2.trans h.red

section Calls

variable {db : Database K}

private theorem insertLong_eq (hs : db.Shaped) {c : Clause K} {a b : Literal}
    (ha : a.code < db.watches.size) (hb : b.code < db.watches.size)
    (hp : ∀ o, placementsOf c.lits c.red (some o) = [(a, .long o), (b, .long o)]) (tier : Value) :
    db.insertLong c a b tier = db.carryOut (db.planLong c tier) := by
  unfold insertLong planLong
  cases hr : c.red with
  | false =>
      simp only [Bool.false_eq_true, ite_false, attachLong_eq ha hb, ← hp]
      simp only [carryOut, Option.elim_some, apply, hr, Bool.false_eq_true, ite_false]
  | true =>
      simp only [ite_true]
      cases ht : checkTier tier with
      | error e => rfl
      | ok _ =>
          simp only [attachLong_eq ha hb, ← hp]
          cases hi : tier.number?.bind Number.int? with
          | none => simp only [carryOut, Option.elim_some, apply, hr, ite_true]
          | some t =>
              have := (resolvePosition_of_checkTier ht hi).1
              rw [← hs.tiers] at this
              simp only [pushTier, this, carryOut, Option.elim_some, apply, hr, ite_true]

theorem insert_eq (hs : db.Shaped) {c : Clause K} (hf : IsClause c.lits db.vars) (tier : Value) :
    db.insert c tier = db.carryOut
      (if c.lits.length < 4 then (some (.inline c.lits c.red), .ok none) else db.planLong c tier) := by
  have inside (l : Literal) (h : l ∈ c.lits) : l.code < db.watches.size := by
    rw [hs.watches]
    exact Literal.code_lt_iff_var.mpr (hf.existing l h)
  obtain ⟨lits, red, glue, activity⟩ := c
  match lits, hf, inside with
  | [], hf, _ | [_], hf, _ => exact absurd hf.size (by simp)
  | [a, b], _, inside =>
      simp only [insert, attachBinary_eq (inside a (by simp)) (inside b (by simp))]
      rfl
  | [a, b, d], hf, inside =>
      simp only [insert, attachTernary_eq hf.distinct (inside a (by simp)) (inside b (by simp))
        (inside d (by simp))]
      rfl
  | a :: b :: d :: e :: rest, _, inside =>
      have long : ¬ (a :: b :: d :: e :: rest).length < 4 := by simp
      simp only [long, ite_false]
      exact insertLong_eq hs (inside a (by simp)) (inside b (by simp)) (fun _ => rfl) tier

variable [Quantity K]

private theorem planned_long {p : Proposal K} {c : Clause K} (h : db.check p = .ok c)
    (hl : ¬ c.lits.length < 4) : Planned db (.addClause p) (db.planLong c p.tier) := by
  obtain ⟨hf, lits, red⟩ := fits_of_check h
  have fits : IsClause c.lits db.vars ∧ 4 ≤ c.lits.length := ⟨hf, Nat.le_of_not_lt hl⟩
  unfold planLong
  cases hr : c.red with
  | false =>
      simp only [Bool.false_eq_true, ite_false]
      exact .accepted (.long lits red (by simp only [hr, Option.isSome]) (by rintro _ ⟨⟩) _)
        ⟨fits, by rintro _ _ _ ⟨⟩; rfl, nofun⟩
  | true =>
      simp only [ite_true]
      cases ht : checkTier p.tier with
      | error e => exact .refused _ e
      | ok _ =>
          cases hi : p.tier.number?.bind Number.int? with
          | none => exact .stranded ⟨h, red ▸ hr, lits ▸ fits.2, ht, hi⟩
          | some t =>
              obtain ⟨-, inside, index⟩ := resolvePosition_of_checkTier ht hi
              refine .accepted (.long lits red (by simp only [hr, Option.isSome]) ?_ _)
                ⟨fits, by rintro _ _ _ ⟨⟩; rfl, ?_⟩
              · rintro _ ⟨⟩
                rw [hi, index]
              · rintro _ _ _ ⟨⟩
                exact ⟨hr, inside⟩

/-- Every plan refuses, accepts or strands its call. -/
theorem planned (db : Database K) (c : Call K) : Planned db c (db.plan c) := by
  cases c with
  | newVar => exact .accepted (.newVar _) ⟨trivial, nofun, nofun⟩
  | newVars n =>
      simp only [plan]
      cases Check.count n "n" with
      | error e => exact .refused _ e
      | ok m => exact .accepted (.newVars n m) ⟨trivial, nofun, nofun⟩
  | setIncrement x =>
      simp only [plan]
      cases Check.positive x "cla_inc" with
      | error e => exact .refused _ e
      | ok _ => exact .accepted (.setIncrement x) ⟨trivial, nofun, nofun⟩
  | addClause p =>
      simp only [plan]
      cases h : db.check p with
      | error e => exact .refused _ e
      | ok c =>
          obtain ⟨hf, lits, red⟩ := fits_of_check h
          by_cases hl : c.lits.length < 4
          · simp only [hl, ite_true]
            rw [lits, red]
            exact .accepted (.inline p) ⟨⟨lits ▸ hf, lits ▸ hl⟩, nofun, nofun⟩
          · simp only [hl, ite_false]
            exact planned_long h hl
  | addMarker l index =>
      simp only [plan]
      cases h : Check.existing l db.vars "literal" with
      | error e => exact .refused _ e
      | ok _ =>
          cases Watch.marker index with
          | error e => exact .refused _ e
          | ok _ =>
              exact .accepted (.addMarker l index) ⟨Check.existing_eq_ok.mp h, nofun, nofun⟩

/-- A call with an effect is accepted or stranded. -/
theorem exists_planned {c : Call K} {e : Effect K} (h : (db.plan c).1 = some e) :
    ∃ answer, Planned db c (some e, answer) :=
  ⟨(db.plan c).2, h ▸ planned db c⟩

theorem sound_of_plan {c : Call K} {e : Effect K} (h : (db.plan c).1 = some e) : e.Sound db := by
  obtain ⟨_, planned⟩ := exists_planned h
  cases planned with
  | accepted _ hs => exact hs
  | stranded hs =>
      obtain ⟨fits, lits, -⟩ := fits_of_check hs.checked
      exact ⟨⟨fits, lits ▸ hs.long⟩, by rintro _ _ _ ⟨⟩; rfl, nofun⟩

/-- Every call goes as planned. -/
theorem call_eq (hs : db.Shaped) (c : Call K) : db.call c = db.carryOut (db.plan c) := by
  cases c with
  | newVar => rfl
  | newVars n =>
      simp only [call, plan, newVars]
      cases Check.count n "n" <;> rfl
  | setIncrement x =>
      simp only [call, plan, setIncrement]
      cases Check.positive x "cla_inc" <;> rfl
  | addClause p =>
      simp only [call, plan, addClause]
      cases h : db.check p with
      | error e => rfl
      | ok c => exact insert_eq hs (fits_of_check h).1 p.tier
  | addMarker l index =>
      simp only [call, plan, addMarker]
      cases h : Check.existing l db.vars "literal" with
      | error e => rfl
      | ok _ =>
          have inside : l.code < db.watches.size := by
            rw [hs.watches]
            exact Literal.code_lt_iff_var.mpr (Check.existing_eq_ok.mp h)
          by_cases missing : index = .null
          · simp only [Watch.marker, missing, ite_true, ok_bind, error_bind]
            rfl
          · simp only [Watch.marker, missing, ite_false, ok_bind, WatchLists.attach_eq inside]
            rfl

end Calls

end Database

end ClauseFeatures
