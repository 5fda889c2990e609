import ClauseFeatures.Database.Build
import ClauseFeatures.Proofs.Formula

/-!
The builder of databases. It accepts exactly the formulas whose clauses are all well formed over the given or
the inferred number of variables, and fails at the first other clause. What it has built is a run of accepted
calls.
-/
namespace ClauseFeatures

open Literal

/-! The number of variables. -/

/-- The largest variable of some clauses, counted from one; zero if there is none. -/
def largestOf (clauses : List (List Int)) : Nat := (clauses.flatten.map Int.natAbs).max?.getD 0

/-- The number of variables of a formula, if it is not given the largest one. -/
def variableCount (clauses : List (List Int)) (given : Option Number) : Int :=
  (given.bind Number.int?).getD (largestOf clauses)

/-- Whether a number can be one of variables: truth values cannot. -/
def Number.isNatural : Number → Bool
  | int n => 0 ≤ n
  | _ => false

theorem le_largestOf {clauses : List (List Int)} {c : List Int} (hc : c ∈ clauses) {v : Int} (hv : v ∈ c) :
    v.natAbs ≤ largestOf clauses := by
  have member : v.natAbs ∈ clauses.flatten.map Int.natAbs :=
    List.mem_map_of_mem (List.mem_flatten_of_mem hc hv)
  rw [largestOf]
  cases greatest : (clauses.flatten.map Int.natAbs).max? with
  | none => exact absurd member (List.max?_eq_none_iff.mp greatest ▸ List.not_mem_nil)
  | some m => exact (List.max?_eq_some_iff.mp greatest).2 _ member

theorem foldl_larger (n : Nat) (ns : List Nat) :
    (ns.map fun n : Nat => Number.int n).foldl (fun largest n => if largest.lt n then n else largest) (.int n) =
      .int (ns.foldl max n : Nat) := by
  induction ns generalizing n with
  | nil => rfl
  | cons m ns ih =>
      have larger : (if Number.lt (.int n) (.int m) then Number.int m else .int n) = .int (max n m : Nat) := by
        by_cases less : n < m
        · rw [if_pos (Number.lt_int_iff.mpr (by exact_mod_cast less)), Nat.max_eq_right (Nat.le_of_lt less)]
        · rw [if_neg (mt Number.lt_int_iff.mp (by exact_mod_cast less)), Nat.max_eq_left (Nat.not_lt.mp less)]
      rw [List.map_cons, List.foldl_cons, larger, ih]
      rfl

/-! The clauses. -/

/-- Whether the first number out of range stands for a variable with too many digits. -/
def untoldOutside (vars : Option Int) (clause : List Int) : Bool :=
  (clause.find? fun v => vars.any fun n => n < v.natAbs).any fun v => Failure.isTooLong (v.natAbs - 1 : Nat)

/-- The sort of failure at a clause that is not well formed. A number out of range takes the place of its own refusal
if it cannot be told. -/
def refusalKind (vars : Option Int) (clause : List Int) : Failure.Kind :=
  if 0 ∈ clause ∨ 2 ≤ clause.length ∧ clause.Nodup ∧ untoldOutside vars clause = true then .value else .validation

/-- A failure at a clause of signed numbers that is refused over a number of variables. -/
structure Refuses (vars : Nat) (clause : List Int) (e : Failure) : Prop where
  kind : e.kind = refusalKind (some vars) clause
  existing : (∀ v ∈ clause, v.natAbs ≤ vars) → ∀ name var count, e ≠ .unknownVariable name var count

theorem untoldVariable_ofSigned {clause : List Int} (nonzero : 0 ∉ clause) (vars : Nat) :
    untoldVariable vars (clause.map ofSigned) = untoldOutside (some vars) clause := by
  rw [untoldVariable, untoldOutside]
  induction clause with
  | nil => rfl
  | cons v clause ih =>
      rw [List.mem_cons, not_or] at nonzero
      have var := (denotes_ofSigned (Ne.symm nonzero.1)).var
      have same : (ofSigned v).var = v.natAbs - 1 := by omega
      rw [List.map_cons]
      by_cases inside : vars < v.natAbs
      · rw [List.find?_cons_of_pos, List.find?_cons_of_pos, Option.any_some, Option.any_some, same]
        · exact decide_eq_true (Int.ofNat_lt.mpr inside)
        · exact decide_eq_true (by omega)
      · rw [List.find?_cons_of_neg, List.find?_cons_of_neg, ih nonzero.2]
        · rw [Option.any_some, decide_eq_true_eq]
          exact fun outside => inside (Int.ofNat_lt.mp outside)
        · rw [decide_eq_true_eq]
          omega

theorem untoldOutside_of_inside {vars : Option Int} {clause : List Int}
    (inside : ∀ n ∈ vars, ∀ v ∈ clause, (v.natAbs : Int) ≤ n) : untoldOutside vars clause = false := by
  have none : (clause.find? fun v => vars.any fun n => n < v.natAbs) = none := by
    rw [List.find?_eq_none]
    intro v hv outside
    cases vars with
    | none => cases outside
    | some n => exact absurd (inside n rfl v hv) (Int.not_le.mpr (of_decide_eq_true outside))
  rw [untoldOutside, none]
  rfl

namespace Database

variable {vars : Nat} {es : List (Effect Value)} {db : Database Value} {red : Bool} {clause : List Int}
  {clauses : List (List Int)}

theorem addDimacs_eq (nonzero : 0 ∉ clause) :
    addDimacs red db (clause.map Number.int) =
      (db.call (.plain red (clause.map ofSigned))).2.map fun _ => (db.call (.plain red (clause.map ofSigned))).1 := by
  have candidates : (clause.map fun v => Candidate.ofLiteral (ofSigned v)) =
      (clause.map ofSigned).map Candidate.ofLiteral := by
    rw [List.map_map]
    rfl
  have called : db.call (.plain red (clause.map ofSigned)) =
      db.addClause { lits := clause.map ofSigned, red, activity := Quantity.ofInt 0 } := rfl
  rw [addDimacs, Candidate.mapM_ofDimacs nonzero, ok_bind, addCandidates, candidates, Candidate.mapM_literal?, called]
  simp only
  obtain ⟨after, answer⟩ := db.addClause { lits := clause.map ofSigned, red, activity := Quantity.ofInt 0 }
  cases answer <;> rfl

theorem addDimacs_formed (hs : db.Shaped) (formed : IsSignedClause (some db.vars) clause) :
    addDimacs red db (clause.map Number.int) = .ok (db.call (.plain red (clause.map ofSigned))).1 := by
  obtain ⟨answer, called⟩ := call_plain red hs ((isClause_iff formed.nonzero).mpr formed)
  rw [addDimacs_eq formed.nonzero, called]
  rfl

theorem addDimacs_refused (red : Bool) (refused : ¬ IsSignedClause (some db.vars) clause) :
    ∃ e, addDimacs red db (clause.map Number.int) = .error e ∧ Refuses db.vars clause e := by
  by_cases zero : 0 ∈ clause
  · refine ⟨.zeroLiteral, ?_, (if_pos (.inl zero)).symm, nofun⟩
    rw [addDimacs, Candidate.mapM_ofDimacs_zero zero]
    rfl
  · obtain ⟨e, checked, kind, existing⟩ := check_plain_refused red (mt (isClause_iff zero).mp refused)
    have called : db.call (.plain red (clause.map ofSigned)) = (db, .error e) := by
      rw [Call.plain, call, addClause, checked]
    refine ⟨e, by rw [addDimacs_eq zero, called]; rfl, ?_, fun all => existing ?_⟩
    · simp only [kind, refusalKind, List.length_map, untoldVariable_ofSigned zero, nodup_ofSigned zero, zero, false_or]
    · intro l hl
      obtain ⟨v, hv, rfl⟩ := List.mem_map.mp hl
      have := (denotes_ofSigned fun none => zero (none ▸ hv)).var
      have := all v hv
      omega

theorem vars_plain (red : Bool) (hs : db.Shaped) {lits : List Literal} (h : IsClause lits db.vars) :
    (db.call (.plain red lits)).1.vars = db.vars := by
  obtain ⟨answer, called⟩ := call_plain red hs h
  rw [called]
  exact (Gains.gain red h).vars

theorem addAll_formed (h : Built vars es db) (formed : ∀ c ∈ clauses, IsSignedClause (some db.vars) c) :
    (clauses.map (·.map Number.int)).foldlM (addDimacs red) db =
      .ok (db.run ((clauses.map (·.map ofSigned)).map (.plain red))) := by
  induction clauses generalizing es db with
  | nil => rfl
  | cons c clauses ih =>
      obtain ⟨first, rest⟩ := List.forall_mem_cons.mp formed
      have same := vars_plain red h.shaped ((isClause_iff first.nonzero).mpr first)
      rw [List.map_cons, List.foldlM_cons, addDimacs_formed h.shaped first, ok_bind,
        ih (built_call h _) (same.symm ▸ rest)]
      rfl

theorem vars_run_formed (red : Bool) (h : Built vars es db) (formed : ∀ c ∈ clauses, IsSignedClause (some db.vars) c) :
    (db.run ((clauses.map (·.map ofSigned)).map (.plain red))).vars = db.vars := by
  refine (run_plain red h _ fun lits hl => ?_).1.vars
  obtain ⟨c, hc, rfl⟩ := List.mem_map.mp hl
  exact (isClause_iff (formed c hc).nonzero).mpr (formed c hc)

/-- Clauses after the first one that is refused are not looked at. -/
theorem addAll_refused (red : Bool) (h : Built vars es db) {before : List (List Int)} (after : List (List Int))
    (formed : ∀ c ∈ before, IsSignedClause (some db.vars) c) (refused : ¬ IsSignedClause (some db.vars) clause) :
    ∃ e, ((before ++ clause :: after).map (·.map Number.int)).foldlM (addDimacs red) db = .error e ∧
      Refuses db.vars clause e := by
  induction before generalizing es db with
  | nil =>
      obtain ⟨e, failed, why⟩ := addDimacs_refused red refused
      exact ⟨e, by rw [List.nil_append, List.map_cons, List.foldlM_cons, failed]; rfl, why⟩
  | cons c before ih =>
      obtain ⟨first, rest⟩ := List.forall_mem_cons.mp formed
      have same := vars_plain red h.shaped ((isClause_iff first.nonzero).mpr first)
      obtain ⟨e, failed, why⟩ := ih (built_call h (.plain red (c.map ofSigned))) (same.symm ▸ rest)
        (same.symm ▸ refused)
      refine ⟨e, ?_, same ▸ why⟩
      rw [List.cons_append, List.map_cons, List.foldlM_cons, addDimacs_formed h.shaped first, ok_bind, failed]

/-- Adds the clauses of a formula, the irredundant ones first. -/
def addFormula (irred red : List (List Int)) (db : Database Value) : Except Failure (Database Value) := do
  let db ← (irred.map (·.map Number.int)).foldlM (addDimacs false) db
  (red.map (·.map Number.int)).foldlM (addDimacs true) db

section Formulas

variable {irred red before after : List (List Int)} {n : Nat}

theorem addFormula_formed (formed : ∀ c ∈ irred ++ red, IsSignedClause (some n) c) :
    addFormula irred red (empty n) =
      .ok ((empty n).run (formulaCalls (irred.map (·.map ofSigned)) (red.map (·.map ofSigned)))) := by
  obtain ⟨formedIrred, formedRed⟩ := List.forall_mem_append.mp formed
  have start : Built n [] (empty n : Database Value) := .empty
  have between := built_run_from start ((irred.map (·.map ofSigned)).map (Call.plain false))
  have same := vars_run_formed false start formedIrred
  rw [addFormula, addAll_formed start formedIrred, ok_bind, addAll_formed between (same.symm ▸ formedRed),
    formulaCalls, run_append]

/-- A list with a member of another kind is cut at the first one. -/
theorem exists_first {α : Type} {P : α → Prop} {xs : List α} (h : ¬ ∀ x ∈ xs, P x) :
    ∃ before x after, xs = before ++ x :: after ∧ (∀ y ∈ before, P y) ∧ ¬ P x := by
  classical
  simp only [not_forall] at h
  obtain ⟨y, hy, other⟩ := h
  obtain ⟨x, found⟩ := Option.isSome_iff_exists.mp
    (List.find?_isSome.mpr ⟨y, hy, decide_eq_true other⟩ : (xs.find? fun x => ¬ P x).isSome)
  obtain ⟨not, before, after, rfl, all⟩ := List.find?_eq_some_iff_append.mp found
  exact ⟨before, x, after, rfl, by simpa using all, of_decide_eq_true not⟩

theorem exists_split {α : Type} {xs ys before after : List α} {x : α} (h : xs ++ ys = before ++ x :: after) :
    (∃ rest, xs = before ++ x :: rest) ∨ ∃ rest, before = xs ++ rest ∧ ys = rest ++ x :: after := by
  rcases List.append_eq_append_iff.mp h with ⟨rest, longer, split⟩ | ⟨rest, shorter, split⟩
  · exact .inr ⟨rest, longer, split⟩
  · cases rest with
    | nil => exact .inr ⟨[], by rw [shorter, List.append_nil, List.append_nil], split.symm⟩
    | cons y rest =>
        cases split
        exact .inl ⟨rest, shorter⟩

theorem addFormula_refused (split : irred ++ red = before ++ clause :: after)
    (formed : ∀ c ∈ before, IsSignedClause (some n) c) (refused : ¬ IsSignedClause (some n) clause) :
    ∃ e, addFormula irred red (empty n) = .error e ∧ Refuses n clause e := by
  have start : Built n [] (empty n : Database Value) := .empty
  rcases exists_split split with ⟨rest, rfl⟩ | ⟨rest, rfl, rfl⟩
  · obtain ⟨e, failed, why⟩ := addAll_refused false start rest formed refused
    exact ⟨e, by rw [addFormula, failed]; rfl, why⟩
  · obtain ⟨formedIrred, formedRest⟩ := List.forall_mem_append.mp formed
    have between := built_run_from start ((irred.map (·.map ofSigned)).map (Call.plain false))
    have same : _ = n := vars_run_formed false start formedIrred
    obtain ⟨e, failed, why⟩ := addAll_refused true between after (same.symm ▸ formedRest)
      (same.symm ▸ refused)
    exact ⟨e, by rw [addFormula, addAll_formed start formedIrred, ok_bind, failed], same ▸ why⟩

end Formulas

/-! Numbers that are integers or truth values. -/

/-- Lists of numbers, none of them a double, with the integers that they are. -/
abbrev AreIntegers (numbers : List (List Number)) (clauses : List (List Int)) : Prop :=
  List.Forall₂ (List.Forall₂ fun a v => a.int? = some v) numbers clauses

section Integers

variable {a : Number} {v : Int} {numbers : List Number} {lists : List (List Number)}

theorem abs_of_int? (h : a.int? = some v) : a.abs = .int v.natAbs := by
  cases a with
  | real x => cases h
  | truth b | int n =>
      rw [Number.abs, h, Option.getD_some]
      exact nofun

theorem ofDimacs_of_int? (h : a.int? = some v) : Candidate.ofDimacs a = Candidate.ofDimacs (.int v) := by
  cases a with
  | real x => cases h
  | truth b | int n =>
      cases h
      rfl

theorem mapM_ofDimacs_of_int? (h : List.Forall₂ (fun a v => a.int? = some v) numbers clause) :
    numbers.mapM Candidate.ofDimacs = (clause.map Number.int).mapM Candidate.ofDimacs := by
  induction h with
  | nil => rfl
  | cons first _ ih => rw [List.map_cons, List.mapM_cons, List.mapM_cons, ofDimacs_of_int? first, ih]

theorem addAll_of_areIntegers (h : AreIntegers lists clauses) (db : Database Value) :
    lists.foldlM (addDimacs red) db = (clauses.map (·.map Number.int)).foldlM (addDimacs red) db := by
  induction h generalizing db with
  | nil => rfl
  | cons first _ ih =>
      rw [List.map_cons, List.foldlM_cons, List.foldlM_cons]
      simp only [addDimacs, mapM_ofDimacs_of_int? first, ih]

theorem largestVariable_of_areIntegers (h : AreIntegers lists clauses) :
    largestVariable lists = .int (largestOf clauses) := by
  have magnitudes : lists.flatten.map Number.abs =
      (clauses.flatten.map Int.natAbs).map fun n : Nat => Number.int n := by
    rw [List.map_map]
    have flat : List.Forall₂ (fun a v => a.int? = some v) lists.flatten clauses.flatten := List.rel_flatten h
    clear h
    generalize lists.flatten = numbers, clauses.flatten = integers at flat
    induction flat with
    | nil => rfl
    | cons first _ ih =>
        rw [List.map_cons, List.map_cons, abs_of_int? first, ih]
        rfl
  rw [largestVariable, magnitudes, largestOf]
  cases clauses.flatten.map Int.natAbs with
  | nil => rfl
  | cons n ns =>
      rw [List.map_cons, List.max?_cons', Option.getD_some]
      exact foldl_larger n ns

end Integers

section Counted

variable {irred red : List (List Int)} {irred' red' : List (List Number)} {given : Option Number}

theorem isSignedClause_count {c : List Int} (hc : c ∈ clauses) :
    IsSignedClause (some (variableCount clauses given)) c ↔ IsSignedClause (given.bind Number.int?) c := by
  rw [variableCount]
  cases given.bind Number.int? with
  | some n => rfl
  | none =>
      constructor
      · rintro ⟨size, nonzero, distinct, -⟩
        exact ⟨size, nonzero, distinct, nofun⟩
      · rintro ⟨size, nonzero, distinct, -⟩
        refine ⟨size, nonzero, distinct, ?_⟩
        rintro _ ⟨⟩ v hv
        exact Int.ofNat_le.mpr (le_largestOf hc hv)

/-- No number is out of the range that the clauses themselves give. -/
theorem refusalKind_count {c : List Int} (hc : c ∈ clauses) :
    refusalKind (some (variableCount clauses given)) c = refusalKind (given.bind Number.int?) c := by
  rw [variableCount]
  cases given.bind Number.int? with
  | some n => rfl
  | none =>
      have inside : ∀ n ∈ some (largestOf clauses : Int), ∀ v ∈ c, (v.natAbs : Int) ≤ n := by
        rintro _ ⟨⟩ v hv
        exact Int.ofNat_le.mpr (le_largestOf hc hv)
      have unbounded : ∀ n ∈ (none : Option Int), ∀ v ∈ c, (v.natAbs : Int) ≤ n :=
        fun n member => absurd member (Option.not_mem_none n)
      rw [Option.getD_none, refusalKind, refusalKind, untoldOutside_of_inside inside, untoldOutside_of_inside unbounded]

theorem ofClauses_eq (hi : AreIntegers irred' irred) (hr : AreIntegers red' red)
    (natural : ∀ a ∈ given, a.isNatural = true) :
    ∃ n : Nat, variableCount (irred ++ red) given = n ∧
      (ofClauses irred' red' (given.map Value.number) : Except Failure (Database Value)) =
        addFormula irred red (empty n) := by
  have largest : largestVariable (irred' ++ red') = .int (largestOf (irred ++ red)) :=
    largestVariable_of_areIntegers (List.rel_append hi hr)
  have counted : ∃ n : Nat, variableCount (irred ++ red) given = n ∧
      (given.map Value.number).getD (.number (largestVariable (irred' ++ red'))) = .int n := by
    rw [largest]
    cases given with
    | none => exact ⟨_, rfl, rfl⟩
    | some a =>
        have natural := natural a rfl
        cases a with
        | truth _ | real _ => cases natural
        | int n =>
            obtain ⟨k, rfl⟩ := Int.eq_ofNat_of_zero_le (of_decide_eq_true natural)
            exact ⟨k, rfl, rfl⟩
  obtain ⟨n, count, told⟩ := counted
  refine ⟨n, count, ?_⟩
  rw [ofClauses, told, ofVars, Check.count_eq_ok.mpr rfl, addFormula]
  simp only [addAll_of_areIntegers hi, addAll_of_areIntegers hr]
  rfl

/-- What is no number of variables is refused before any clause, unless it cannot be told. -/
theorem ofClauses_unnatural (irred' red' : List (List Number)) {a : Number} (h : a.isNatural = false) :
    ∃ e, (ofClauses irred' red' (some (.number a)) : Except Failure (Database Value)) = .error e ∧
      e.kind = if a.isTooLong then .value else .validation := by
  have refused : Check.countOf? (.number a) = none := by
    cases a with
    | truth _ | real _ => rfl
    | int n => exact if_neg (of_decide_eq_false h)
  rw [ofClauses, Option.getD_some, ofVars, Check.count, refused, Value.quoted, Value.checked, Value.untold?]
  cases a.isTooLong with
  | true => exact ⟨.integerTooLong, rfl, rfl⟩
  | false => exact ⟨_, rfl, rfl⟩

end Counted

/-! The outcome. -/

/-- What comes of building a database from a formula of signed numbers. -/
structure BuildsFormula (irred red : List (List Int)) (given : Option Number)
    (outcome : Except Failure (Database Value)) : Prop where
  accepted : (∃ db, outcome = .ok db) ↔ (∀ a ∈ given, a.isNatural = true) ∧
    ∀ c ∈ irred ++ red, IsSignedClause (given.bind Number.int?) c
  /-- Each signed number is stored as the literal that it denotes. -/
  built : ∀ db, outcome = .ok db → (db.vars : Int) = variableCount (irred ++ red) given ∧
    ∃ irredLits redLits, List.Forall₂ (List.Forall₂ Denotes) irredLits irred ∧
      List.Forall₂ (List.Forall₂ Denotes) redLits red ∧ db.Contains db.vars irredLits redLits
  /-- What is no number of variables is refused whatever the clauses are. -/
  unnatural : ∀ a ∈ given, a.isNatural = false →
    ∃ e, outcome = .error e ∧ e.kind = if a.isTooLong then .value else .validation
  /-- The first clause that is not well formed decides. -/
  first : (∀ a ∈ given, a.isNatural = true) → ∀ before c after, irred ++ red = before ++ c :: after →
    (∀ d ∈ before, IsSignedClause (given.bind Number.int?) d) → ¬ IsSignedClause (given.bind Number.int?) c →
    ∃ e, outcome = .error e ∧ e.kind = refusalKind (given.bind Number.int?) c
  inferred : given = none → ∀ name var count, outcome ≠ .error (.unknownVariable name var count)

theorem denotes_clauses (nonzero : ∀ c ∈ clauses, 0 ∉ c) :
    List.Forall₂ (List.Forall₂ Denotes) (clauses.map (·.map ofSigned)) clauses := by
  rw [List.forall₂_map_left_iff, List.forall₂_same]
  intro c hc
  rw [List.forall₂_map_left_iff, List.forall₂_same]
  exact fun v hv => denotes_ofSigned fun none => nonzero c hc (none ▸ hv)

theorem contains_formed {irred red : List (List Int)} {n : Nat}
    (formed : ∀ c ∈ irred ++ red, IsSignedClause (some n) c) :
    ((empty n).run (formulaCalls (irred.map (·.map ofSigned)) (red.map (·.map ofSigned)))).Contains n
      (irred.map (·.map ofSigned)) (red.map (·.map ofSigned)) := by
  refine contains_run n fun lits hl => ?_
  rw [← List.map_append] at hl
  obtain ⟨c, hc, rfl⟩ := List.mem_map.mp hl
  exact (isClause_iff (formed c hc).nonzero).mpr (formed c hc)

section Built

variable {irred red : List (List Int)} {given : Option Number} {n : Nat}
  (natural : ∀ a ∈ given, a.isNatural = true) (count : variableCount (irred ++ red) given = n)

include count

private theorem formed_iff_of_count {c : List Int} (hc : c ∈ irred ++ red) :
    IsSignedClause (some n) c ↔ IsSignedClause (given.bind Number.int?) c :=
  count ▸ isSignedClause_count hc

/-- The first clause that is not well formed refuses the formula. -/
private theorem refused_by_first {before after : List (List Int)} {c : List Int}
    (split : irred ++ red = before ++ c :: after)
    (formed : ∀ d ∈ before, IsSignedClause (given.bind Number.int?) d)
    (refused : ¬ IsSignedClause (given.bind Number.int?) c) :
    ∃ e, addFormula irred red (empty n) = .error e ∧ Refuses n c e := by
  have inside {d : List Int} (hd : d ∈ before ++ c :: after) : d ∈ irred ++ red := split ▸ hd
  refine addFormula_refused split (fun d hd => ?_)
    (mt (formed_iff_of_count count (inside (by simp))).mp refused)
  exact (formed_iff_of_count count (inside (List.mem_append_left _ hd))).mpr (formed d hd)

include natural

private theorem builds_formed (formed : ∀ c ∈ irred ++ red, IsSignedClause (given.bind Number.int?) c) :
    BuildsFormula irred red given (addFormula irred red (empty n)) := by
  have formed' : ∀ c ∈ irred ++ red, IsSignedClause (some n) c :=
    fun c hc => (formed_iff_of_count count hc).mpr (formed c hc)
  have built := addFormula_formed formed'
  have contains := contains_formed formed'
  refine ⟨⟨fun _ => ⟨natural, formed⟩, fun _ => ⟨_, built⟩⟩, fun db h => ?_, fun a ha other => ?_,
    fun _ before c after split _ refused => ?_, fun _ _ _ _ failed => ?_⟩
  · cases built.symm.trans h
    refine ⟨by rw [contains.vars, count], _, _, ?_, ?_, by rwa [contains.vars]⟩
    · exact denotes_clauses fun c hc => (formed c (List.mem_append_left _ hc)).nonzero
    · exact denotes_clauses fun c hc => (formed c (List.mem_append_right _ hc)).nonzero
  · rw [natural a ha] at other
    cases other
  · exact absurd (formed c (by rw [split]; simp)) refused
  · cases built.symm.trans failed

private theorem builds_refused (malformed : ¬ ∀ c ∈ irred ++ red, IsSignedClause (given.bind Number.int?) c) :
    BuildsFormula irred red given (addFormula irred red (empty n)) := by
  obtain ⟨before, c, after, split, formed, refused⟩ := exists_first malformed
  obtain ⟨e, failed, why⟩ := refused_by_first count split formed refused
  refine ⟨⟨fun ⟨db, built⟩ => ?_, fun both => absurd both.2 malformed⟩, fun db built => ?_,
    fun a ha other => ?_, fun _ before c after split formed refused => ?_, ?_⟩
  · cases failed.symm.trans built
  · cases failed.symm.trans built
  · rw [natural a ha] at other
    cases other
  · obtain ⟨e, failed, why⟩ := refused_by_first count split formed refused
    have member : c ∈ irred ++ red := by rw [split]; simp
    exact ⟨e, failed, why.kind.trans (count ▸ refusalKind_count member)⟩
  · rintro rfl name var shown unknown
    cases failed.symm.trans unknown
    have member : c ∈ irred ++ red := by rw [split]; simp
    have largest : largestOf (irred ++ red) = n := Int.ofNat_inj.mp count
    exact why.existing (fun v hv => largest ▸ le_largestOf member hv) name var shown rfl

/-- Over a number of variables the clauses alone decide whether a formula is built, and the first that is not well
formed decides how it is refused. -/
theorem builds_formula : BuildsFormula irred red given (addFormula irred red (empty n)) := by
  by_cases formed : ∀ c ∈ irred ++ red, IsSignedClause (given.bind Number.int?) c
  · exact builds_formed natural count formed
  · exact builds_refused natural count formed

end Built

/-- A zero in a clause after one that repeats a number is not looked at. -/
example : (ofClauses [[1, .int (-2)]] [[3, 3], [0]] none : Except Failure (Database Value)).map (fun _ => ()) =
    .error (.duplicates "clause literals") := by decide

end Database

end ClauseFeatures
