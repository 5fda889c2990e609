import ClauseFeatures.Proofs.History
import ClauseFeatures.Proofs.Scan
import ClauseFeatures.Value.Arithmetic

/-!
The traversal as a sort of the history. Every irredundant clause of an accepted call is reported once, from
the list of its owner: clauses come by ascending owner, those of one owner in the order of the calls.
-/
namespace ClauseFeatures

variable {K : Type}

/-- The owner of a clause: the least literal of a binary or ternary one, the lesser of the first two
literals of a long one. -/
def ownerOf : List Literal → Literal
  | [a, b, c] => min a (min b c)
  | a :: b :: _ => min a b
  | _ => default

/-- How a clause is reported: binary and ternary ones with ascending literals, long ones as stored. -/
def viewOf (lits : List Literal) : ClauseView :=
  ⟨if lits.length < 4 then Literal.sort lits else lits⟩

def ownerCode (lits : List Literal) : Nat := (ownerOf lits).code

/-! One entry. -/

namespace ClauseView

/-- The clause reported for a placed entry, if it is read and one is. -/
def resolve (store : ClauseStore K) (p : Literal × Watch) : Option ClauseView :=
  (ofEntry store p.1 p.2).toOption.join

/-- An entry that can be read; a clause reported from it is owned by the literal of the list. -/
def Readable (store : ClauseStore K) (p : Literal × Watch) : Prop :=
  ∃ v, ofEntry store p.1 p.2 = .ok v ∧ ∀ view ∈ v, ownerOf view.lits = p.1

theorem Readable.owner {store : ClauseStore K} {p : Literal × Watch} (h : Readable store p)
    {view : ClauseView} (hv : resolve store p = some view) : ownerOf view.lits = p.1 := by
  obtain ⟨v, hok, owner⟩ := h
  simp only [resolve, hok, Except.toOption, Option.join_some] at hv
  exact owner view hv

end ClauseView

theorem Traversal.ofEntries_eq {store : ClauseStore K} {ps : List (Literal × Watch)}
    (h : ∀ p ∈ ps, ClauseView.Readable store p) :
    ofEntries store ps = ⟨ps.filterMap (ClauseView.resolve store), none⟩ := by
  induction ps with
  | nil => rfl
  | cons p ps ih =>
      obtain ⟨v, hok, -⟩ := h p List.mem_cons_self
      have ih := ih fun q hq => h q (List.mem_cons_of_mem p hq)
      simp only [ofEntries, hok, ih, List.filterMap_cons, ClauseView.resolve, Except.toOption]
      cases v <;> rfl

/-! The entries of one clause. -/

section Clause

open ClauseView Literal

variable {store : ClauseStore K}

theorem itemAt?_natCast {α : Type} (items : List α) (n : Nat) : itemAt? items n = items[n]? := by
  have notNegative : ¬ (n : Int) < 0 := by omega
  simp only [itemAt?, resolvePosition, notNegative, ite_false]
  by_cases h : n < items.length
  · rw [if_pos (by omega), Option.bind_some, Int.toNat_natCast]
  · rw [if_neg (by omega), Option.bind_none, List.getElem?_eq_none (by omega)]

theorem ClauseStore.get_eq_ok {c : Clause K} {offset : Nat} (h : store.bodies[offset]? = some c) :
    store.get (.int offset) = .ok c := by
  have inside : offset < store.bodies.size := (Array.getElem?_eq_some_iff.mp h).1
  have low : Value.le (.int 0) (.int offset) = .ok true := by
    simp only [Value.le, Value.isBelow, ite_true, Except.ok.injEq, Number.le_int_iff]
    omega
  have high : Value.lt (.int offset) (.int store.size) = .ok true := by
    simp only [Value.lt, Value.isBelow, Bool.false_eq_true, ite_false, Except.ok.injEq,
      Number.lt_int_iff, ClauseStore.size]
    omega
  have found : store.get? offset = some c := by
    simpa only [ClauseStore.get?, Int.toNat_natCast, if_neg (Int.not_lt.mpr (Int.natCast_nonneg offset))]
      using h
  rw [ClauseStore.get, low, high, bothHold_ok, ok_bind]
  simp only [Bool.and_self, Bool.not_true, Bool.false_eq_true, ite_false, Value.number?, Option.bind_some,
    Number.int?, found]
  rfl

theorem ofEntry_long {c : Clause K} {offset : Nat} (h : store.bodies[offset]? = some c)
    {a b : Literal} {rest : List Literal} (hl : c.lits = a :: b :: rest) (l : Literal) :
    ofEntry store l (.long offset) =
      .ok (if c.red then none else if l = min a b then some ⟨c.lits⟩ else none) := by
  have first : c.literalAt 0 = .ok a := by
    rw [Clause.literalAt, show (0 : Int) = (0 : Nat) from rfl, itemAt?_natCast, hl]
    rfl
  have second : c.literalAt 1 = .ok b := by
    rw [Clause.literalAt, show (1 : Int) = (1 : Nat) from rfl, itemAt?_natCast, hl]
    rfl
  simp only [ofEntry, Watch.long, ClauseStore.get_eq_ok h, ok_bind, first, second]
  cases c.red <;> rfl

theorem resolve_binary (l other : Literal) (red : Bool) :
    resolve store (l, .binary other red) = if red || other < l then none else some ⟨[l, other]⟩ :=
  rfl

theorem resolve_ternary (l a b : Literal) (red : Bool) :
    resolve store (l, .ternaryOf a b red) =
      if red || min a b < l then none else some ⟨[l, min a b, max a b]⟩ :=
  rfl

/-- The entries of a clause, all readable, from which it is reported once, or never if it is redundant. -/
structure Reported (store : ClauseStore K) (lits : List Literal) (red : Bool)
    (ps : List (Literal × Watch)) : Prop where
  readable : ∀ p ∈ ps, Readable store p
  once : ps.filterMap (resolve store) = if red then [] else [viewOf lits]

theorem readable_binary (l other : Literal) (red : Bool) : Readable store (l, .binary other red) := by
  refine ⟨_, rfl, ?_⟩
  intro view hv
  split at hv
  · cases hv
  · rename_i kept
    cases hv
    simp only [Bool.or_eq_true, decide_eq_true_eq, not_or, lt_iff_code] at kept
    rw [eq_iff_code]
    change (min l other).code = l.code
    rw [code_min]
    omega

theorem readable_ternary (l a b : Literal) (red : Bool) :
    Readable store (l, .ternaryOf a b red) := by
  refine ⟨_, rfl, ?_⟩
  intro view hv
  split at hv
  · cases hv
  · rename_i kept
    cases hv
    simp only [Bool.or_eq_true, decide_eq_true_eq, not_or, lt_iff_code, code_min] at kept
    rw [eq_iff_code]
    change (min l (min (min a b) (max a b))).code = l.code
    simp only [code_min, code_max]
    omega

theorem reported_binary {a b : Literal} (hab : a ≠ b) (red : Bool) (offset : Option Nat) :
    Reported store [a, b] red (placementsOf [a, b] red offset) := by
  refine ⟨?_, ?_⟩
  · intro p hp
    simp only [placementsOf, List.mem_cons, List.not_mem_nil, or_false] at hp
    rcases hp with rfl | rfl <;> exact readable_binary _ _ _
  · have view : viewOf [a, b] = ⟨[min a b, max a b]⟩ := by
      rw [viewOf, if_pos (by simp), sort_pair]
    simp only [placementsOf, List.filterMap_cons, List.filterMap_nil, resolve_binary, view]
    cases red with
    | true => rfl
    | false =>
        rcases lt_or_gt_of_ne hab with h | h
        · simp [h, not_lt_of_lt h, min_of_lt h, max_of_lt h]
        · simp [h, not_lt_of_lt h, min_comm a, max_comm a, min_of_lt h, max_of_lt h]

/-- Only the least of three different literals reports their clause, and it reports them sorted. -/
theorem reported_ternary {a b c : Literal} (h : [a, b, c].Nodup) (red : Bool) (offset : Option Nat) :
    Reported store [a, b, c] red (placementsOf [a, b, c] red offset) := by
  refine ⟨?_, ?_⟩
  · intro p hp
    simp only [placementsOf, List.mem_cons, List.not_mem_nil, or_false] at hp
    rcases hp with rfl | rfl | rfl <;> exact readable_ternary _ _ _ _
  · have view : viewOf [a, b, c] = ⟨sort [a, b, c]⟩ := by
      rw [viewOf, if_pos (by simp)]
    simp only [placementsOf, List.filterMap_cons, List.filterMap_nil, resolve_ternary, view]
    simp only [List.nodup_cons, List.mem_cons, List.not_mem_nil, or_false, not_or, eq_iff_code] at h
    obtain ⟨⟨hab, hac⟩, hbc, -⟩ := h
    cases red with
    | true => rfl
    | false =>
        rcases sort_triple_cases a b c with ⟨least, sorted⟩ | ⟨least, sorted⟩ | ⟨least, sorted⟩
        · rw [sorted]
          simp only [le_iff_code, code_min] at least
          have ha : ¬ min b c < a := by rw [lt_iff_code, code_min]; omega
          have hb : min a c < b := by rw [lt_iff_code, code_min]; omega
          have hc : min a b < c := by rw [lt_iff_code, code_min]; omega
          simp [ha, hb, hc]
        · rw [sorted]
          simp only [le_iff_code, code_min] at least
          have ha : min b c < a := by rw [lt_iff_code, code_min]; omega
          have hb : ¬ min a c < b := by rw [lt_iff_code, code_min]; omega
          have hc : min a b < c := by rw [lt_iff_code, code_min]; omega
          simp [ha, hb, hc]
        · rw [sorted]
          simp only [le_iff_code, code_min] at least
          have ha : min b c < a := by rw [lt_iff_code, code_min]; omega
          have hb : min a c < b := by rw [lt_iff_code, code_min]; omega
          have hc : ¬ min a b < c := by rw [lt_iff_code, code_min]; omega
          simp [ha, hb, hc]

/-- A long clause is reported as stored, from the lesser of the literals that watch it. -/
theorem reported_long {c : Clause K} {offset : Nat} (h : store.bodies[offset]? = some c)
    (distinct : c.lits.Nodup) (long : 4 ≤ c.lits.length) :
    Reported store c.lits c.red (placementsOf c.lits c.red (some offset)) := by
  obtain ⟨lits, red, glue, activity⟩ := c
  match lits, distinct, long with
  | [], _, long | [_], _, long | [_, _], _, long | [_, _, _], _, long => exact absurd long (by simp)
  | a :: b :: d :: e :: rest, distinct, _ =>
      have entry := ofEntry_long h rfl
      have hab : a ≠ b := by
        rintro rfl
        simp at distinct
      refine ⟨?_, ?_⟩
      · intro p hp
        simp only [placementsOf, List.mem_cons, List.not_mem_nil, or_false] at hp
        rcases hp with rfl | rfl
        all_goals
          refine ⟨_, entry _, ?_⟩
          intro view hv
          cases red with
          | true => cases hv
          | false =>
              simp only [Bool.false_eq_true, ite_false] at hv
              split at hv
              · rename_i owner
                cases hv
                exact owner.symm
              · cases hv
      · have view : viewOf (a :: b :: d :: e :: rest) = ⟨a :: b :: d :: e :: rest⟩ := by
          rw [viewOf, if_neg (by simp)]
        simp only [placementsOf, List.filterMap_cons, List.filterMap_nil, resolve, entry,
          Except.toOption, Option.join_some, view]
        cases red with
        | true => rfl
        | false =>
            rcases lt_or_gt_of_ne hab with h | h
            · simp [min_of_lt h, hab.symm]
            · simp [min_comm a, min_of_lt h, hab]

theorem reported_inline {lits : List Literal} {vars : Nat} (h : IsClause lits vars)
    (short : lits.length < 4) (red : Bool) :
    Reported store lits red (placementsOf lits red none) := by
  match lits, h, short with
  | [], h, _ | [_], h, _ => exact absurd h.size (by simp)
  | [a, b], h, _ =>
      have hab : a ≠ b := by
        rintro rfl
        exact absurd h.distinct (by simp)
      exact reported_binary hab red none
  | [a, b, c], h, _ => exact reported_ternary h.distinct red none
  | _ :: _ :: _ :: _ :: _, _, short => exact absurd short (by simp)

theorem ownerOf_viewOf (lits : List Literal) : ownerOf (viewOf lits).lits = ownerOf lits := by
  unfold viewOf
  split
  · rename_i short
    match lits, short with
    | [], _ => simp [sort]
    | [_], _ => simp [sort]
    | [a, b], _ =>
        rw [sort_pair, eq_iff_code]
        change (min (min a b) (max a b)).code = (min a b).code
        simp only [code_min, code_max]
        omega
    | [a, b, c], _ =>
        have code (l x y : Literal) :
            (ownerOf [l, min x y, max x y]).code = min l.code (min x.code y.code) := by
          change (min l (min (min x y) (max x y))).code = _
          simp only [code_min, code_max]
          omega
        change _ = min a (min b c)
        rw [eq_iff_code, code_min, code_min]
        rcases sort_triple_cases a b c with ⟨-, sorted⟩ | ⟨-, sorted⟩ | ⟨-, sorted⟩
        · rw [sorted, code]
        · rw [sorted, code]
          omega
        · rw [sorted, code]
          omega
    | _ :: _ :: _ :: _ :: _, short => exact absurd short (by simp)
  · rfl

end Clause

/-! Runs. -/

/-- An effect other than a marker leaves readable entries, from which its irredundant clause is reported
once. -/
theorem reported_effect {vars : Nat} {e : Effect K} {store : ClauseStore K} (fits : e.Fits vars)
    (unmarked : e.isMark = false)
    (stored : ∀ c offset tier, e = .long c offset tier → store.bodies[offset]? = some c) :
    (∀ p ∈ e.placements, ClauseView.Readable store p) ∧
      e.placements.filterMap (ClauseView.resolve store) = (e.irredundant?.map viewOf).toList := by
  cases e with
  | grow _ | scale _ => exact ⟨fun _ hp => absurd hp List.not_mem_nil, rfl⟩
  | mark _ _ => cases unmarked
  | inline lits red =>
      have : Reported store lits red _ := reported_inline fits.1 fits.2 red
      refine ⟨this.readable, this.once.trans ?_⟩
      cases red <;> rfl
  | long c offset tier =>
      have := reported_long (stored c offset tier rfl) fits.1.distinct fits.2
      refine ⟨this.readable, this.once.trans ?_⟩
      simp only [Effect.irredundant?]
      cases c.red <;> rfl

section Runs

variable [Quantity K] {vars : Nat} {es : List (Effect K)} {db : Database K}

theorem Built.traversal_eq (h : Built vars es db) (unmarked : ∀ e ∈ es, e.isMark = false) :
    db.traversal = ⟨(sortByKey ownerCode (es.filterMap Effect.irredundant?)).map viewOf, none⟩ := by
  have reported (e : Effect K) (he : e ∈ es) := reported_effect (h.fits e he) (unmarked e he)
    (by rintro c offset tier rfl; exact h.store_get he)
  have readable : ∀ p ∈ es.flatMap Effect.placements, ClauseView.Readable db.store p := by
    intro p hp
    obtain ⟨e, he, hp⟩ := List.mem_flatMap.mp hp
    exact (reported e he).1 p hp
  have views : (es.flatMap Effect.placements).filterMap (ClauseView.resolve db.store) =
      (es.filterMap Effect.irredundant?).map viewOf := by
    rw [List.filterMap_flatMap, List.map_filterMap, List.filterMap_eq_flatMap_toList]
    exact List.flatMap_congr fun e he => (reported e he).2
  have owners (lits : List Literal) : ownerCode (viewOf lits).lits = ownerCode lits :=
    congrArg Literal.code (ownerOf_viewOf lits)
  have keyed : ∀ p ∈ es.flatMap Effect.placements, ∀ v, ClauseView.resolve db.store p = some v →
      ownerCode v.lits = placedCode p :=
    fun p hp v hv => congrArg Literal.code ((readable p hp).owner hv)
  have placed : ∀ v ∈ (es.flatMap Effect.placements).filterMap (ClauseView.resolve db.store),
      ownerCode v.lits < 2 * db.vars := by
    intro v hv
    obtain ⟨p, hp, hv⟩ := List.mem_filterMap.mp hv
    rw [keyed p hp v hv]
    exact h.placedCode_lt p hp
  have scanned : ∀ p ∈ db.entries, ClauseView.Readable db.store p := by
    intro p hp
    rw [h.entries_eq] at hp
    exact readable p (mem_buckets.mp hp).1
  rw [Database.traversal, Traversal.ofEntries_eq scanned, h.entries_eq,
    filterMap_buckets _ keyed, buckets_eq_sortByKey _ placed, views, sortByKey_map]
  simp only [owners]

/-- What a visitor is told of a clause: its size with the numbers of plain and of negated literals, and
then each literal as it is reported. -/
def visitsOf (lits : List Literal) (eachLiteral : Bool) : List Visit :=
  let pos := lits.countP fun l => !l.negated
  .clause lits.length pos (lits.length - pos) ::
    if eachLiteral then
      (viewOf lits).lits.map fun l => .literal l lits.length pos (lits.length - pos)
    else []

theorem perm_viewOf (lits : List Literal) : (viewOf lits).lits.Perm lits := by
  unfold viewOf
  split
  · exact List.mergeSort_perm lits _
  · exact .refl lits

theorem visits_viewOf (lits : List Literal) (eachLiteral : Bool) :
    (viewOf lits).visits eachLiteral = visitsOf lits eachLiteral := by
  have size : (viewOf lits).size = lits.length := (perm_viewOf lits).length_eq
  have pos : (viewOf lits).pos = lits.countP fun l => !l.negated := (perm_viewOf lits).countP_eq _
  rw [ClauseView.visits, ClauseView.neg, size, pos]
  rfl

/-- The traversal after a run without markers goes to the end, reports the irredundant clauses of the
accepted calls in the stable order of their owners, and a visitor is told of each once. -/
theorem Database.traversal_run (vars : Nat) (calls : List (Call K))
    (unmarked : ∀ c ∈ calls, c.isMarker = false) :
    let db := (empty vars).run calls
    let clauses := ((empty vars).history calls).filterMap fun a => a.1.irredundant?
    let inOrder := sortByKey (fun lits => (ownerOf lits).code) clauses
    db.traversal.failure = none ∧ db.traversal.views = inOrder.map viewOf ∧
      ∀ eachLiteral, db.traversal.visits eachLiteral = inOrder.flatMap (visitsOf · eachLiteral) := by
  intro db clauses inOrder
  have built := built_run vars calls
  have traversal := built.traversal_eq (isMark_of_isMarker unmarked)
  rw [← irredundant_history .empty calls] at traversal
  refine ⟨congrArg Traversal.failure traversal, congrArg Traversal.views traversal, ?_⟩
  intro eachLiteral
  rw [show db.traversal = _ from traversal, Traversal.visits, List.flatMap_map]
  simp only [visits_viewOf]
  rfl

end Runs

/-- A tautology, a refused clause, a new variable and a long clause with the owner of the tautology. -/
theorem Database.traversal_run_tautology :
    let calls : List (Call Value) :=
      [.addClause { lits := [⟨3⟩, ⟨2⟩], activity := .int 0 },
        .addClause { lits := [⟨2⟩, ⟨9⟩], activity := .int 0 }, .newVar,
        .addClause { lits := [⟨4⟩, ⟨2⟩, ⟨0⟩, ⟨5⟩], activity := .int 0 }]
    (∀ c ∈ calls, c.isMarker = false) ∧
      ((empty 2).run calls).traversal.failure = none ∧
      ((empty 2).run calls).traversal.views.length = 2 := by
  intro calls
  have unmarked : ∀ c ∈ calls, c.isMarker = false := by decide
  obtain ⟨failure, views, -⟩ := traversal_run 2 calls unmarked
  refine ⟨unmarked, failure, ?_⟩
  rw [views, List.length_map, sortByKey, List.length_mergeSort]
  decide +kernel

end ClauseFeatures
