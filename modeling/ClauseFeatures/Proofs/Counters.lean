import ClauseFeatures.Moment.Clause
import ClauseFeatures.Proofs.TraversalOrder

/-!
The counters beside the history and the traversal. Inline clauses are counted by hand, long ones by the
lists of their offsets, and the features divide by these counts what the traversal sums up. Both agree with
the accepted calls, so the divisor is the number of clauses that are summed.
-/
namespace ClauseFeatures

variable {K E : Type}

/-- The classes in which a database counts its clauses. -/
inductive Stratum
  | binary (red : Bool)
  | ternary (red : Bool)
  | irredLong
  | redLong (tier : Nat)
deriving DecidableEq

namespace Stratum

/-- The class of a clause of a size, if clauses have this size. A redundant long clause counts in its
tier. -/
def ofClause (size : Nat) (red : Bool) (tier : Option Nat) : Option Stratum :=
  match size with
  | 0 | 1 => none
  | 2 => some (binary red)
  | 3 => some (ternary red)
  | _ => if red then tier.map redLong else some irredLong

/-- The classes that clauses of a database fall into. -/
def all : List Stratum :=
  [binary false, binary true, ternary false, ternary true, irredLong, redLong 0, redLong 1, redLong 2]

theorem ofClause_long {size : Nat} (h : 4 ≤ size) (red : Bool) (tier : Option Nat) :
    ofClause size red tier = if red then tier.map redLong else some irredLong := by
  match size, h with
  | _ + 4, _ => rfl

theorem ofClause_inline {size : Nat} (h : size < 4) (red : Bool) (s t : Option Nat) :
    ofClause size red s = ofClause size red t := by
  match size, h with
  | 0, _ | 1, _ | 2, _ | 3, _ => rfl

def sum (f : Stratum → Int) : Int := (all.map f).foldr (· + ·) 0

theorem sum_add (f g : Stratum → Int) : sum (fun s => f s + g s) = sum f + sum g := by
  simp only [sum, all, List.map_cons, List.map_nil, List.foldr_cons, List.foldr_nil]
  omega

theorem sum_indicator {s : Stratum} (h : s ∈ all) : sum (fun t => if s = t then 1 else 0) = 1 := by
  revert s
  decide

/-- Items of which each falls into one of the classes are as many as the classes hold together. -/
theorem length_eq_sum {α : Type} (f : α → Option Stratum) {items : List α}
    (h : ∀ x ∈ items, ∃ s ∈ all, f x = some s) :
    items.length = sum fun s => items.countP fun x => f x = some s := by
  induction items with
  | nil => rfl
  | cons x items ih =>
      obtain ⟨s, hs, hx⟩ := h x List.mem_cons_self
      have counted (t : Stratum) : (((x :: items).countP fun x => f x = some t : Nat) : Int) =
          (items.countP fun x => f x = some t) + if s = t then 1 else 0 := by
        rw [List.countP_cons, hx]
        by_cases same : s = t <;> simp [same]
      simp only [counted, sum_add, sum_indicator hs, List.length_cons,
        ← ih fun y hy => h y (List.mem_cons_of_mem x hy)]
      push_cast
      rfl

end Stratum

def Call.stratum? : Call K → Option Stratum
  | addClause p =>
    Stratum.ofClause p.lits.length p.red ((p.tier.number?.bind Number.int?).map Int.toNat)
  | _ => none

def Call.addsClause : Call K → Bool
  | addClause _ => true
  | _ => false

/-- How many clauses of a class a database counts. -/
def Database.count (db : Database K) : Stratum → Int
  | .binary false => db.inline.irredBinary
  | .binary true => db.inline.redBinary
  | .ternary false => db.inline.irredTernary
  | .ternary true => db.inline.redTernary
  | .irredLong => db.longIrred.length
  | .redLong tier => (db.longRed[tier]?.getD []).length

namespace Effect

/-- The class of the clause that an effect adds and lists. -/
def stratum? : Effect K → Option Stratum
  | inline lits red => Stratum.ofClause lits.length red none
  | long c _ tier => if c.red then tier.map .redLong else some .irredLong
  | _ => none

theorem stratum_of_isStranded {e : Effect K} (h : e.isStranded = true) : e.stratum? = none := by
  unfold isStranded at h
  split at h
  · simp only [stratum?, h, ite_true, Option.map_none]
  · cases h

theorem Answers.stratum_eq {e : Effect K} {c : Call K} {answer : Option Nat} {vars : Nat}
    (h : e.Answers c answer) (fits : e.Fits vars) : e.stratum? = c.stratum? := by
  cases h with
  | newVar _ | newVars _ _ | setIncrement _ | addMarker _ _ => rfl
  | inline p => exact Stratum.ofClause_inline fits.2 _ _ _
  | @long p c tier lits red listed index _ =>
      have long : 4 ≤ p.lits.length := lits ▸ fits.2
      rw [stratum?, Call.stratum?, Stratum.ofClause_long long, red]
      cases tier with
      | none =>
          have : p.red = false := red ▸ listed.symm
          simp only [this, Bool.false_eq_true, ite_false]
      | some t => simp only [index t rfl, Option.map_some, Int.toNat_natCast]

end Effect

/-- An effect counts its clause in one class and leaves the others. -/
theorem Database.count_apply {db : Database K} (hs : db.Shaped) {e : Effect K} (he : e.Sound db)
    (s : Stratum) :
    (db.apply e).count s = db.count s + if e.stratum? = some s then 1 else 0 := by
  cases e with
  | grow _ | scale _ | mark _ _ =>
      rcases s with (_ | _) | (_ | _) | _ | _ <;>
        simp only [Effect.stratum?, reduceCtorEq, ite_false, Int.add_zero] <;> rfl
  | inline lits red =>
      have size := he.fits.1.size_of_short he.fits.2
      rcases size with size | size <;> rcases s with (_ | _) | (_ | _) | _ | _ <;> cases red <;>
        simp [Effect.stratum?, Stratum.ofClause, Database.apply, Database.count, size, countInline,
          countBinary, countTernary]
  | long c offset tier =>
      cases tier with
      | none =>
          rcases s with (_ | _) | (_ | _) | _ | _ <;> cases hr : c.red <;>
            simp [Effect.stratum?, Database.apply, Database.count, hr]
      | some t =>
          obtain ⟨red, inside⟩ := he.tier c offset t rfl
          have listed : t < db.longRed.length := hs.tiers ▸ inside
          rcases s with (_ | _) | (_ | _) | _ | u <;>
            simp only [Effect.stratum?, red, ite_true, Option.map_some, Option.some.injEq,
              reduceCtorEq, ite_false, Database.apply, Database.count, Int.add_zero]
          rw [List.getElem?_modify]
          by_cases h : t = u
          · subst h
            simp [List.getElem?_eq_getElem listed]
          · simp [h]

theorem Effect.stratum_mem_all {db : Database K} {e : Effect K} (he : e.Sound db) {s : Stratum} (h : e.stratum? = some s) :
    s ∈ Stratum.all := by
  cases e with
  | grow _ | scale _ | mark _ _ => cases h
  | inline lits red =>
      have size := he.fits.1.size_of_short he.fits.2
      rcases size with size | size <;> cases red <;>
        simp only [Effect.stratum?, Stratum.ofClause, size, Option.some.injEq] at h <;> subst h <;>
        decide
  | long c offset tier =>
      cases hr : c.red with
      | false =>
          simp only [Effect.stratum?, hr, Bool.false_eq_true, ite_false, Option.some.injEq] at h
          subst h
          decide
      | true =>
          simp only [Effect.stratum?, hr, ite_true, Option.map_eq_some_iff] at h
          obtain ⟨t, rfl, rfl⟩ := h
          have inside : t < 3 := (he.tier c offset t rfl).2
          have : t = 0 ∨ t = 1 ∨ t = 2 := by omega
          rcases this with rfl | rfl | rfl <;> decide

/-- Both counts together are the sum of all counters. -/
theorem Database.irredCount_add_redCount {db : Database K} (hs : db.Shaped) :
    db.irredCount + db.redCount = Stratum.sum db.count := by
  obtain ⟨a, b, c, tiers⟩ := List.length_eq_three.mp hs.tiers
  simp [irredCount, redCount, Stratum.sum, Stratum.all, count, tiers]
  omega

/-! Counters and history. -/

theorem countP_eq_of_forall₂ {α β : Type} {R : α → β → Prop} {p : α → Bool} {q : β → Bool}
    {as : List α} {bs : List β} (h : List.Forall₂ R as bs)
    (hpq : ∀ a ∈ as, ∀ b, R a b → p a = q b) : as.countP p = bs.countP q := by
  induction h with
  | nil => rfl
  | @cons a b as bs hab _ ih =>
      rw [List.countP_cons, List.countP_cons, hpq a List.mem_cons_self b hab,
        ih fun d hd => hpq d (List.mem_cons_of_mem a hd)]

section Runs

open Effect

variable [Quantity K] {vars : Nat} {es : List (Effect K)} {db : Database K}

theorem Built.count_eq (h : Built vars es db) (s : Stratum) :
    db.count s = es.countP fun e => e.stratum? = some s := by
  induction h with
  | empty =>
      rcases s with (_ | _) | (_ | _) | _ | t
      all_goals try rfl
      cases ht : (List.replicate tierCount ([] : List Value))[t]? with
      | none => simp [Database.count, Database.empty, ht]
      | some offsets =>
          have := List.eq_of_mem_replicate (List.mem_of_getElem? ht)
          simp [Database.count, Database.empty, ht, this]
  | @effect es db e h he ih =>
      rw [Database.count_apply h.shaped he, ih, List.countP_append, List.countP_singleton]
      simp only [decide_eq_true_eq]
      split <;> rfl

namespace Database

/-- Every counter counts the accepted calls of its class. -/
theorem count_history (vars : Nat) (calls : List (Call K)) (s : Stratum) :
    ((empty vars).run calls).count s =
      ((empty vars).history calls).countP fun a => a.1.stratum? = some s := by
  have built := built_run vars calls
  rw [built.count_eq]
  have kept : ((empty vars).effects calls).countP (fun e => e.stratum? = some s) =
      (((empty vars).effects calls).filter fun e => !e.isStranded).countP
        fun e => e.stratum? = some s := by
    rw [List.countP_filter]
    refine List.countP_congr fun e _ => ?_
    cases he : e.isStranded with
    | false => simp
    | true => simp [stratum_of_isStranded he]
  rw [kept]
  refine congrArg Nat.cast (countP_eq_of_forall₂ (answers_history .empty calls) ?_)
  intro e he a ha
  rw [ha.stratum_eq (built.fits e (List.mem_filter.mp he).1)]

theorem stratum_history (vars : Nat) (calls : List (Call K)) :
    ∀ a ∈ (empty vars).history calls, a.1.addsClause = true →
      ∃ s ∈ Stratum.all, a.1.stratum? = some s := by
  intro a ha adds
  obtain ⟨c, answer⟩ := a
  obtain ⟨e, he, answers⟩ := exists_of_forall₂ (answers_history .empty calls) _ ha
  have he := (List.mem_filter.mp he).1
  have fits := (built_run vars calls).fits e he
  obtain ⟨_, -, d, hd⟩ := exists_plan_of_mem_effects he
  change ∃ s ∈ Stratum.all, c.stratum? = some s
  rw [← answers.stratum_eq fits]
  suffices h : ∃ s, e.stratum? = some s by
    obtain ⟨s, hs⟩ := h
    exact ⟨s, stratum_mem_all (sound_of_plan hd) hs, hs⟩
  cases answers with
  | newVar _ | newVars _ _ | setIncrement _ | addMarker _ _ => cases adds
  | inline p =>
      have size := fits.1.size_of_short fits.2
      rcases size with size | size <;> exact ⟨_, by rw [stratum?, size]; rfl⟩
  | @long p c tier _ _ tiers _ offset =>
      rw [stratum?]
      cases tier with
      | none => exact ⟨.irredLong, by rw [← tiers]; rfl⟩
      | some t => exact ⟨.redLong t, by rw [← tiers]; rfl⟩

/-- The counts of both kinds are together the number of accepted additions. -/
theorem total_history (vars : Nat) (calls : List (Call K)) :
    let db := (empty vars).run calls
    db.irredCount + db.redCount = ((empty vars).history calls).countP fun a => a.1.addsClause := by
  intro db
  have additions : ∀ a ∈ ((empty vars).history calls).filter (fun a => a.1.addsClause),
      ∃ s ∈ Stratum.all, a.1.stratum? = some s := by
    intro a ha
    obtain ⟨ha, adds⟩ := List.mem_filter.mp ha
    exact stratum_history vars calls a ha adds
  have counted (s : Stratum) : db.count s =
      ((((empty vars).history calls).filter fun a => a.1.addsClause).countP
        fun a => a.1.stratum? = some s : Nat) := by
    rw [count_history, List.countP_filter]
    refine congrArg Nat.cast (List.countP_congr fun a _ => ?_)
    rcases a with ⟨c, _⟩
    cases c <;> simp [Call.stratum?, Call.addsClause]
  have sum : db.irredCount + db.redCount = Stratum.sum db.count :=
    irredCount_add_redCount (built_run vars calls).shaped
  rw [sum, List.countP_eq_length_filter, Stratum.length_eq_sum _ additions]
  exact congrArg Stratum.sum (funext counted)

/-- A run is without markers if none was accepted. -/
theorem isMark_of_history {calls : List (Call K)}
    (unmarked : ∀ a ∈ (empty vars).history calls, a.1.isMarker = false) :
    ∀ e ∈ (empty vars).effects calls, e.isMark = false := by
  intro e he
  cases hs : e.isStranded with
  | true => cases e <;> first | rfl | cases hs
  | false =>
      have kept : e ∈ ((empty vars).effects calls).filter fun e => !e.isStranded :=
        List.mem_filter.mpr ⟨he, by rw [hs]; rfl⟩
      obtain ⟨a, ha, answers⟩ := exists_of_forall₂ (answers_history .empty calls).flip e kept
      exact answers.isMark_eq.trans (unmarked a ha)

end Database

end Runs

/-! Counters and traversal. -/

def Visit.isClause : Visit → Bool
  | clause _ _ _ => true
  | literal _ _ _ _ => false

theorem countP_visits (t : Traversal) (eachLiteral : Bool) :
    (t.visits eachLiteral).countP Visit.isClause = t.views.length := by
  have one (v : ClauseView) : (v.visits eachLiteral).countP Visit.isClause = 1 := by
    have none : (v.lits.map fun l => Visit.literal l v.size v.pos v.neg).countP Visit.isClause = 0 := by
      rw [List.countP_eq_zero]
      rintro _ hv
      obtain ⟨l, -, rfl⟩ := List.mem_map.mp hv
      exact Bool.false_ne_true
    cases eachLiteral with
    | false => rfl
    | true =>
        rw [ClauseView.visits, if_pos rfl, List.countP_cons, none]
        rfl
  rw [Traversal.visits, List.countP_flatMap]
  simp [one, Function.comp_def]

section Statistic

variable [Arithmetic K E]

namespace RunningStat

theorem count_merge {s t : RunningStat K} {low high sum : K} {n : Nat}
    (h : s.merge low high sum n = (t, .ok ())) : t.count = s.count + n := by
  unfold merge at h
  split at h
  · cases h
  · split at h
    · cases h
      rfl
    · cases h

end RunningStat

namespace ClauseMoments

variable {vars : K} {stats stats' : RunningStat K × RunningStat K}

/-- A clause with literals is counted by both statistics, if there are variables. -/
theorem count_addRatios {v : ClauseView} (hv : v.size ≠ 0) (zero : Quantity.isZero vars = false)
    (h : addRatios vars stats v = .ok stats') :
    stats'.1.count = stats.1.count + 1 ∧ stats'.2.count = stats.2.count + 1 := by
  simp only [addRatios, hv, zero, decide_false, Bool.or_self, Bool.false_eq_true, ite_false] at h
  obtain ⟨x, -, h⟩ := bind_eq_ok h
  cases hs : stats.1.add x with
  | mk s added =>
      rw [hs] at h
      obtain ⟨_, rfl, h⟩ := bind_eq_ok h
      obtain ⟨y, -, h⟩ := bind_eq_ok h
      cases ht : stats.2.add y with
      | mk t added =>
          rw [ht] at h
          obtain ⟨_, rfl, h⟩ := bind_eq_ok h
          cases h
          exact ⟨RunningStat.count_merge hs, RunningStat.count_merge ht⟩

theorem count_foldlM {views : List ClauseView} (hv : ∀ v ∈ views, v.size ≠ 0)
    (zero : Quantity.isZero vars = false) (h : views.foldlM (addRatios vars) stats = .ok stats') :
    stats'.1.count = stats.1.count + views.length ∧
      stats'.2.count = stats.2.count + views.length := by
  induction views generalizing stats with
  | nil =>
      cases h
      exact ⟨rfl, rfl⟩
  | cons v views ih =>
      rw [List.foldlM_cons] at h
      obtain ⟨middle, first, h⟩ := bind_eq_ok h
      have counted := count_addRatios (hv v List.mem_cons_self) zero first
      have rest := ih (fun w hw => hv w (List.mem_cons_of_mem v hw)) h
      rw [List.length_cons]
      omega

end ClauseMoments

end Statistic

theorem Effect.isClause_of_irredundant {vars : Nat} {e : Effect K} (fits : e.Fits vars)
    {lits : List Literal} (h : e.irredundant? = some lits) : IsClause lits vars := by
  cases e with
  | grow _ | scale _ | mark _ _ => cases h
  | inline _ _ | long _ _ _ =>
      simp only [irredundant?] at h
      split at h
      · cases h
      · cases h
        exact fits.1

/-- A traversal that meets as many clauses of every size as the database counts, so that each sum of
ratios has as many terms as the count by which it is divided. -/
structure Database.Met [Element E] [Arithmetic K E] (db : Database K) : Prop where
  finished : db.traversal.failure = none
  binary : db.inline.irredBinary = (db.traversal.views.countP fun v => v.size = 2 : Nat)
  ternary : db.inline.irredTernary = (db.traversal.views.countP fun v => v.size = 3 : Nat)
  long : db.longIrred.length = db.traversal.views.countP fun v => 4 ≤ v.size
  visited : ∀ eachLiteral,
    db.irredCount = ((db.traversal.visits eachLiteral).countP Visit.isClause : Nat)
  summed : ∀ (vars : K) (stats : RunningStat K × RunningStat K), Quantity.isZero vars = false →
    db.traversal.fold (ClauseMoments.addRatios vars) (.empty, .empty) = .ok stats →
    db.irredCount = stats.1.count ∧ db.irredCount = stats.2.count

/-- A call adds an irredundant clause of a size exactly if it adds to the class of that size. -/
theorem Call.irredundant_stratum {size : Nat → Bool} {s : Stratum}
    (h : ∀ n tier, size n = true ↔ Stratum.ofClause n false tier = some s)
    (hr : ∀ n tier, Stratum.ofClause n true tier ≠ some s) (c : Call K) :
    (c.irredundant?.map fun lits => size lits.length).getD false = true ↔ c.stratum? = some s := by
  cases c with
  | newVar | newVars _ | setIncrement _ | addMarker _ _ => simp [irredundant?, stratum?]
  | addClause p =>
      simp only [irredundant?, stratum?]
      cases p.red with
      | true =>
          simp only [ite_true, Option.map_none, Option.getD_none, Bool.false_eq_true, false_iff]
          exact hr _ _
      | false =>
          simp only [Bool.false_eq_true, ite_false, Option.map_some, Option.getD_some]
          exact h _ _

theorem length_eq_countP_sizes {views : List ClauseView} (h : ∀ v ∈ views, 2 ≤ v.size) :
    views.length = views.countP (fun v => v.size = 2) + views.countP (fun v => v.size = 3) +
      views.countP fun v => 4 ≤ v.size := by
  induction views with
  | nil => rfl
  | cons v views ih =>
      have := h v List.mem_cons_self
      have := ih fun w hw => h w (List.mem_cons_of_mem v hw)
      simp only [List.countP_cons, List.length_cons, decide_eq_true_eq]
      split <;> split <;> split <;> omega

section Runs

variable [Arithmetic K E] (vars : Nat) {calls : List (Call K)}

namespace Database

theorem traversal_history (unmarked : ∀ a ∈ (empty vars).history calls, a.1.isMarker = false) :
    ((empty vars).run calls).traversal =
      ⟨(sortByKey ownerCode
        (((empty vars).history calls).filterMap fun a => a.1.irredundant?)).map viewOf, none⟩ := by
  rw [irredundant_history .empty calls]
  exact (built_run vars calls).traversal_eq (isMark_of_history unmarked)

/-- What is accepted as an irredundant clause is one over the variables that exist in the end. -/
theorem isClause_history (calls : List (Call K)) :
    ∀ lits ∈ ((empty vars).history calls).filterMap fun a => a.1.irredundant?,
      IsClause lits ((empty vars).run calls).vars := by
  intro lits accepted
  rw [irredundant_history .empty calls] at accepted
  obtain ⟨e, he, hl⟩ := List.mem_filterMap.mp accepted
  exact Effect.isClause_of_irredundant ((built_run vars calls).fits e he) hl

theorem two_le_of_mem_views (unmarked : ∀ a ∈ (empty vars).history calls, a.1.isMarker = false) :
    ∀ v ∈ ((empty vars).run calls).traversal.views, 2 ≤ v.size := by
  intro v hv
  rw [traversal_history vars unmarked] at hv
  obtain ⟨lits, hl, rfl⟩ := List.mem_map.mp hv
  rw [ClauseView.size, (perm_viewOf lits).length_eq]
  exact (isClause_history vars calls lits ((List.mergeSort_perm _ _).mem_iff.mp hl)).size

/-- The clauses met of a size are as many as are counted in the class of that size. -/
theorem countP_views (unmarked : ∀ a ∈ (empty vars).history calls, a.1.isMarker = false)
    (size : Nat → Bool) (s : Stratum)
    (h : ∀ n tier, size n = true ↔ Stratum.ofClause n false tier = some s)
    (hr : ∀ n tier, Stratum.ofClause n true tier ≠ some s) :
    ((empty vars).run calls).count s =
      (((empty vars).run calls).traversal.views.countP fun v => size v.size : Nat) := by
  have reported (lits : List Literal) : (viewOf lits).size = lits.length := (perm_viewOf lits).length_eq
  rw [traversal_history vars unmarked, List.countP_map, sortByKey,
    (List.mergeSort_perm _ _).countP_eq, List.countP_filterMap, count_history]
  refine congrArg Nat.cast (List.countP_congr fun a _ => ?_)
  simp only [Function.comp_def, reported, decide_eq_true_eq]
  exact (Call.irredundant_stratum h hr a.1).symm

theorem met_run [Element E] (unmarked : ∀ a ∈ (empty vars).history calls, a.1.isMarker = false) :
    ((empty vars).run calls).Met := by
  have finished : ((empty vars).run calls).traversal.failure = none := by
    rw [traversal_history vars unmarked]
  have sizes := two_le_of_mem_views vars unmarked
  have binary := countP_views vars unmarked (fun n => n = 2) (.binary false)
    (by rintro (_ | _ | _ | _ | n) tier <;> simp [Stratum.ofClause])
    (by rintro (_ | _ | _ | _ | n) (_ | _) <;> simp [Stratum.ofClause])
  have ternary := countP_views vars unmarked (fun n => n = 3) (.ternary false)
    (by rintro (_ | _ | _ | _ | n) tier <;> simp [Stratum.ofClause])
    (by rintro (_ | _ | _ | _ | n) (_ | _) <;> simp [Stratum.ofClause])
  have long := countP_views vars unmarked (fun n => 4 ≤ n) .irredLong
    (by rintro (_ | _ | _ | _ | n) tier <;> simp [Stratum.ofClause])
    (by rintro (_ | _ | _ | _ | n) (_ | _) <;> simp [Stratum.ofClause])
  have all : ((empty vars).run calls).irredCount =
      ((empty vars).run calls).traversal.views.length := by
    rw [length_eq_countP_sizes sizes]
    simp only [count] at binary ternary long
    rw [irredCount, binary, ternary, long]
    push_cast
    omega
  refine ⟨finished, binary, ternary, Int.ofNat.inj long, ?_, ?_⟩
  · intro eachLiteral
    rw [countP_visits, all]
  · intro x stats zero h
    rw [Traversal.fold, finished] at h
    obtain ⟨counted, hfold, h⟩ := bind_eq_ok h
    cases h
    have := ClauseMoments.count_foldlM (fun v hv => by have := sizes v hv; omega) zero hfold
    simp only [RunningStat.empty, Nat.zero_add] at this
    rw [all, this.1, this.2]
    exact ⟨rfl, rfl⟩

/-- After every run each counter counts the accepted calls of its class, both counts together all accepted
additions; and if no marker was accepted, the traversal meets as many clauses of each size as are counted,
so each sum of ratios has as many terms as the count by which it is divided. -/
theorem count_run [Element E] (calls : List (Call K)) :
    let db := (empty vars).run calls
    let history := (empty vars).history calls
    db.longRed.length = tierCount ∧
      (∀ s, db.count s = history.countP fun a => a.1.stratum? = some s) ∧
      db.irredCount + db.redCount = history.countP (fun a => a.1.addsClause) ∧
      ((∀ a ∈ history, a.1.isMarker = false) → db.Met) :=
  ⟨(built_run vars calls).shaped.tiers, count_history vars calls, total_history vars calls,
    met_run vars⟩

end Database

end Runs

/-- A duplicate, a refused clause, a refused marker, and long clauses of both kinds. -/
theorem Database.count_run_duplicate :
    let calls : List (Call Value) :=
      [.addClause { lits := [⟨3⟩, ⟨2⟩], activity := .int 0 }, .addMarker ⟨9⟩ (.int 1), .newVars (.int 2),
        .addClause { lits := [⟨4⟩, ⟨4⟩], activity := .int 0 },
        .addClause { lits := [⟨4⟩, ⟨2⟩, ⟨0⟩, ⟨6⟩], activity := .int 0 },
        .addClause { lits := [⟨3⟩, ⟨2⟩], activity := .int 0 },
        .addClause { lits := [⟨5⟩, ⟨2⟩, ⟨0⟩, ⟨6⟩], red := true, activity := .int 0, tier := .int 1 }]
    (∀ a ∈ (empty 2).history calls, a.1.isMarker = false) ∧
      ((empty 2).run calls).count (.redLong 1) = 1 ∧
      ((empty 2).run calls).traversal.views.countP (fun v => v.size = 2) = 2 := by
  intro calls
  obtain ⟨-, counts, -, met⟩ := count_run 2 calls
  have unmarked : ∀ a ∈ (empty 2).history calls, a.1.isMarker = false := by decide +kernel
  refine ⟨unmarked, (counts (.redLong 1)).trans (by decide +kernel), ?_⟩
  have binary := (met unmarked).binary.symm.trans (counts (.binary false))
  exact Int.ofNat.inj (binary.trans (by decide +kernel))

end ClauseFeatures
