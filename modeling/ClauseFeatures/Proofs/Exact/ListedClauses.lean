import ClauseFeatures.Proofs.Conversion
import ClauseFeatures.Proofs.Exact.Summary
import ClauseFeatures.Proofs.Array

/-!
Distributions of clauses that are listed by their offsets. In exact arithmetic every list of offsets of a built
database, in any order and of any length, has the mean and the variance of the three measures of its clauses.
They do not depend on the order of the offsets or on the unit of activities, and no listed size is below four.
-/
namespace ClauseFeatures

variable {K L : Type}

/-! Clauses at offsets. -/

section Lookup

variable {store : ClauseStore K} {offsets : List Nat} {bodies : List (Clause K)}

/-- The clauses at some offsets, side by side with them. -/
def ClauseStore.Lists (store : ClauseStore K) (offsets : List Nat) (bodies : List (Clause K)) : Prop :=
  List.Forall₂ (fun o c => store.bodies[o]? = some c) offsets bodies

theorem ClauseStore.exists_lists (allocated : ∀ o ∈ offsets, o < store.size) :
    ∃ bodies, store.Lists offsets bodies :=
  exists_forall₂ fun o ho => ⟨_, Array.getElem?_eq_getElem (allocated o ho)⟩

namespace ClauseStore.Lists

theorem map (h : store.Lists offsets bodies) (f : Clause K → Clause L) :
    (⟨store.bodies.map f⟩ : ClauseStore L).Lists offsets (bodies.map f) := by
  rw [Lists, List.forall₂_map_right_iff]
  refine h.imp fun o c found => ?_
  rw [Array.getElem?_map, found]
  rfl

theorem perm {offsets' : List Nat} (h : store.Lists offsets bodies) (reordered : offsets.Perm offsets') :
    ∃ bodies', store.Lists offsets' bodies' ∧ bodies.Perm bodies' := by
  obtain ⟨bodies', listed, perm⟩ := List.perm_comp_forall₂ reordered.symm h
  exact ⟨bodies', listed, perm.symm⟩

theorem unique {bodies' : List (Clause K)} (h : store.Lists offsets bodies) (h' : store.Lists offsets bodies') :
    bodies = bodies' :=
  List.right_unique_forall₂' (fun _ _ _ found found' => Option.some.inj (found.symm.trans found')) h h'

theorem eq_nil_iff (h : store.Lists offsets bodies) : offsets = [] ↔ bodies = [] := by
  rw [← List.length_eq_zero_iff, h.length_eq, List.length_eq_zero_iff]

end ClauseStore.Lists

/-- The clauses that a database lists, in one of its own lists, are long. -/
theorem Built.listed [Quantity K] {vars : Nat} {es : List (Effect K)} {db : Database K} (h : Built vars es db)
    {offsets : List Value} (own : offsets ∈ db.longIrred :: db.longRed) :
    ∃ (ns : List Nat) (bodies : List (Clause K)), offsets = ns.map (fun n : Nat => .int n) ∧
      db.store.Lists ns bodies ∧ ∀ c ∈ bodies, 4 ≤ c.size := by
  have chosen (f : Effect K → Option (Clause K × Nat))
      (long : ∀ e p, f e = some p → ∃ tier, e = .long p.1 p.2 tier) :
      ∃ (ns : List Nat) (bodies : List (Clause K)),
        (es.filterMap f).map (fun p => Value.int p.2) = ns.map (fun n : Nat => .int n) ∧
        db.store.Lists ns bodies ∧ ∀ c ∈ bodies, 4 ≤ c.size := by
    refine ⟨(es.filterMap f).map Prod.snd, (es.filterMap f).map Prod.fst, ?_, ?_, fun c hc => ?_⟩
    · rw [List.map_map]
      rfl
    · rw [ClauseStore.Lists, List.forall₂_map_left_iff, List.forall₂_map_right_iff, List.forall₂_same]
      exact h.stored long
    · obtain ⟨p, hp, rfl⟩ := List.mem_map.mp hc
      obtain ⟨e, he, hp⟩ := List.mem_filterMap.mp hp
      obtain ⟨tier, rfl⟩ := long e p hp
      exact (h.fits _ he).2
  rcases List.mem_cons.mp own with rfl | tier
  · rw [h.longIrred_eq]
    exact chosen _ fun _ _ => Effect.eq_long_of_irredLong
  · obtain ⟨t, ht⟩ := List.mem_iff_getElem?.mp tier
    have inside : t < tierCount := h.shaped.tiers ▸ (List.getElem?_eq_some_iff.mp ht).1
    rw [h.longRed_eq inside] at ht
    cases ht
    exact chosen _ fun _ _ => Effect.eq_long_of_tierLong

end Lookup

namespace Distribution

variable {E : Type} [Element E] [Arithmetic K E] {store : ClauseStore K} {offsets : List Nat}
  {bodies : List (Clause K)}

def ofListed (store : ClauseStore K) (offsets : List Nat) (increment : K) : Except Failure (Distribution K) :=
  ofOffsets store (offsets.map fun o : Nat => .int o) increment

theorem ofListed_eq (h : store.Lists offsets bodies) (increment : K) :
    ofListed store offsets increment = ofPopulation bodies increment := by
  have length : bodies.length = offsets.length := h.length_eq.symm
  have found : ∀ p ∈ bodies.zip offsets, store.bodies[p.2]? = some p.1 := fun _ hp => List.forall₂_zip h.flip hp
  have paired : offsets.map (fun o : Nat => Value.int o) = (bodies.zip offsets).map fun p => .int p.2 :=
    calc offsets.map (fun o : Nat => Value.int o)
      _ = ((bodies.zip offsets).map Prod.snd).map fun o : Nat => .int o := by rw [List.map_snd_zip length.ge]
      _ = (bodies.zip offsets).map fun p => .int p.2 := List.map_map
  rw [ofListed, paired, ofOffsets_eq found, List.map_fst_zip length.le]

/-- Mean and variance as they are computed where the elements of an array differ. -/
def twoPass (xs : List E) : E × E :=
  let m := mean xs
  (m, arraySum (xs.map fun y => (m - y) * (m - y)) / Element.ofNat xs.length)

end Distribution

/-! Exact arithmetic. -/

variable {F : Type} [Field F] [LinearOrder F] {r : Reading F}

/-- A clause whose activity is given in units that are smaller by a factor. -/
def Clause.scale (q : Exact r) (c : Clause (Exact r)) : Clause (Exact r) := { c with activity := q * c.activity }

def ClauseStore.scale (q : Exact r) (s : ClauseStore (Exact r)) : ClauseStore (Exact r) :=
  ⟨s.bodies.map (Clause.scale q)⟩

namespace Exact

variable {bodies bodies' : List (Clause (Exact r))} {increment q : Exact r}

theorem ofPopulation_nil (positive : 0 < increment) :
    Distribution.ofPopulation ([] : List (Clause (Exact r))) increment = .ok .zero := by
  rw [Distribution.ofPopulation, check_positive positive]
  rfl

variable [IsStrictOrderedRing F]

structure IsMeanVar (m v : Exact r) (xs : List (Exact r)) : Prop where
  mean : m = xs.sum / xs.length
  variance : v = (xs.map fun x => (x - m) ^ 2).sum / xs.length
  nonneg : 0 ≤ v
  eq_zero_iff : v = 0 ↔ ∀ x ∈ xs, ∀ y ∈ xs, x = y

theorem isMeanVar (xs : List (Exact r)) : IsMeanVar (mean xs) (variance xs) xs where
  mean := rfl
  variance := by
    rw [variance, squares]
    congr 3
    funext x
    ring
  nonneg := div_nonneg (squares_nonneg _ xs) (Nat.cast_nonneg _)
  eq_zero_iff := by
    cases xs with
    | nil => simp [variance]
    | cons x xs =>
        constructor
        · intro none
          have flat := (div_eq_zero_iff.mp none).resolve_right (length_ne_zero (List.cons_ne_nil x xs))
          have constant := squares_eq_zero_iff.mp flat
          exact fun y hy z hz => (constant y hy).trans (constant z hz).symm
        · exact fun constant => variance_of_constant fun y hy => constant y hy x List.mem_cons_self

/-- The shortcut for arrays of one number and the computation for all others agree. -/
theorem meanVar_eq_twoPass (x : Exact r) (xs : List (Exact r)) :
    Distribution.meanVar x xs = Distribution.twoPass (x :: xs) := by
  rw [meanVar_eq, Distribution.twoPass, arraySum_div]
  simp only [arraySum_eq]
  rfl

theorem ofPopulation_perm (reordered : bodies.Perm bodies') (increment : Exact r) :
    Distribution.ofPopulation bodies increment = Distribution.ofPopulation bodies' increment :=
  ofPopulation_congr ⟨bodies', reordered, List.forall₂_same.mpr fun _ _ => ⟨rfl, rfl, rfl⟩⟩ increment

/-- Activities and the increment are only looked at in relation to each other. -/
theorem ofPopulation_scale (positive : 0 < increment) (hq : 0 < q) (bodies : List (Clause (Exact r))) :
    Distribution.ofPopulation (bodies.map (Clause.scale q)) (q * increment) =
      Distribution.ofPopulation bodies increment := by
  have activities : (fun c => c.activity / (q * increment)) ∘ Clause.scale q =
      fun c : Clause (Exact r) => c.activity / increment := by
    funext c
    exact mul_div_mul_left _ _ hq.ne'
  rw [Distribution.ofPopulation, Distribution.ofPopulation, check_positive (mul_pos hq positive),
    check_positive positive, List.isEmpty_map, ofBodies_eq, ofBodies_eq]
  simp only [List.map_map, activities]
  rfl

end Exact

namespace Distribution

variable [IsStrictOrderedRing F] {store : ClauseStore (Exact r)} {offsets : List Nat}
  {bodies : List (Clause (Exact r))} {increment : Exact r}

/-- A distribution with the means and the variances of a population, its activities in units of an increment. -/
structure Measures (d : Distribution (Exact r)) (bodies : List (Clause (Exact r))) (unit : Exact r) : Prop where
  size : Exact.IsMeanVar d.sizeMean d.sizeVar (bodies.map fun c => (c.size : Exact r))
  glue : Exact.IsMeanVar d.glueMean d.glueVar (bodies.map Clause.glue)
  activity : Exact.IsMeanVar d.activityMean d.activityVar (bodies.map fun c => c.activity / unit)

theorem ofPopulation_measures (positive : 0 < increment) (some : bodies ≠ []) :
    ∃ d, ofPopulation bodies increment = .ok d ∧ d.Measures bodies increment := by
  have filled : bodies.isEmpty = false := List.isEmpty_eq_false_iff.mpr some
  rw [ofPopulation, Exact.check_positive positive, ok_bind, filled, if_neg Bool.false_ne_true, Exact.ofBodies_eq]
  exact ⟨_, rfl, Exact.isMeanVar _, Exact.isMeanVar _, Exact.isMeanVar _⟩

/-- The distribution of the clauses at some offsets: all zero if there are none, else with the means and variances
of the clauses, whatever the order of the offsets and the unit of activities. -/
structure Covers (d : Distribution (Exact r)) (store : ClauseStore (Exact r)) (offsets : List Nat)
    (increment : Exact r) : Prop where
  computed : ofListed store offsets increment = .ok d
  empty : offsets = [] → d = .zero
  measures : offsets ≠ [] → ∃ bodies, store.Lists offsets bodies ∧ d.Measures bodies increment
  perm : ∀ offsets', offsets.Perm offsets' → ofListed store offsets' increment = .ok d
  scale : ∀ q, 0 < q → ofListed (store.scale q) offsets (q * increment) = .ok d

theorem exists_covers (listed : store.Lists offsets bodies) (positive : 0 < increment) :
    ∃ d : Distribution (Exact r), d.Covers store offsets increment := by
  obtain ⟨d, computed, empty, measures⟩ : ∃ d, ofPopulation bodies increment = .ok d ∧
      (bodies = [] → d = .zero) ∧ (bodies ≠ [] → d.Measures bodies increment) := by
    by_cases empty : bodies = []
    · rw [empty]
      exact ⟨.zero, Exact.ofPopulation_nil positive, fun _ => rfl, fun some => absurd rfl some⟩
    · obtain ⟨d, computed, measures⟩ := ofPopulation_measures positive empty
      exact ⟨d, computed, fun none => absurd none empty, fun _ => measures⟩
  refine ⟨d, (ofListed_eq listed increment).trans computed, fun none => empty (listed.eq_nil_iff.mp none),
    fun some => ⟨bodies, listed, measures (mt listed.eq_nil_iff.mpr some)⟩, fun offsets' reordered => ?_,
    fun q hq => ?_⟩
  · obtain ⟨bodies', listed', perm⟩ := listed.perm reordered
    rw [ofListed_eq listed', ← Exact.ofPopulation_perm perm, computed]
  · have scaled : (store.scale q).Lists offsets (bodies.map (Clause.scale q)) := listed.map _
    rw [ofListed_eq scaled, Exact.ofPopulation_scale positive hq, computed]

/-- The mean size of long clauses is not below the least size of one. -/
theorem Covers.sizeMean_bound {d : Distribution (Exact r)} (h : d.Covers store offsets increment)
    (listed : store.Lists offsets bodies) (long : ∀ c ∈ bodies, 4 ≤ c.size) :
    (d.sizeMean = 0 ↔ offsets = []) ∧ (offsets ≠ [] → 4 ≤ d.sizeMean) := by
  have least (some : offsets ≠ []) : 4 ≤ d.sizeMean := by
    obtain ⟨bodies', listed', measures⟩ := h.measures some
    cases listed.unique listed'
    have filled : (bodies.map fun c => (c.size : Exact r)) ≠ [] :=
      mt List.map_eq_nil_iff.mp (mt listed.eq_nil_iff.mpr some)
    rw [measures.size.mean]
    refine Exact.le_mean filled fun x hx => ?_
    obtain ⟨c, hc, rfl⟩ := List.mem_map.mp hx
    exact_mod_cast long c hc
  refine ⟨⟨fun zero => ?_, fun none => ?_⟩, least⟩
  · by_contra some
    have := least some
    rw [zero] at this
    exact absurd this (by norm_num)
  · rw [h.empty none]
    rfl

end Distribution

namespace Database

variable [Quantity K] [IsStrictOrderedRing F]

/-- After every run, in exact arithmetic with any positive increment: all distributions of clauses that were
allocated, and those of the lists that the database keeps. -/
theorem distributions_run (vars : Nat) (calls : List (Call K)) (read : K → Exact r) {increment : Exact r}
    (positive : 0 < increment) :
    let db := ((empty vars).run calls).convert read
    (∀ offsets : List Nat, (∀ o ∈ offsets, o < db.store.size) →
      ∃ d : Distribution (Exact r), d.Covers db.store offsets increment) ∧
    (∀ (x : Exact r) (xs : List (Exact r)), Distribution.meanVar x xs = Distribution.twoPass (x :: xs)) ∧
    ∀ offsets ∈ db.longIrred :: db.longRed, ∃ d, Distribution.ofOffsets db.store offsets increment = .ok d ∧
      (d.sizeMean = 0 ↔ offsets = []) ∧ (offsets ≠ [] → 4 ≤ d.sizeMean) := by
  intro db
  refine ⟨fun offsets allocated => ?_, Exact.meanVar_eq_twoPass, fun offsets own => ?_⟩
  · obtain ⟨bodies, listed⟩ := ClauseStore.exists_lists allocated
    exact Distribution.exists_covers listed positive
  · obtain ⟨ns, bodies, rfl, listed, long⟩ := (built_run vars calls).listed own
    have converted : db.store.Lists ns (bodies.map (Clause.convert read)) := listed.map _
    obtain ⟨d, covers⟩ := Distribution.exists_covers converted positive
    obtain ⟨zero, least⟩ := covers.sizeMean_bound converted (List.forall_mem_map.mpr long)
    rw [List.map_eq_nil_iff, ne_eq, List.map_eq_nil_iff]
    exact ⟨d, covers.computed, zero, least⟩

/-- Two redundant clauses, listed in the other order: sizes four and six, and activities one and three in units
of two. -/
theorem distributions_run_pair :
    let r : Reading Rat := { root := fun a => a, top := 0, bottom := 0, text := fun _ => "" }
    let calls : List (Call (Exact r)) :=
      [.addClause { lits := [⟨0⟩, ⟨2⟩, ⟨4⟩, ⟨6⟩], red := true, glue := .int 1, activity := 2 },
        .addClause { lits := [⟨0⟩, ⟨2⟩, ⟨4⟩, ⟨6⟩, ⟨8⟩, ⟨10⟩], red := true, glue := .int 3, activity := 6 }]
    let db := ((empty 6).run calls).convert id
    ∃ d : Distribution (Exact r), Distribution.ofListed db.store [1, 0] 2 = .ok d ∧
      d.sizeMean = 5 ∧ d.sizeVar = 1 ∧ d.activityMean = 2 ∧ d.activityVar = 1 := by
  intro r calls db
  have positive : (0 : Exact r) < 2 := by norm_num
  obtain ⟨all, -, -⟩ := distributions_run 6 calls id positive
  obtain ⟨d, covers⟩ := all [1, 0] (by decide +kernel)
  obtain ⟨bodies, listed, measures⟩ := covers.measures (by decide)
  have stored : db.store.Lists [1, 0]
      [⟨[⟨0⟩, ⟨2⟩, ⟨4⟩, ⟨6⟩, ⟨8⟩, ⟨10⟩], true, 3, 6⟩,
        ⟨[⟨0⟩, ⟨2⟩, ⟨4⟩, ⟨6⟩], true, 1, 2⟩] := by
    refine .cons ?_ (.cons ?_ .nil)
    · decide +kernel
    · decide +kernel
  cases listed.unique stored
  have sizeMean : d.sizeMean = 5 := by
    rw [measures.size.mean]
    norm_num [Clause.size]
  have activityMean : d.activityMean = 2 := by
    rw [measures.activity.mean]
    norm_num
  refine ⟨d, covers.computed, sizeMean, ?_, activityMean, ?_⟩
  · rw [measures.size.variance, sizeMean]
    norm_num [Clause.size]
  · rw [measures.activity.variance, activityMean]
    norm_num

end Database

end ClauseFeatures
