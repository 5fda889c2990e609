import ClauseFeatures.Proofs.Marker

/-!
The store and the lists of offsets. In a run whose tiers are indices every stored clause is listed once, by
redundancy and tier; bodies and watch entries keep their form, and what is stored at an offset stays there,
so no lookup through the database's own lists and entries fails.
-/
namespace ClauseFeatures

variable {K : Type}

/-- Lists of offsets as numbers that partition the store of a database: the irredundant clauses in one
list, the redundant ones in those of the tiers. -/
structure Database.Partition (db : Database K) (irred : List Nat) (red : List (List Nat)) : Prop where
  irredListed : db.longIrred = irred.map fun o => .int o
  redListed : db.longRed = red.map fun offsets => offsets.map fun o => .int o
  ascending : ∀ offsets ∈ irred :: red, offsets.Pairwise (· < ·)
  disjoint : (irred :: red).Pairwise List.Disjoint
  covered : ∀ o, o < db.store.size ↔ ∃ offsets ∈ irred :: red, o ∈ offsets
  irredundant : ∀ o ∈ irred, ∃ c, db.store.get (.int o) = .ok c ∧ c.red = false
  redundant : ∀ offsets ∈ red, ∀ o ∈ offsets, ∃ c, db.store.get (.int o) = .ok c ∧ c.red = true

/-- A database whose stored bodies are long clauses over its variables, and whose watch entries of long
clauses name such bodies, in the lists of their first two literals. -/
structure Database.Watches (db : Database K) : Prop where
  bodies : ∀ o : Nat, o < db.store.size → ∃ c, db.store.get (.int o) = .ok c ∧
    IsClause c.lits db.vars ∧ 4 ≤ c.lits.length
  entries : ∀ (x : Literal) (entries : List Watch), db.watches.get x = .ok entries →
    ∀ w ∈ entries, ∀ offset, w.body = .long offset → ∃ (o : Nat) (c : Clause K), offset = .int o ∧
      db.store.get offset = .ok c ∧ (c.lits[0]? = some x ∨ c.lits[1]? = some x)

/-! Offsets of effects. -/

namespace Effect

def irredOffsets (es : List (Effect K)) : List Nat := (es.filterMap irredLong?).map Prod.snd

def tierOffsets (es : List (Effect K)) (t : Nat) : List Nat := (es.filterMap (tierLong? t)).map Prod.snd

theorem mem_irredOffsets {es : List (Effect K)} {o : Nat} :
    o ∈ irredOffsets es ↔ ∃ c tier, .long c o tier ∈ es ∧ c.red = false := by
  simp only [irredOffsets, List.mem_map, List.mem_filterMap]
  constructor
  · rintro ⟨⟨c, _⟩, ⟨e, he, hp⟩, rfl⟩
    obtain ⟨tier, rfl⟩ := eq_long_of_irredLong hp
    refine ⟨c, tier, he, ?_⟩
    simp only [irredLong?] at hp
    split at hp
    · cases hp
    · simpa using ‹¬ c.red = true›
  · rintro ⟨c, tier, he, hr⟩
    exact ⟨(c, o), ⟨_, he, by simp [irredLong?, hr]⟩, rfl⟩

theorem mem_tierOffsets {es : List (Effect K)} {t o : Nat} :
    o ∈ tierOffsets es t ↔ ∃ c, .long c o (some t) ∈ es := by
  simp only [tierOffsets, List.mem_map, List.mem_filterMap]
  constructor
  · rintro ⟨⟨c, _⟩, ⟨e, he, hp⟩, rfl⟩
    obtain ⟨tier, rfl⟩ := eq_long_of_tierLong hp
    simp only [tierLong?] at hp
    split at hp
    · rename_i ht
      exact ⟨c, ht ▸ he⟩
    · cases hp
  · rintro ⟨c, he⟩
    exact ⟨(c, o), ⟨_, he, by simp [tierLong?]⟩, rfl⟩

/-- The entry of a long clause names its offset, from the list of one of its first two literals. -/
theorem long_of_placement {vars : Nat} {e : Effect K} (fits : e.Fits vars) {p : Literal × Watch}
    (hp : p ∈ e.placements) {offset : Value} (body : p.2.body = .long offset) :
    ∃ c o tier, e = .long c o tier ∧ offset = .int (o : Nat) ∧
      (c.lits[0]? = some p.1 ∨ c.lits[1]? = some p.1) := by
  cases e with
  | grow _ | scale _ => cases hp
  | mark l index =>
      cases List.mem_singleton.mp hp
      cases body
  | inline lits red =>
      simp only [Effect.placements, placementsOf] at hp
      split at hp <;> simp only [List.mem_cons, List.not_mem_nil, or_false] at hp
      · rcases hp with rfl | rfl <;> cases body
      · rcases hp with rfl | rfl | rfl <;> cases body
      · cases ‹none = some _›
  | long c o tier =>
      refine ⟨c, o, tier, rfl, ?_⟩
      have long := fits.2
      obtain ⟨lits, red, glue, activity⟩ := c
      simp only [Effect.placements, placementsOf] at hp
      split at hp <;> simp only [List.mem_cons, List.not_mem_nil, or_false] at hp
      · simp at long
      · simp at long
      · rename_i index
        cases index
        rcases hp with rfl | rfl <;> cases body
        · exact ⟨rfl, .inl rfl⟩
        · exact ⟨rfl, .inr rfl⟩

end Effect

namespace Built

open Effect

variable [Quantity K] {vars : Nat} {es : List (Effect K)} {db : Database K}

theorem lt_size (h : Built vars es db) {c : Clause K} {o : Nat} {tier : Option Nat}
    (he : .long c o tier ∈ es) : o < db.store.size :=
  (Array.getElem?_eq_some_iff.mp (h.store_get he)).1

/-- Later effects store at greater offsets. -/
theorem offsets_ascend (h : Built vars es db) :
    es.Pairwise fun d e => ∀ p q, d.long? = some p → e.long? = some q → p.2 < q.2 := by
  induction h with
  | empty => exact .nil
  | @effect es db e h he ih =>
      refine List.pairwise_append.mpr ⟨ih, List.pairwise_singleton _ _, ?_⟩
      rintro d hd f hf ⟨c, o⟩ ⟨c', o'⟩ hp hq
      cases List.mem_singleton.mp hf
      cases d with
      | grow _ | scale _ | mark _ _ | inline _ _ => cases hp
      | long _ _ tier =>
          cases hp
          cases e with
          | grow _ | scale _ | mark _ _ | inline _ _ => cases hq
          | long _ _ _ =>
              cases hq
              rw [he.offset _ _ _ rfl]
              exact h.lt_size hd

/-- An offset is listed in one tier at most. -/
theorem tier_unique (h : Built vars es db) {c c' : Clause K} {o : Nat} {tier tier' : Option Nat}
    (he : .long c o tier ∈ es) (he' : .long c' o tier' ∈ es) : tier = tier' := by
  induction h with
  | empty => cases he
  | @effect es db e h new ih =>
      rcases List.mem_append.mp he with old | last <;> rcases List.mem_append.mp he' with old' | last'
      · exact ih old old'
      · cases List.mem_singleton.mp last'
        have := h.lt_size old
        rw [new.offset _ _ _ rfl] at this
        exact absurd this (Nat.lt_irrefl _)
      · cases List.mem_singleton.mp last
        have := h.lt_size old'
        rw [new.offset _ _ _ rfl] at this
        exact absurd this (Nat.lt_irrefl _)
      · cases List.mem_singleton.mp last
        cases List.mem_singleton.mp last'
        rfl

theorem of_tier (h : Built vars es db) {c : Clause K} {o t : Nat} (he : .long c o (some t) ∈ es) :
    c.red = true ∧ t < tierCount := by
  induction h with
  | empty => cases he
  | effect _ new ih =>
      rcases List.mem_append.mp he with old | last
      · exact ih old
      · cases List.mem_singleton.mp last
        exact new.tier _ _ _ rfl

theorem exists_long (h : Built vars es db) {o : Nat} (ho : o < db.store.size) :
    ∃ c tier, .long c o tier ∈ es := by
  have stored : (db.store.bodies[o], o) ∈ db.store.bodies.toList.zipIdx := by
    rw [List.mk_mem_zipIdx_iff_getElem?, Array.getElem?_toList]
    exact Array.getElem?_eq_getElem ho
  rw [h.store_eq] at stored
  obtain ⟨e, he, hp⟩ := List.mem_filterMap.mp stored
  cases e with
  | grow _ | scale _ | mark _ _ | inline _ _ => cases hp
  | long c _ tier =>
      cases hp
      exact ⟨_, tier, he⟩

private theorem ascending_of (h : Built vars es db) {f : Effect K → Option (Clause K × Nat)}
    (hf : ∀ e p, f e = some p → e.long? = some p) :
    ((es.filterMap f).map Prod.snd).Pairwise (· < ·) := by
  rw [List.pairwise_map, List.pairwise_filterMap]
  refine h.offsets_ascend.imp ?_
  intro d e ascend p hp q hq
  exact ascend p q (hf d p hp) (hf e q hq)

theorem get_long (h : Built vars es db) {c : Clause K} {o : Nat} {tier : Option Nat}
    (he : .long c o tier ∈ es) : db.store.get (.int o) = .ok c :=
  ClauseStore.get_eq_ok (h.store_get he)

/-- The lists of offsets as numbers: that of the irredundant clauses, and one for each tier. -/
private theorem listed_eq (h : Built vars es db) :
    db.longIrred = (irredOffsets es).map (fun o => .int o) ∧
      db.longRed = ((List.range tierCount).map (tierOffsets es)).map fun offsets => offsets.map fun o => .int o := by
  refine ⟨?_, List.ext_getElem? fun t => ?_⟩
  · rw [h.longIrred_eq, irredOffsets, List.map_map]
    rfl
  · by_cases ht : t < tierCount
    · rw [h.longRed_eq ht, List.getElem?_map, List.getElem?_map, List.getElem?_range ht,
        Option.map_some, Option.map_some, tierOffsets, List.map_map]
      rfl
    · have outside := Nat.le_of_not_lt ht
      rw [List.getElem?_eq_none (h.shaped.tiers ▸ outside), List.getElem?_eq_none (by simpa using outside)]

private theorem offsets_ascending (h : Built vars es db) :
    ∀ offsets ∈ irredOffsets es :: (List.range tierCount).map (tierOffsets es), offsets.Pairwise (· < ·) := by
  refine List.forall_mem_cons.mpr ⟨?_, List.forall_mem_map.mpr fun t _ => ?_⟩
  · exact h.ascending_of fun e p hp => by
      obtain ⟨tier, rfl⟩ := eq_long_of_irredLong hp
      rfl
  · exact h.ascending_of fun e p hp => by
      obtain ⟨tier, rfl⟩ := eq_long_of_tierLong hp
      rfl

/-- Redundancy tells the first list from the tiers, and a clause is in one tier only. -/
private theorem offsets_disjoint (h : Built vars es db) :
    (irredOffsets es :: (List.range tierCount).map (tierOffsets es)).Pairwise List.Disjoint := by
  refine List.pairwise_cons.mpr ⟨List.forall_mem_map.mpr fun t _ o hi ht => ?_, ?_⟩
  · obtain ⟨c, tier, he, hr⟩ := mem_irredOffsets.mp hi
    obtain ⟨c', he'⟩ := mem_tierOffsets.mp ht
    have same : c = c' := Except.ok.inj ((h.get_long he).symm.trans (h.get_long he'))
    rw [same, (h.of_tier he').1] at hr
    cases hr
  · refine List.pairwise_map.mpr (List.pairwise_lt_range.imp ?_)
    intro t u htu o ht hu
    obtain ⟨c, he⟩ := mem_tierOffsets.mp ht
    obtain ⟨c', he'⟩ := mem_tierOffsets.mp hu
    exact Nat.ne_of_lt htu (Option.some.inj (h.tier_unique he he'))

/-- What is stored without being stranded is listed, and only what is stored is. -/
private theorem offsets_covered (h : Built vars es db) (listed : ∀ e ∈ es, e.isStranded = false) (o : Nat) :
    o < db.store.size ↔ ∃ offsets ∈ irredOffsets es :: (List.range tierCount).map (tierOffsets es), o ∈ offsets := by
  constructor
  · intro ho
    obtain ⟨c, tier, he⟩ := h.exists_long ho
    cases tier with
    | some t =>
        refine ⟨tierOffsets es t, List.mem_cons_of_mem _ (List.mem_map_of_mem ?_), mem_tierOffsets.mpr ⟨c, he⟩⟩
        exact List.mem_range.mpr (h.of_tier he).2
    | none => exact ⟨_, List.mem_cons_self, mem_irredOffsets.mpr ⟨c, none, he, listed _ he⟩⟩
  · rintro ⟨offsets, ho, hm⟩
    rcases List.mem_cons.mp ho with rfl | ho
    · obtain ⟨c, tier, he, -⟩ := mem_irredOffsets.mp hm
      exact h.lt_size he
    · obtain ⟨t, -, rfl⟩ := List.mem_map.mp ho
      obtain ⟨c, he⟩ := mem_tierOffsets.mp hm
      exact h.lt_size he

/-- The lists hold the offsets of effects; if no effect is stranded, they hold all of them. -/
theorem partition (h : Built vars es db) (listed : ∀ e ∈ es, e.isStranded = false) :
    db.Partition (irredOffsets es) ((List.range tierCount).map (tierOffsets es)) where
  irredListed := h.listed_eq.1
  redListed := h.listed_eq.2
  ascending := h.offsets_ascending
  disjoint := h.offsets_disjoint
  covered := h.offsets_covered listed
  irredundant := by
    intro o ho
    obtain ⟨c, tier, he, hr⟩ := mem_irredOffsets.mp ho
    exact ⟨c, h.get_long he, hr⟩
  redundant := by
    refine List.forall_mem_map.mpr fun t _ o hm => ?_
    obtain ⟨c, he⟩ := mem_tierOffsets.mp hm
    exact ⟨c, h.get_long he, (h.of_tier he).1⟩

theorem watches (h : Built vars es db) : db.Watches := by
  refine ⟨?_, ?_⟩
  · intro o ho
    obtain ⟨c, tier, he⟩ := h.exists_long ho
    exact ⟨c, h.get_long he, h.fits _ he⟩
  · intro x entries get w hw offset body
    obtain ⟨e, he, hp⟩ := h.exists_placed get hw
    obtain ⟨c, o, tier, rfl, rfl, position⟩ := long_of_placement (h.fits e he) hp body
    exact ⟨o, c, rfl, h.get_long he, position⟩

end Built

/-! What stays at an offset. -/

namespace Database

variable {vars : Nat} {es : List (Effect K)} {db : Database K}

theorem store_apply {c : Clause K} {o : Nat} (h : db.store.bodies[o]? = some c) (e : Effect K) :
    (db.apply e).store.bodies[o]? = some c := by
  cases e with
  | grow _ | scale _ | mark _ _ | inline _ _ => exact h
  | long d _ _ =>
      have inside := (Array.getElem?_eq_some_iff.mp h).1
      have kept := Array.getElem?_push_lt (x := d) inside
      rwa [(Array.getElem?_eq_some_iff.mp h).2] at kept

theorem answer_of_planLong {c : Clause K} {tier : Value} {o : Nat}
    (h : (db.planLong c tier).2 = .ok (some o)) :
    ∃ t, db.planLong c tier = (some (.long c db.store.size t), .ok (some o)) ∧ o = db.store.size := by
  unfold planLong at h ⊢
  cases hr : c.red with
  | false =>
      simp only [hr, Bool.false_eq_true, ite_false] at h ⊢
      cases h
      exact ⟨none, rfl, rfl⟩
  | true =>
      simp only [hr, ite_true] at h ⊢
      generalize checkTier tier = checked at h ⊢
      generalize tier.number?.bind Number.int? = index at h ⊢
      cases checked with
      | error e => cases h
      | ok _ =>
          cases index with
          | none => cases h
          | some t =>
              cases h
              exact ⟨some t.toNat, rfl, rfl⟩

/-- A plan for a long clause stores this clause, if anything. -/
theorem long_of_planLong {c : Clause K} {tier : Value} {e : Effect K}
    (h : (db.planLong c tier).1 = some e) : ∃ o t, e = .long c o t := by
  unfold planLong at h
  split at h
  · split at h <;> cases h <;> exact ⟨_, _, rfl⟩
  · cases h
    exact ⟨_, _, rfl⟩

variable [Quantity K]

/-- No call moves or changes a stored clause. -/
theorem store_call (hs : db.Shaped) {c : Clause K} {o : Nat} (h : db.store.bodies[o]? = some c)
    (call : Call K) : (db.call call).1.store.bodies[o]? = some c := by
  rw [call_eq hs, carryOut]
  cases (db.plan call).1 with
  | none => exact h
  | some e => exact store_apply h e

theorem store_run (built : Built vars es db) {c : Clause K} {o : Nat}
    (h : db.store.bodies[o]? = some c) (calls : List (Call K)) :
    (db.run calls).store.bodies[o]? = some c := by
  induction calls generalizing es db with
  | nil => exact h
  | cons call calls ih => exact ih (built_call built call) (store_call built.shaped h call)

/-- A clause that is answered with an offset is stored there as it was given. -/
theorem stored_of_answer (hs : db.Shaped) {p : Proposal K} {o : Nat}
    (h : (db.call (.addClause p)).2 = .ok (some o)) :
    ∃ glue : Nat, p.glue = .int glue ∧ (db.call (.addClause p)).1.store.bodies[o]? =
      some ⟨p.lits, p.red, Quantity.ofInt glue, p.activity⟩ := by
  rw [call_eq hs] at h ⊢
  simp only [carryOut, plan] at h ⊢
  cases checked : db.check p with
  | error e =>
      rw [checked] at h
      cases h
  | ok c =>
      obtain ⟨-, -, glue, given, rfl⟩ := check_eq_ok.mp checked
      simp only [checked] at h ⊢
      split at h
      · cases h
      · rename_i long
        obtain ⟨t, planned, rfl⟩ := answer_of_planLong h
        rw [if_neg long, planned]
        exact ⟨glue, given, Array.getElem?_push_size⟩

/-- After every run whose tiers are indices the lists of offsets partition the store, bodies and entries
keep their form, and what was answered with an offset is still there; neither a scan nor the summary of one
of the lists meets an offset that was never allocated. -/
theorem partition_run (vars : Nat) (calls : List (Call Value))
    (typed : ∀ c ∈ calls, c.isTyped = true) :
    let db := (empty vars).run calls
    (∃ irred red, db.Partition irred red) ∧ db.Watches ∧
      (∀ before p after, calls = before ++ .addClause p :: after → ∀ o : Nat,
        (((empty vars).run before).call (.addClause p)).2 = .ok (some o) →
          ∃ glue : Nat, p.glue = .int glue ∧
            db.store.get (.int o) = .ok ⟨p.lits, p.red, .int glue, p.activity⟩) ∧
      ∀ shown, db.traversal.failure ≠ some (.unallocated shown) ∧
        ∀ offsets ∈ db.longIrred :: db.longRed, ∀ increment,
          Distribution.ofOffsets db.store offsets increment ≠ .error (.unallocated shown) := by
  intro db
  have built : Built vars ((empty vars).effects calls) db := built_run vars calls
  refine ⟨⟨_, _, built.partition (isStranded_of_isTyped typed)⟩, built.watches, ?_, ?_⟩
  · rintro before p after rfl o answered
    have reached := built_run vars before
    obtain ⟨glue, given, stored⟩ := stored_of_answer reached.shaped answered
    refine ⟨glue, given, ClauseStore.get_eq_ok ?_⟩
    rw [show db = _ from run_append (empty vars) before (.addClause p :: after)]
    exact store_run (built_call reached _) stored after
  · intro shown
    refine ⟨?_, ?_⟩
    · rw [built.stopsAt.traversal]
      intro failed
      obtain ⟨m, -, hm⟩ := Option.map_eq_some_iff.mp failed
      -- A failure at a marker is a breach of the contract or the want of a text.
      have kind := Failure.kind_atMarker m
      rw [hm] at kind
      split at kind <;> cases kind
    · intro offsets ho increment failed
      cases built.ofOffsets_fails (Value.computes .null) ho increment _ failed

/-- Long clauses of both sorts in two tiers, with a refused clause, a new variable and a marker between. -/
theorem partition_run_tiers :
    let calls : List (Call Value) :=
      [.addClause { lits := [⟨0⟩, ⟨2⟩, ⟨4⟩, ⟨7⟩], red := true, activity := .int 3, tier := .int 2 },
        .addClause { lits := [⟨0⟩, ⟨2⟩, ⟨4⟩, ⟨8⟩], activity := .int 0 }, .newVar,
        .addClause { lits := [⟨9⟩, ⟨2⟩, ⟨4⟩, ⟨0⟩], glue := .int 5, activity := .int 0 },
        .addMarker ⟨2⟩ (.int 1),
        .addClause { lits := [⟨0⟩, ⟨3⟩, ⟨4⟩, ⟨7⟩], red := true, activity := .int 0 }]
    (∀ c ∈ calls, c.isTyped = true) ∧
      (∃ irred red, ((empty 4).run calls).Partition irred red) ∧
      ((empty 4).run calls).store.get (.int (1 : Nat)) =
        .ok ⟨[⟨9⟩, ⟨2⟩, ⟨4⟩, ⟨0⟩], false, .int (5 : Nat), .int 0⟩ := by
  intro calls
  have typed : ∀ c ∈ calls, c.isTyped = true := by decide
  obtain ⟨partition, -, stable, -⟩ := partition_run 4 calls typed
  refine ⟨typed, partition, ?_⟩
  obtain ⟨glue, given, stored⟩ := stable (calls.take 3) _ (calls.drop 4) rfl 1 (by decide +kernel)
  cases given
  exact stored

end Database

end ClauseFeatures
