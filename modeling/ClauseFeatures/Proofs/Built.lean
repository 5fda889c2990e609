import ClauseFeatures.Proofs.Effect

/-!
Databases as built from the empty one by effects, and what each of their parts holds after a list of
effects: variables, watch lists, the store, the lists of offsets, the counters and the increment. Every
run of calls builds its database in this way.
-/
namespace ClauseFeatures

variable {K : Type}

/-- The offset of a position in the store and the clause there. -/
def Effect.long? : Effect K → Option (Clause K × Nat)
  | long c offset _ => some (c, offset)
  | _ => none

namespace Effect

def grown (vars : Nat) : Effect K → Nat
  | grow n => vars + n
  | _ => vars

def scaled (x : K) : Effect K → K
  | scale y => y
  | _ => x

def isInline (size : Nat) (red : Bool) : Effect K → Bool
  | inline lits r => lits.length == size && r == red
  | _ => false

def irredLong? : Effect K → Option (Clause K × Nat)
  | long c offset _ => if c.red then none else some (c, offset)
  | _ => none

/-- The long clause that an effect lists in a tier and its offset. -/
def tierLong? (tier : Nat) : Effect K → Option (Clause K × Nat)
  | long c offset t => if t = some tier then some (c, offset) else none
  | _ => none

theorem eq_long_of_irredLong {e : Effect K} {p : Clause K × Nat} (h : e.irredLong? = some p) :
    ∃ tier, e = long p.1 p.2 tier := by
  cases e with
  | grow _ | scale _ | mark _ _ | inline _ _ => cases h
  | long c offset tier =>
      simp only [irredLong?] at h
      split at h
      · cases h
      · cases h
        exact ⟨tier, rfl⟩

theorem eq_long_of_tierLong {t : Nat} {e : Effect K} {p : Clause K × Nat}
    (h : e.tierLong? t = some p) : ∃ tier, e = long p.1 p.2 tier := by
  cases e with
  | grow _ | scale _ | mark _ _ | inline _ _ => cases h
  | long c offset tier =>
      simp only [tierLong?] at h
      split at h
      · cases h
        exact ⟨tier, rfl⟩
      · cases h

theorem Fits.mono {vars more : Nat} (h : vars ≤ more) {e : Effect K} (he : e.Fits vars) :
    e.Fits more := by
  cases e with
  | grow _ | scale _ => trivial
  | mark l _ => exact Nat.lt_of_lt_of_le he h
  | inline lits _ | long c _ _ => exact ⟨he.1.mono h, he.2⟩

end Effect

theorem mem_of_mem_placementsOf {lits : List Literal} {red : Bool} {offset : Option Nat}
    {p : Literal × Watch} (h : p ∈ placementsOf lits red offset) : p.1 ∈ lits := by
  unfold placementsOf at h
  split at h <;> simp only [List.mem_cons, List.not_mem_nil, or_false] at h
  · rcases h with rfl | rfl <;> simp
  · rcases h with rfl | rfl | rfl <;> simp
  · rcases h with rfl | rfl <;> simp

theorem Effect.Fits.code_lt {vars : Nat} {e : Effect K} (h : e.Fits vars) {p : Literal × Watch}
    (hp : p ∈ e.placements) : p.1.code < 2 * vars := by
  rw [Literal.code_lt_iff_var]
  cases e with
  | grow _ | scale _ => cases hp
  | mark l _ =>
      cases List.mem_singleton.mp hp
      exact h
  | inline lits _ | long c _ _ => exact h.1.existing _ (mem_of_mem_placementsOf hp)

section Built

variable [Quantity K]

/-- Databases built from the empty one over a number of variables, with the effects that built them. -/
inductive Built (vars : Nat) : List (Effect K) → Database K → Prop
  | empty : Built vars [] (.empty vars)
  | effect {es : List (Effect K)} {db : Database K} {e : Effect K} (h : Built vars es db)
      (he : e.Sound db) : Built vars (es ++ [e]) (db.apply e)

namespace Built

variable {vars : Nat} {es : List (Effect K)} {db : Database K}

theorem vars_eq (h : Built vars es db) : db.vars = es.foldl Effect.grown vars := by
  induction h with
  | empty => rfl
  | @effect es db e _ _ ih =>
      rw [List.foldl_append, ← ih]
      cases e <;> rfl

theorem increment_eq (h : Built vars es db) :
    db.increment = es.foldl Effect.scaled Quantity.one := by
  induction h with
  | empty => rfl
  | @effect es db e _ _ ih =>
      rw [List.foldl_append, ← ih]
      cases e <;> rfl

theorem fits (h : Built vars es db) : ∀ e ∈ es, e.Fits db.vars := by
  induction h with
  | empty => exact fun _ he => absurd he List.not_mem_nil
  | @effect es db e _ he ih =>
      have grows : db.vars ≤ (db.apply e).vars := by
        cases e with
        | grow n => exact Nat.le_add_right _ _
        | scale _ | mark _ _ | inline _ _ | long _ _ _ => exact Nat.le_refl _
      intro d hd
      rcases List.mem_append.mp hd with hd | hd
      · exact (ih d hd).mono grows
      · cases List.mem_singleton.mp hd
        exact he.fits.mono grows

theorem shaped (h : Built vars es db) : db.Shaped := by
  induction h with
  | empty => exact ⟨Array.size_replicate, rfl⟩
  | @effect es db e _ _ ih =>
      cases e with
      | grow n =>
          refine ⟨?_, ih.tiers⟩
          have := ih.watches
          simp only [WatchLists.size] at this
          simp only [Database.apply, Database.grow, WatchLists.size, WatchLists.resize,
            WatchLists.extend, Array.size_append, Array.size_replicate, this]
          omega
      | scale x => exact ⟨ih.watches, ih.tiers⟩
      | mark l index | inline lits red =>
          exact ⟨(WatchLists.size_place _ _).trans ih.watches, ih.tiers⟩
      | long c offset tier =>
          refine ⟨(WatchLists.size_place _ _).trans ih.watches, ?_⟩
          cases tier with
          | none => exact ih.tiers
          | some t => exact (List.length_modify _ _ _).trans ih.tiers

theorem inline_eq (h : Built vars es db) :
    db.inline = ⟨es.countP (Effect.isInline 2 false), es.countP (Effect.isInline 3 false),
      es.countP (Effect.isInline 2 true), es.countP (Effect.isInline 3 true)⟩ := by
  induction h with
  | empty => rfl
  | @effect es db e _ he ih =>
      simp only [List.countP_append, List.countP_singleton]
      cases e with
      | grow _ | scale _ | mark _ _ | long _ _ _ =>
          simpa [Effect.isInline, Database.apply, Database.grow] using ih
      | inline lits red =>
          have hl := he.fits.1.size_of_short he.fits.2
          change Database.countInline db.inline lits red = _
          rw [ih]
          rcases hl with hl | hl <;> cases red <;>
            simp [Database.countInline, Database.countBinary, Database.countTernary,
              Effect.isInline, hl]

/-- The store holds the long clauses in order, each at its offset. -/
theorem store_eq (h : Built vars es db) :
    db.store.bodies.toList.zipIdx = es.filterMap Effect.long? := by
  induction h with
  | empty => rfl
  | @effect es db e _ he ih =>
      rw [List.filterMap_append, ← ih]
      cases e with
      | grow _ | scale _ | mark _ _ | inline _ _ => exact (List.append_nil _).symm
      | long c offset tier =>
          cases he.offset c offset tier rfl
          simp [Database.apply, ClauseStore.push, ClauseStore.size, Effect.long?,
            List.zipIdx_append]

theorem longIrred_eq (h : Built vars es db) :
    db.longIrred = (es.filterMap Effect.irredLong?).map fun p => .int p.2 := by
  induction h with
  | empty => rfl
  | @effect es db e _ _ ih =>
      rw [List.filterMap_append, List.map_append, ← ih]
      cases e with
      | grow _ | scale _ | mark _ _ | inline _ _ => exact (List.append_nil _).symm
      | long c offset tier => cases hr : c.red <;> simp [Database.apply, Effect.irredLong?, hr]

theorem longRed_eq (h : Built vars es db) {t : Nat} (ht : t < tierCount) :
    db.longRed[t]? = some ((es.filterMap (Effect.tierLong? t)).map fun p => .int p.2) := by
  induction h with
  | empty => simp [Database.empty, ht]
  | @effect es db e _ _ ih =>
      rw [List.filterMap_append, List.map_append]
      cases e with
      | grow _ | scale _ | mark _ _ | inline _ _ => exact ih.trans (congrArg some (List.append_nil _).symm)
      | long c offset tier =>
          cases tier with
          | none => simpa [Database.apply, Effect.tierLong?] using ih
          | some s =>
              by_cases hs : s = t <;>
                simp [Database.apply, Effect.tierLong?, ih, hs]

/-- The list of a literal holds what the effects placed there, in their order. -/
theorem get_eq (h : Built vars es db) {x : Literal} (hx : x.code < 2 * db.vars) :
    db.watches.get x = .ok (entriesAt x (es.flatMap Effect.placements)) := by
  induction h with
  | empty => exact WatchLists.get_ofVars hx
  | @effect es db e h he ih =>
      rw [List.flatMap_append, List.flatMap_singleton, entriesAt_append]
      cases e with
      | grow n =>
          by_cases old : x.code < 2 * db.vars
          · rw [← h.shaped.watches] at old
            simpa [Database.apply, Database.grow, Effect.placements, WatchLists.get_resize_old old]
              using ih (h.shaped.watches ▸ old)
          · -- A new list is empty, and nothing was placed before its literal existed.
            have placed : entriesAt x (es.flatMap Effect.placements) = [] := by
              apply entriesAt_eq_nil
              intro p hp
              obtain ⟨e, he, hp⟩ := List.mem_flatMap.mp hp
              have := (h.fits e he).code_lt hp
              rintro rfl
              exact old this
            rw [placed]
            rw [← h.shaped.watches] at old
            exact WatchLists.get_resize_new old hx
      | scale y =>
          rw [show Effect.placements (.scale y : Effect K) = [] from rfl, entriesAt_nil,
            List.append_nil]
          exact ih hx
      | mark l index => exact WatchLists.get_place (ih hx) _
      | inline lits red => exact WatchLists.get_place (ih hx) _
      | long c offset tier => exact WatchLists.get_place (ih hx) _

/-- What lies in a list was placed there by one of the effects. -/
theorem exists_placed (h : Built vars es db) {x : Literal} {entries : List Watch}
    (get : db.watches.get x = .ok entries) {w : Watch} (hw : w ∈ entries) : ∃ e ∈ es, (x, w) ∈ e.placements := by
  have inside : x.code < 2 * db.vars := by
    rw [← h.shaped.watches]
    exact (Array.getElem?_eq_some_iff.mp (WatchLists.get_eq_ok_iff.mp get)).1
  rw [h.get_eq inside] at get
  cases get
  obtain ⟨p, kept, rfl⟩ := List.mem_map.mp hw
  obtain ⟨hp, owner⟩ := List.mem_filter.mp kept
  obtain rfl : p.1 = x := of_decide_eq_true owner
  exact List.mem_flatMap.mp hp

theorem store_get (h : Built vars es db) {c : Clause K} {offset : Nat} {tier : Option Nat}
    (he : .long c offset tier ∈ es) : db.store.bodies[offset]? = some c := by
  have : (c, offset) ∈ es.filterMap Effect.long? :=
    List.mem_filterMap.mpr ⟨.long c offset tier, he, rfl⟩
  rw [← h.store_eq, List.mk_mem_zipIdx_iff_getElem?, Array.getElem?_toList] at this
  exact this

theorem stored (h : Built vars es db) {f : Effect K → Option (Clause K × Nat)}
    (hf : ∀ e p, f e = some p → ∃ tier, e = .long p.1 p.2 tier) :
    ∀ p ∈ es.filterMap f, db.store.bodies[p.2]? = some p.1 := by
  intro p hp
  obtain ⟨e, he, hp⟩ := List.mem_filterMap.mp hp
  obtain ⟨tier, rfl⟩ := hf e p hp
  exact h.store_get he

end Built

/-! Runs. -/

namespace Database

def effects (db : Database K) : List (Call K) → List (Effect K)
  | [] => []
  | c :: cs => (db.plan c).1.toList ++ (db.call c).1.effects cs

variable {vars : Nat} {es : List (Effect K)} {db : Database K}

theorem built_call (h : Built vars es db) (c : Call K) :
    Built vars (es ++ (db.plan c).1.toList) (db.call c).1 := by
  rw [call_eq h.shaped c]
  cases hp : (db.plan c).1 with
  | none => simpa only [carryOut, hp, Option.elim_none, Option.toList_none, List.append_nil] using h
  | some e =>
      simp only [carryOut, hp, Option.elim_some, Option.toList_some]
      exact h.effect (sound_of_plan hp)

theorem built_run_from (h : Built vars es db) (cs : List (Call K)) :
    Built vars (es ++ db.effects cs) (db.run cs) := by
  induction cs generalizing es db with
  | nil => simpa only [effects, run, List.append_nil] using h
  | cons c cs ih =>
      have := ih (built_call h c)
      rwa [List.append_assoc] at this

/-- The database after a run is built by the effects of the run. -/
theorem built_run (vars : Nat) (cs : List (Call K)) :
    Built vars ((empty vars : Database K).effects cs) ((empty vars).run cs) :=
  built_run_from .empty cs

end Database

end Built

end ClauseFeatures
