import ClauseFeatures.Extractor
import ClauseFeatures.Proofs.Computation
import ClauseFeatures.Proofs.Occurrence

/-!
Markers. A scan stops at a marker if there is one, wherever it lies, and at nothing else: the failure names
the first marker by ascending literal and order of insertion, and what was reported until then is what a run
without its marker calls reports from the same entries. Whatever rests on a scan fails with it, and nothing
is logged.
-/
namespace ClauseFeatures

variable {K : Type}

def Call.marker? : Call K → Option (Literal × Value)
  | addMarker l index => some (l, index)
  | _ => none

def Effect.marker? : Effect K → Option (Literal × Value)
  | mark l index => some (l, index)
  | _ => none

def placedMarker? (p : Literal × Watch) : Option (Literal × Value) :=
  match p.2.body with
  | .marker index => some (p.1, index)
  | _ => none

/-- Whether both the index of a marker and the literal that it lies on have a text. -/
def isToldMarker (m : Literal × Value) : Bool := (m.2.untold? none).isNone && !Failure.isTooLong m.1.toDimacs

/-- The failure of a scan that reaches a marker: that of the first text that is missing, if one is. -/
def Failure.atMarker (m : Literal × Value) : Failure :=
  match m.2.told, m.1.text with
  | .ok shown, .ok literal => .markerReached shown literal
  | .error e, _ | _, .error e => e

theorem Failure.kind_atMarker (m : Literal × Value) :
    (atMarker m).kind = if isToldMarker m then .contract else .value := by
  unfold atMarker isToldMarker Value.told
  cases untold : m.2.untold? none with
  | some e =>
      rw [Value.checked_eq_error untold]
      obtain rfl | ⟨bounded, -⟩ := Value.untold?_eq_some untold
      · rfl
      · cases bounded
  | none =>
      rw [Value.checked_eq_ok untold, Literal.text]
      cases long : isTooLong m.1.toDimacs with
      | true =>
          rw [integerText_eq_error long]
          rfl
      | false =>
          rw [integerText_eq_ok long]
          rfl

/-- The markers of the accepted calls as a scan comes by them: by ascending literal, those of one literal in
the order of the calls. -/
def markersOf (history : List (Call K × Option Nat)) : List (Literal × Value) :=
  sortByKey (fun m => m.1.code) (history.filterMap fun a => a.1.marker?)

/-! Scans. -/

/-- A list cut at its first item of some kind. -/
structure CutAt {α β : Type} (f : α → Option β) (items before : List α) (x : α) (b : β)
    (after : List α) : Prop where
  eq : items = before ++ x :: after
  found : f x = some b
  first : ∀ y ∈ before, f y = none

theorem exists_cutAt {α β : Type} {f : α → Option β} {items : List α} {b : β}
    (h : (items.filterMap f).head? = some b) : ∃ before x after, CutAt f items before x b after := by
  induction items with
  | nil => cases h
  | cons y items ih =>
      rw [List.filterMap_cons] at h
      cases hy : f y with
      | some c =>
          rw [hy] at h
          exact ⟨[], y, items, rfl, hy.trans h, fun _ hz => absurd hz List.not_mem_nil⟩
      | none =>
          rw [hy] at h
          obtain ⟨before, x, after, cut⟩ := ih h
          refine ⟨y :: before, x, after, congrArg (y :: ·) cut.eq, cut.found, ?_⟩
          intro z hz
          rcases List.mem_cons.mp hz with rfl | hz
          · exact hy
          · exact cut.first z hz

theorem CutAt.filter_isNone {α β : Type} {f : α → Option β} {items before after : List α} {x : α} {b : β}
    (cut : CutAt f items before x b after) :
    items.filter (fun y => (f y).isNone) = before ++ after.filter fun y => (f y).isNone := by
  have kept : before.filter (fun y => (f y).isNone) = before := by
    rw [List.filter_eq_self]
    intro y hy
    rw [cut.first y hy, Option.isNone_none]
  rw [cut.eq, List.filter_append, kept, List.filter_cons, cut.found]
  rfl

theorem ClauseView.ofEntry_marker {store : ClauseStore K} {l : Literal} {w : Watch} {index : Value}
    (h : w.body = .marker index) : ofEntry store l w = .error (.atMarker (l, index)) := by
  rw [ofEntry, h]
  change (index.told >>= fun shown => l.text >>= fun literal => throw (.markerReached shown literal)) = _
  rw [Failure.atMarker]
  cases index.told with
  | error e => rfl
  | ok shown => cases l.text <;> rfl

/-- A scan reads entry after entry up to a marker, and fails there. -/
theorem Traversal.ofEntries_cut {store : ClauseStore K} {ps before after : List (Literal × Watch)}
    {p : Literal × Watch} {m : Literal × Value} (cut : CutAt placedMarker? ps before p m after)
    (readable : ∀ q ∈ before, ClauseView.Readable store q) :
    ofEntries store ps = ⟨before.filterMap (ClauseView.resolve store), some (.atMarker m)⟩ := by
  obtain ⟨rfl, found, -⟩ := cut
  induction before with
  | nil =>
      obtain ⟨l, w⟩ := p
      unfold placedMarker? at found
      split at found
      · rename_i index body
        cases found
        simp only [List.nil_append, ofEntries, ClauseView.ofEntry_marker body]
        rfl
      · cases found
  | cons q before ih =>
      obtain ⟨v, hok, -⟩ := readable q List.mem_cons_self
      have ih := ih fun r hr => readable r (List.mem_cons_of_mem q hr)
      simp only [List.cons_append, ofEntries, hok, ih, List.filterMap_cons, ClauseView.resolve,
        Except.toOption]
      cases v <;> rfl

/-! Effects. -/

namespace Effect

theorem Answers.marker_eq {e : Effect K} {c : Call K} {answer : Option Nat} (h : e.Answers c answer) :
    e.marker? = c.marker? := by
  cases h <;> rfl

theorem marker_of_isStranded {e : Effect K} (h : e.isStranded = true) : e.marker? = none := by
  cases e <;> first | rfl | cases h

theorem marker_of_unmarked {e : Effect K} (h : e.isMark = false) : e.marker? = none := by
  cases e <;> first | rfl | cases h

theorem placedMarker_of_mem {e : Effect K} (unmarked : e.isMark = false) :
    ∀ p ∈ e.placements, placedMarker? p = none := by
  have clause (lits : List Literal) (red : Bool) (offset : Option Nat) :
      ∀ p ∈ placementsOf lits red offset, placedMarker? p = none := by
    intro p hp
    unfold placementsOf at hp
    split at hp <;> simp only [List.mem_cons, List.not_mem_nil, or_false] at hp
    · rcases hp with rfl | rfl <;> rfl
    · rcases hp with rfl | rfl | rfl <;> rfl
    · rcases hp with rfl | rfl <;> rfl
  cases e with
  | grow _ | scale _ => exact fun _ hp => absurd hp List.not_mem_nil
  | mark _ _ => cases unmarked
  | inline lits red => exact clause lits red none
  | long c offset _ => exact clause c.lits c.red (some offset)

theorem filterMap_placedMarker (e : Effect K) :
    e.placements.filterMap placedMarker? = e.marker?.toList := by
  cases he : e.isMark with
  | true =>
      cases e with
      | mark l index => rfl
      | grow _ | scale _ | inline _ _ | long _ _ _ => cases he
  | false =>
      rw [marker_of_unmarked he, Option.toList_none, List.filterMap_eq_nil_iff]
      exact placedMarker_of_mem he

/-- Without its marker an effect leaves nothing or is as before. -/
theorem filter_placements (e : Effect K) :
    e.placements.filter (fun p => (placedMarker? p).isNone) =
      if e.isMark then [] else e.placements := by
  cases he : e.isMark with
  | true =>
      cases e with
      | mark l index => rfl
      | grow _ | scale _ | inline _ _ | long _ _ _ => cases he
  | false =>
      rw [if_neg Bool.false_ne_true, List.filter_eq_self]
      intro p hp
      rw [placedMarker_of_mem he p hp, Option.isNone_none]

end Effect

section Built

variable [Quantity K] {vars : Nat} {es : List (Effect K)} {db : Database K}

namespace Built

/-- Every placed entry that is no marker can be read, and reports existing literals. -/
theorem readable (h : Built vars es db) {p : Literal × Watch} (hp : p ∈ es.flatMap Effect.placements)
    (clause : placedMarker? p = none) :
    ClauseView.Readable db.store p ∧
      ∀ v, ClauseView.resolve db.store p = some v → ∀ l ∈ v.lits, l.var < db.vars := by
  obtain ⟨e, he, hp⟩ := List.mem_flatMap.mp hp
  have unmarked : e.isMark = false := by
    cases e with
    | mark l index =>
        cases List.mem_singleton.mp hp
        cases clause
    | grow _ | scale _ | inline _ _ | long _ _ _ => rfl
  have fits := h.fits e he
  have reported := reported_effect fits unmarked
    (by rintro c offset tier rfl; exact h.store_get he)
  refine ⟨reported.1 p hp, ?_⟩
  intro v hv
  have : v ∈ (e.irredundant?.map viewOf).toList := reported.2 ▸ List.mem_filterMap.mpr ⟨p, hp, hv⟩
  obtain ⟨lits, hl, rfl⟩ := Option.map_eq_some_iff.mp (Option.mem_toList.mp this)
  intro l hm
  have hm := (perm_viewOf lits).mem_iff.mp hm
  cases e with
  | grow _ | scale _ | mark _ _ => cases hl
  | inline _ _ | long _ _ _ =>
      simp only [Effect.irredundant?] at hl
      split at hl
      · cases hl
      · cases hl
        exact fits.1.existing l hm

theorem mem_entries (h : Built vars es db) {p : Literal × Watch} (hp : p ∈ db.entries) :
    p ∈ es.flatMap Effect.placements :=
  (mem_buckets.mp (h.entries_eq ▸ hp)).1

theorem eq_of_placedMarker (h : Built vars es db) {p : Literal × Watch} (hp : p ∈ db.entries) {m : Literal × Value}
    (found : placedMarker? p = some m) : p = (m.1, .markerOf m.2) := by
  obtain ⟨e, -, placed⟩ := List.mem_flatMap.mp (h.mem_entries hp)
  cases he : e.isMark with
  | false =>
      rw [Effect.placedMarker_of_mem he p placed] at found
      cases found
  | true =>
      cases e with
      | mark l index =>
          cases List.mem_singleton.mp placed
          cases found
          rfl
      | grow _ | scale _ | inline _ _ | long _ _ _ => cases he

/-- A scan comes by the markers in the stable order of their literals. -/
theorem markers_eq (h : Built vars es db) :
    db.entries.filterMap placedMarker? =
      sortByKey (fun m => m.1.code) (es.filterMap Effect.marker?) := by
  have keyed : ∀ p ∈ es.flatMap Effect.placements, ∀ m, placedMarker? p = some m →
      (fun m : Literal × Value => m.1.code) m = placedCode p := by
    intro p _ m hm
    unfold placedMarker? at hm
    split at hm
    · cases hm
      rfl
    · cases hm
  have markers : (es.flatMap Effect.placements).filterMap placedMarker? =
      es.filterMap Effect.marker? := by
    rw [List.filterMap_flatMap, List.filterMap_eq_flatMap_toList]
    exact List.flatMap_congr fun e _ => e.filterMap_placedMarker
  have placed : ∀ m ∈ es.filterMap Effect.marker?, m.1.code < 2 * db.vars := by
    intro m hm
    rw [← markers] at hm
    obtain ⟨p, hp, hm⟩ := List.mem_filterMap.mp hm
    exact Nat.lt_of_le_of_lt (Nat.le_of_eq (keyed p hp m hm)) (h.placedCode_lt p hp)
  rw [h.entries_eq, filterMap_buckets _ keyed, markers,
    buckets_eq_sortByKey _ placed]

/-- The entries before the first marker can all be read; without a marker all entries can. -/
theorem traversal_of_head (h : Built vars es db) :
    match (db.entries.filterMap placedMarker?).head? with
    | none => db.traversal = ⟨db.entries.filterMap (ClauseView.resolve db.store), none⟩
    | some m => ∃ before p after, CutAt placedMarker? db.entries before p m after ∧
        (∀ q ∈ before, ClauseView.Readable db.store q) ∧
        db.traversal = ⟨before.filterMap (ClauseView.resolve db.store), some (.atMarker m)⟩ := by
  split
  · rename_i none
    have clause := List.filterMap_eq_nil_iff.mp (List.head?_eq_none_iff.mp none)
    exact Traversal.ofEntries_eq fun p hp => (h.readable (h.mem_entries hp) (clause p hp)).1
  · rename_i m some
    obtain ⟨before, p, after, cut⟩ := exists_cutAt some
    have readable : ∀ q ∈ before, ClauseView.Readable db.store q := by
      intro q hq
      have inside : q ∈ db.entries := cut.eq ▸ List.mem_append_left _ hq
      exact (h.readable (h.mem_entries inside) (cut.first q hq)).1
    exact ⟨before, p, after, cut, readable, Traversal.ofEntries_cut cut readable⟩

theorem views_existing (h : Built vars es db) :
    ∀ v ∈ db.traversal.views, ∀ l ∈ v.lits, l.var < db.vars := by
  have met : ∀ v ∈ db.traversal.views,
      ∃ p ∈ db.entries, placedMarker? p = none ∧ ClauseView.resolve db.store p = some v := by
    intro v hv
    have scan := h.traversal_of_head
    split at scan
    · rename_i none
      have clause := List.filterMap_eq_nil_iff.mp (List.head?_eq_none_iff.mp none)
      rw [scan] at hv
      obtain ⟨p, hp, hv⟩ := List.mem_filterMap.mp hv
      exact ⟨p, hp, clause p hp, hv⟩
    · obtain ⟨before, p, after, cut, -, scan⟩ := scan
      rw [scan] at hv
      obtain ⟨q, hq, hv⟩ := List.mem_filterMap.mp hv
      exact ⟨q, cut.eq ▸ List.mem_append_left _ hq, cut.first q hq, hv⟩
  intro v hv
  obtain ⟨p, hp, clause, hv⟩ := met v hv
  exact (h.readable (h.mem_entries hp) clause).2 v hv

end Built

end Built

/-! Runs without their marker calls. -/

namespace Database

variable {vars vars' : Nat} {es es' : List (Effect K)} {db db' : Database K}

/-- Databases with the same variables and the same store, in which a call has the same effect. -/
structure SameBase (db db' : Database K) : Prop where
  vars : db.vars = db'.vars
  store : db.store = db'.store

namespace SameBase

theorem plan_eq [Quantity K] (h : SameBase db db') (c : Call K) : db.plan c = db'.plan c := by
  cases c with
  | newVars _ | setIncrement _ => rfl
  | newVar | addMarker _ _ => rw [plan, plan, h.vars]
  | addClause p =>
      have check : db.check p = db'.check p := by rw [Database.check, Database.check, h.vars]
      simp only [plan, check, planLong, h.store]

theorem apply (h : SameBase db db') (e : Effect K) : SameBase (db.apply e) (db'.apply e) := by
  cases e with
  | grow n => exact ⟨congrArg (· + n) h.vars, h.store⟩
  | scale _ | mark _ _ | inline _ _ => exact ⟨h.vars, h.store⟩
  | long c _ _ => exact ⟨h.vars, congrArg (·.push c) h.store⟩

theorem mark (h : SameBase db db') {e : Effect K} (he : e.isMark = true) :
    SameBase (db.apply e) db' := by
  cases e with
  | mark _ _ => exact ⟨h.vars, h.store⟩
  | grow _ | scale _ | inline _ _ | long _ _ _ => cases he

end SameBase

variable [Quantity K]

theorem SameBase.call (hs : db.Shaped) (hs' : db'.Shaped) (h : SameBase db db') (c : Call K) :
    SameBase (db.call c).1 (if c.isMarker then db' else (db'.call c).1) := by
  rw [call_eq hs, call_eq hs', ← h.plan_eq c, carryOut, carryOut]
  cases hp : (db.plan c).1 with
  | none => simpa only [Option.elim_none, ite_self] using h
  | some e =>
      simp only [Option.elim_some, ← isMark_of_plan hp]
      cases he : e.isMark with
      | true => exact h.mark he
      | false => exact h.apply e

theorem filter_plan (c : Call K) :
    (db.plan c).1.toList.filter (fun e => !e.isMark) =
      if c.isMarker then [] else (db.plan c).1.toList := by
  cases hp : (db.plan c).1 with
  | none => rw [Option.toList_none, List.filter_nil, ite_self]
  | some e =>
      rw [← isMark_of_plan hp, Option.toList_some, List.filter_singleton]
      cases e.isMark <;> rfl

/-- Without its marker calls a run has the same effects but for the markers. -/
theorem unmarked_run (h : Built vars es db) (h' : Built vars' es' db') (same : SameBase db db')
    (cs : List (Call K)) :
    ((db.effects cs).filter fun e => !e.isMark) = db'.effects (cs.filter fun c => !c.isMarker) ∧
      SameBase (db.run cs) (db'.run (cs.filter fun c => !c.isMarker)) := by
  induction cs generalizing es es' db db' with
  | nil => exact ⟨rfl, same⟩
  | cons c cs ih =>
      have base := same.call h.shaped h'.shaped c
      rw [effects, List.filter_append, filter_plan, run, List.filter_cons]
      cases hc : c.isMarker with
      | true =>
          rw [hc, if_pos rfl] at base
          exact ih (built_call h c) h' base
      | false =>
          rw [hc, if_neg Bool.false_ne_true] at base
          obtain ⟨effects, base⟩ := ih (built_call h c) (built_call h' c) base
          refine ⟨?_, base⟩
          rw [effects, same.plan_eq c]
          rfl

end Database

/-- Without the markers a scan meets the same entries. -/
theorem Built.entries_unmarked [Quantity K] {vars vars' : Nat} {es : List (Effect K)}
    {db db' : Database K} (h : Built vars es db)
    (h' : Built vars' (es.filter fun e => !e.isMark) db') (same : db.vars = db'.vars) :
    db'.entries = db.entries.filter fun p => (placedMarker? p).isNone := by
  have keep (p : Literal × Watch) :
      Option.guard (fun p => (placedMarker? p).isNone) p =
        if (placedMarker? p).isNone then some p else none := by
    simp only [Option.guard]
  have kept : (es.filter fun e => !e.isMark).flatMap Effect.placements =
      (es.flatMap Effect.placements).filterMap
        (Option.guard fun p => (placedMarker? p).isNone) := by
    rw [List.filterMap_eq_filter]
    clear h h'
    induction es with
    | nil => rfl
    | cons e es ih =>
        rw [List.flatMap_cons, List.filter_append, e.filter_placements, ← ih, List.filter_cons]
        cases e.isMark <;> rfl
  have keyed : ∀ p ∈ es.flatMap Effect.placements, ∀ q,
      Option.guard (fun p => (placedMarker? p).isNone) p = some q → placedCode q = placedCode p := by
    intro p _ q hq
    rw [keep] at hq
    split at hq
    · cases hq
      rfl
    · cases hq
  rw [h'.entries_eq, h.entries_eq, ← same, kept, ← filterMap_buckets _ keyed,
    List.filterMap_eq_filter]

/-! What rests on a scan. -/

/-- Extracts under a configuration and calls a logger, which may be anything that has a state, with the
metrics: the state that the logger is left in, and the outcome. -/
def Database.extractLogged {S : Type} (db : Database Value) (c : Config) (time : Value)
    (log : S → Value → S × Except Failure Unit) (s : S) : S × Except Failure (FeatureRecord Value) :=
  match db.extractWith c with
  | .error e => (s, .error e)
  | .ok r => ((log s (.mapping (r.metrics time))).1, (log s (.mapping (r.metrics time))).2.map fun _ => r)

/-- A database at whose first marker every scan stops, if there is one, and whatever rests on a scan fails
with the scan; without a marker no scan fails, and no extraction in the way that a marker is told. -/
structure Database.StopsAt (db : Database Value) (first : Option (Literal × Value)) : Prop where
  traversal : db.traversal.failure = first.map .atMarker
  visitor : ∀ {S : Type} (step : S → ClauseView → S) (s : S),
    db.traversal.fold (fun s v => .ok (step s v)) s =
      first.elim (.ok (db.traversal.views.foldl step s)) fun m => .error (.atMarker m)
  occurrences : Occurrences.ofDatabase db =
    first.elim (.ok (.ofViews db.vars db.traversal.views)) fun m => .error (.atMarker m)
  extraction : ∀ c e, db.extractWith c = .error e → e.kind = .contract →
    ∃ m, first = some m ∧ e = .atMarker m
  stopped : ∀ m, first = some m → ∀ (c : Config) {S : Type} (time : Value)
    (log : S → Value → S × Except Failure Unit) (s : S),
    db.extractLogged c time log s = (s, .error (.atMarker m))

theorem Traversal.fold_pure {S : Type} (t : Traversal) (step : S → ClauseView → S) (s : S) :
    t.fold (fun s v => .ok (step s v)) s =
      t.failure.elim (.ok (t.views.foldl step s)) Except.error := by
  have folded (views : List ClauseView) (s : S) :
      views.foldlM (fun s v => (.ok (step s v) : Except Failure S)) s = .ok (views.foldl step s) := by
    induction views generalizing s with
    | nil => rfl
    | cons v views ih => exact ih (step s v)
  rw [fold, folded, ok_bind]
  cases t.failure <;> rfl

section Built

variable {vars : Nat} {es : List (Effect Value)} {db : Database Value}

theorem Built.stopsAt (h : Built vars es db) :
    db.StopsAt (sortByKey (fun m => m.1.code) (es.filterMap Effect.marker?)).head? := by
  have traversal : db.traversal.failure =
      (sortByKey (fun m => m.1.code) (es.filterMap Effect.marker?)).head?.map .atMarker := by
    rw [← h.markers_eq]
    have scan := h.traversal_of_head
    split at scan
    · rename_i none
      rw [none, scan]
      rfl
    · rename_i m some
      obtain ⟨_, _, _, -, -, scan⟩ := scan
      rw [some, scan]
      rfl
  generalize (sortByKey (fun m => m.1.code) (es.filterMap Effect.marker?)).head? = first at traversal
  have occurrences := Occurrences.ofDatabase_eq h.views_existing
  rw [traversal] at occurrences
  have stopped (m : Literal × Value) (hm : first = some m) (c : Config) :
      db.extractWith c = .error (.atMarker m) := by
    rw [hm] at occurrences
    rw [Database.extractWith, Database.extract, Database.record, occurrences]
    rfl
  refine ⟨traversal, ?_, ?_, ?_, ?_⟩
  · intro S step s
    rw [Traversal.fold_pure, traversal]
    cases first <;> rfl
  · rw [occurrences]
    cases first <;> rfl
  · intro c e failed contract
    cases first with
    | some m =>
        rw [stopped m rfl c] at failed
        cases failed
        exact ⟨m, rfl, rfl⟩
    | none =>
        have := h.extract_fails (Value.computes (.number c.eps)) traversal occurrences c.redTier
        exact absurd contract (Failure.not_contract (this e failed))
  · intro m hm c S time log s
    rw [Database.extractLogged, stopped m hm c]

end Built

theorem markersOf_history [Quantity K] (vars : Nat) (calls : List (Call K)) :
    markersOf ((Database.empty vars).history calls) =
      sortByKey (fun m => m.1.code)
        (((Database.empty vars).effects calls).filterMap Effect.marker?) := by
  have built : Built vars [] (Database.empty vars : Database K) := .empty
  have answered := map_eq_of_forall₂ (f := Effect.marker?) (g := fun a => a.1.marker?)
    (Database.answers_history built calls) fun _ _ ha => ha.marker_eq
  have := congrArg (List.filterMap id) answered
  simp only [List.filterMap_map, Function.id_comp, List.filterMap_filter] at this
  rw [markersOf, ← this]
  congr 2
  funext e
  cases he : e.isStranded with
  | false => rfl
  | true => exact (Effect.marker_of_isStranded he).symm

end ClauseFeatures
