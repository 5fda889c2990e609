import ClauseFeatures.Proofs.Incidence

/-!
Databases whose numbers are read as numbers of another kind. Glues, activities and the increment are carried
over by any function; literals, lists and counters stay. Neither a traversal nor the counting of occurrences
looks at a measured number, so a database that was built with one kind of numbers can have its ratios computed
in another.
-/
namespace ClauseFeatures

variable {K L : Type} (f : K → L)

def Clause.convert (c : Clause K) : Clause L := ⟨c.lits, c.red, f c.glue, f c.activity⟩

def ClauseStore.convert (s : ClauseStore K) : ClauseStore L := ⟨s.bodies.map (Clause.convert f)⟩

def Database.convert (db : Database K) : Database L where
  vars := db.vars
  watches := db.watches
  store := db.store.convert f
  longIrred := db.longIrred
  longRed := db.longRed
  inline := db.inline
  increment := f db.increment

theorem ClauseStore.get?_convert (s : ClauseStore K) (offset : Int) :
    (s.convert f).get? offset = (s.get? offset).map (Clause.convert f) := by
  rw [get?, get?]
  split
  · rfl
  · exact Array.getElem?_map

theorem ClauseStore.get_convert (s : ClauseStore K) (offset : Value) :
    (s.convert f).get offset = (s.get offset).map (Clause.convert f) := by
  have size : (s.convert f).size = s.size := Array.size_map
  rw [get, get, size]
  cases bothHold (Value.le (.int 0) offset) (offset.lt (.int s.size)) with
  | error e => rfl
  | ok inside =>
      cases inside with
      | false =>
          rw [ok_bind, ok_bind]
          cases offset.told <;> rfl
      | true =>
          cases offset.number?.bind Number.int? with
          | none => rfl
          | some n =>
              simp only [ok_bind, Option.bind_some, get?_convert]
              cases s.get? n <;> rfl

theorem ClauseView.ofEntry_convert (store : ClauseStore K) (l : Literal) (w : Watch) :
    ofEntry (store.convert f) l w = ofEntry store l w := by
  rw [ofEntry, ofEntry]
  cases w.body with
  | binary _ _ | ternary _ _ _ | marker _ | unknown _ => rfl
  | long offset =>
      simp only [ClauseStore.get_convert]
      cases store.get offset <;> rfl

theorem Traversal.ofEntries_convert (store : ClauseStore K) (entries : List (Literal × Watch)) :
    ofEntries (store.convert f) entries = ofEntries store entries := by
  induction entries with
  | nil => rfl
  | cons entry rest ih => rw [ofEntries, ofEntries, ClauseView.ofEntry_convert, ih]

namespace Database

variable (db : Database K)

theorem traversal_convert : (db.convert f).traversal = db.traversal :=
  Traversal.ofEntries_convert f db.store db.entries

variable {db} in
theorem Holds.convert {clauses : List (List Literal)} (h : db.Holds clauses) : (db.convert f).Holds clauses where
  finished := traversal_convert f db ▸ h.finished
  met := traversal_convert f db ▸ h.met
  irredCount := h.irredCount
  isClause := h.isClause

end Database

end ClauseFeatures
