import ClauseFeatures.Database.Basic
import ClauseFeatures.Proofs.LiteralOrder
import ClauseFeatures.Proofs.Outcome

/-!
What a clause or a marker puts into the watch lists. Each entry is placed in the list of one literal, and
attaching a clause over existing variables places its entries and cannot fail.
-/
namespace ClauseFeatures

/-- The entry of a ternary clause in the list of one literal, naming the two others in order. -/
def Watch.ternaryOf (a b : Literal) (red : Bool) : Watch :=
  ⟨.ternary (min a b) (max a b) red,
    { second := some (.ofLiteral (min a b)), third := some (.ofLiteral (max a b)), red := .truth red }⟩

def Watch.markerOf (index : Value) : Watch := ⟨.marker index, { index }⟩

/-- The entries of a clause, each with the literal in whose list it belongs. A binary or ternary clause has
one for each literal, a long clause two with its offset. -/
def placementsOf (lits : List Literal) (red : Bool) (offset : Option Nat) : List (Literal × Watch) :=
  match lits, offset with
  | [a, b], _ => [(a, .binary b red), (b, .binary a red)]
  | [a, b, c], _ => [(a, .ternaryOf b c red), (b, .ternaryOf a c red), (c, .ternaryOf a b red)]
  | a :: b :: _, some o => [(a, .long o), (b, .long o)]
  | _, _ => []

/-- What some placed entries leave in the list of a literal. -/
def entriesAt (x : Literal) (ps : List (Literal × Watch)) : List Watch :=
  (ps.filter fun p => p.1 = x).map Prod.snd

@[simp]
theorem entriesAt_nil (x : Literal) : entriesAt x [] = [] := rfl

theorem entriesAt_append (x : Literal) (ps qs : List (Literal × Watch)) :
    entriesAt x (ps ++ qs) = entriesAt x ps ++ entriesAt x qs := by
  simp only [entriesAt, List.filter_append, List.map_append]

theorem entriesAt_eq_nil {x : Literal} {ps : List (Literal × Watch)} (h : ∀ p ∈ ps, p.1 ≠ x) :
    entriesAt x ps = [] := by
  simpa only [entriesAt, List.map_eq_nil_iff, List.filter_eq_nil_iff, decide_eq_true_eq] using h

namespace WatchLists

/-- Puts entries into the lists of their literals, one after the other. -/
def place (ws : WatchLists) (ps : List (Literal × Watch)) : WatchLists :=
  ⟨ps.foldl (fun lists p => lists.modify p.1.code (· ++ [p.2])) ws.lists⟩

theorem place_append (ws : WatchLists) (ps qs : List (Literal × Watch)) :
    ws.place (ps ++ qs) = (ws.place ps).place qs := by
  simp only [place, List.foldl_append]

@[simp]
theorem size_place (ws : WatchLists) (ps : List (Literal × Watch)) : (ws.place ps).size = ws.size := by
  induction ps generalizing ws with
  | nil => rfl
  | cons p ps ih =>
      have h := ih ⟨ws.lists.modify p.1.code (· ++ [p.2])⟩
      simp only [size, Array.size_modify] at h
      exact h

theorem get_eq_ok_iff {ws : WatchLists} {x : Literal} {entries : List Watch} :
    ws.get x = .ok entries ↔ ws.lists[x.code]? = some entries := by
  unfold get
  split <;> rename_i h <;> simp [h]

theorem get_ofVars {x : Literal} {vars : Nat} (h : x.code < 2 * vars) : (ofVars vars).get x = .ok [] := by
  rw [get_eq_ok_iff, ofVars, Array.getElem?_replicate, if_pos h]

theorem get_resize_old {ws : WatchLists} {x : Literal} (h : x.code < ws.size) (vars : Nat) :
    (ws.resize vars).get x = ws.get x := by
  simp only [get, resize, extend]
  rw [Array.getElem?_append_left h]

theorem get_resize_new {ws : WatchLists} {x : Literal} {vars : Nat} (h : ¬ x.code < ws.size)
    (hx : x.code < 2 * vars) : (ws.resize vars).get x = .ok [] := by
  unfold size at h
  rw [get_eq_ok_iff, resize, extend, Array.getElem?_append_right (Nat.le_of_not_lt h),
    Array.getElem?_replicate, if_pos (by omega)]

/-- Only the list of the entry's literal changes, and the entry stands last in it. -/
theorem get_place {ws : WatchLists} {x : Literal} {entries : List Watch}
    (h : ws.get x = .ok entries) (ps : List (Literal × Watch)) :
    (ws.place ps).get x = .ok (entries ++ entriesAt x ps) := by
  induction ps generalizing ws entries with
  | nil => simpa [place] using h
  | cons p ps ih =>
      rw [get_eq_ok_iff] at h
      have placed : (ws.place [p]).get x = .ok (entries ++ entriesAt x [p]) := by
        rw [get_eq_ok_iff]
        change (ws.lists.modify p.1.code (· ++ [p.2]))[x.code]? = _
        rw [Array.getElem?_modify, h]
        by_cases hx : p.1 = x
        · simp [entriesAt, hx]
        · have : ¬ p.1.code = x.code := fun hc => hx (Literal.eq_iff_code.mpr hc)
          simp [entriesAt, hx, this]
      have := ih placed
      rw [← place_append, List.append_assoc, ← entriesAt_append] at this
      exact this

theorem attach_eq {ws : WatchLists} {l : Literal} (h : l.code < ws.size) (w : Watch) :
    ws.attach l w = .ok (ws.place [(l, w)]) := by
  exact if_pos h

end WatchLists

namespace Database

theorem attachBinary_eq {ws : WatchLists} {a b : Literal} (ha : a.code < ws.size)
    (hb : b.code < ws.size) (red : Bool) :
    attachBinary ws a b red = .ok (ws.place (placementsOf [a, b] red none)) := by
  rw [attachBinary, WatchLists.attach_eq ha, ok_bind,
    WatchLists.attach_eq (by rwa [WatchLists.size_place]), ← WatchLists.place_append]
  rfl

theorem attachLong_eq {ws : WatchLists} {a b : Literal} (ha : a.code < ws.size)
    (hb : b.code < ws.size) (offset : Nat) :
    attachLong ws a b offset = .ok (ws.place [(a, .long offset), (b, .long offset)]) := by
  rw [attachLong, WatchLists.attach_eq ha, ok_bind,
    WatchLists.attach_eq (by rwa [WatchLists.size_place]), ← WatchLists.place_append]
  rfl

/-- The two other literals of a ternary clause are different, so their order is strict. -/
theorem attachTernaryTo_eq {ws : WatchLists} {lits : List Literal} {l a b : Literal}
    (h : lits.filter (· ≠ l) = [a, b]) (hab : a ≠ b) (hl : l.code < ws.size) (red : Bool) :
    attachTernaryTo lits red ws l = .ok (ws.place [(l, .ternaryOf a b red)]) := by
  rw [attachTernaryTo, h, Literal.sort_pair]
  simp only [Watch.ternary, Literal.min_lt_max hab, ite_true]
  exact WatchLists.attach_eq hl _

theorem attachTernary_eq {ws : WatchLists} {a b c : Literal} (h : [a, b, c].Nodup)
    (ha : a.code < ws.size) (hb : b.code < ws.size) (hc : c.code < ws.size) (red : Bool) :
    attachTernary ws [a, b, c] red = .ok (ws.place (placementsOf [a, b, c] red none)) := by
  simp only [List.nodup_cons, List.mem_cons, List.not_mem_nil, or_false, not_or] at h
  obtain ⟨⟨hab, hac⟩, hbc, -⟩ := h
  have forA : [a, b, c].filter (· ≠ a) = [b, c] := by simp [Ne.symm hab, Ne.symm hac]
  have forB : [a, b, c].filter (· ≠ b) = [a, c] := by simp [hab, Ne.symm hbc]
  have forC : [a, b, c].filter (· ≠ c) = [a, b] := by simp [hac, hbc]
  simp only [attachTernary, List.foldlM_cons, List.foldlM_nil]
  rw [attachTernaryTo_eq forA hbc ha, ok_bind,
    attachTernaryTo_eq forB hac (by simpa only [WatchLists.size_place] using hb), ok_bind,
    attachTernaryTo_eq forC hab (by simpa only [WatchLists.size_place] using hc), ok_bind,
    ← WatchLists.place_append, ← WatchLists.place_append]
  rfl

end Database

end ClauseFeatures
