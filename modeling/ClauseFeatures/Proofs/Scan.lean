import ClauseFeatures.Proofs.Bucket
import ClauseFeatures.Proofs.Built
import ClauseFeatures.Traversal

/-!
The scan of a built database. All watch lists together hold the placed entries in buckets by literal, each
entry once.
-/
namespace ClauseFeatures

variable {K : Type} [Quantity K]

def placedCode (p : Literal × Watch) : Nat := p.1.code

namespace Built

variable {vars : Nat} {es : List (Effect K)} {db : Database K}

theorem placedCode_lt (h : Built vars es db) :
    ∀ p ∈ es.flatMap Effect.placements, placedCode p < 2 * db.vars := by
  intro p hp
  obtain ⟨e, he, hp⟩ := List.mem_flatMap.mp hp
  exact (h.fits e he).code_lt hp

theorem lists_eq (h : Built vars es db) :
    db.watches.lists.toList =
      (List.range (2 * db.vars)).map fun k => entriesAt ⟨k⟩ (es.flatMap Effect.placements) := by
  have size : db.watches.lists.size = 2 * db.vars := h.shaped.watches
  apply List.ext_getElem?
  intro k
  rw [Array.getElem?_toList]
  by_cases hk : k < 2 * db.vars
  · have get := WatchLists.get_eq_ok_iff.mp (h.get_eq (x := ⟨k⟩) hk)
    simp only [get, List.getElem?_map, List.getElem?_range hk, Option.map_some]
  · have hk := Nat.le_of_not_lt hk
    rw [Array.getElem?_eq_none (size ▸ hk), List.getElem?_eq_none (by simpa using hk)]

private theorem entriesAt_tagged (k : Nat) (ps : List (Literal × Watch)) :
    (entriesAt ⟨k⟩ ps).map (Prod.mk ⟨k⟩) = ps.filter fun p => placedCode p = k := by
  have same : (fun p : Literal × Watch => decide (p.1 = ⟨k⟩)) = fun p => decide (placedCode p = k) := by
    funext p
    exact decide_eq_decide.mpr Literal.eq_iff_code
  rw [entriesAt, same, List.map_map]
  refine (List.map_congr_left ?_).trans (List.map_id _)
  intro p hp
  have := of_decide_eq_true (List.mem_filter.mp hp).2
  exact Prod.ext (Literal.eq_iff_code.mpr this.symm) rfl

/-- A scan meets the placed entries by ascending literal, those of one literal as they were placed. -/
theorem entries_eq (h : Built vars es db) :
    db.entries = buckets placedCode (2 * db.vars) (es.flatMap Effect.placements) := by
  have whole : db.watches.lists.toList.take (2 * db.vars) = db.watches.lists.toList := by
    refine List.take_of_length_le (Nat.le_of_eq ?_)
    rw [h.lists_eq, List.length_map, List.length_range]
  rw [Database.entries, whole, h.lists_eq, List.zipIdx_map, List.flatMap_map, buckets,
    List.zipIdx_eq_zip_range']
  have diagonal (n : Nat) :
      (List.range n).zip (List.range' 0 (List.range n).length) = (List.range n).map fun k => (k, k) := by
    rw [List.length_range, ← List.range_eq_range', List.zip, List.zipWith_self]
  rw [diagonal, List.flatMap_map]
  congr 1
  funext k
  exact entriesAt_tagged k _

theorem totalEntries_eq (h : Built vars es db) :
    db.watches.totalEntries = (es.flatMap Effect.placements).length := by
  have tagged (k : Nat) : (entriesAt ⟨k⟩ (es.flatMap Effect.placements)).length =
      ((es.flatMap Effect.placements).filter fun p => placedCode p = k).length := by
    rw [← entriesAt_tagged, List.length_map]
  rw [← length_buckets h.placedCode_lt, WatchLists.totalEntries, h.lists_eq, buckets,
    List.length_flatten, List.map_map, List.length_flatMap]
  exact congrArg List.sum (List.map_congr_left fun k _ => tagged k)

end Built

end ClauseFeatures
