import Mathlib.Algebra.BigOperators.Group.List.Basic
import Mathlib.Tactic.Ring
import ClauseFeatures.Proofs.Exact.Arithmetic
import ClauseFeatures.Proofs.Effect
import ClauseFeatures.Proofs.Summation
import ClauseFeatures.Ratio

/-!
Sums, extremes and running statistics in exact arithmetic. However an array is cut for summation, its sum is
the sum, and however a stream is added, its statistic is that of the list of its numbers, in any order.
-/
namespace ClauseFeatures

variable {F : Type} [Field F] [LinearOrder F] {r : Reading F}

/-! Extremes of lists. -/

section Extremes

variable {α : Type} [LinearOrder α]

theorem min?_append_cons (xs : List α) (y : α) (ys : List α) :
    (xs ++ y :: ys).min? = some (xs.min?.elim (ys.foldl min y) (min · (ys.foldl min y))) := by
  cases xs with
  | nil => rfl
  | cons x xs =>
      rw [List.cons_append, List.min?_cons', List.min?_cons', List.foldl_append, List.foldl_cons,
        List.foldl_assoc]
      rfl

theorem max?_append_cons (xs : List α) (y : α) (ys : List α) :
    (xs ++ y :: ys).max? = some (xs.max?.elim (ys.foldl max y) (max · (ys.foldl max y))) := by
  cases xs with
  | nil => rfl
  | cons x xs => exact min?_append_cons (α := αᵒᵈ) (x :: xs) y ys

theorem min?_perm {xs ys : List α} (h : xs.Perm ys) : xs.min? = ys.min? := by
  induction h with
  | nil => rfl
  | cons x _ ih => rw [List.min?_cons, List.min?_cons, ih]
  | swap x y xs =>
      simp only [List.min?_cons]
      cases xs.min? with
      | none => exact congrArg some (min_comm y x)
      | some m => exact congrArg some (min_left_comm y x m)
  | trans _ _ ih ih' => exact ih.trans ih'

theorem max?_perm {xs ys : List α} (h : xs.Perm ys) : xs.max? = ys.max? :=
  min?_perm (α := αᵒᵈ) h

end Extremes

namespace Exact

/-! Arrays. -/

theorem foldl_add (xs : List (Exact r)) (x : Exact r) : xs.foldl (· + ·) x = x + xs.sum := by
  induction xs generalizing x with
  | nil => exact (add_zero x).symm
  | cons y ys ih => rw [List.foldl_cons, ih, List.sum_cons, add_assoc]

theorem lanes_eq (r0 r1 r2 r3 r4 r5 r6 r7 : Exact r) (xs : List (Exact r)) :
    lanes r0 r1 r2 r3 r4 r5 r6 r7 xs = r0 + r1 + r2 + r3 + r4 + r5 + r6 + r7 + xs.sum := by
  fun_induction lanes r0 r1 r2 r3 r4 r5 r6 r7 xs with
  | case1 r0 r1 r2 r3 r4 r5 r6 r7 x0 x1 x2 x3 x4 x5 x6 x7 xs ih =>
      rw [ih]
      simp only [List.sum_cons]
      ring
  | case2 r0 r1 r2 r3 r4 r5 r6 r7 xs =>
      refine (foldl_add xs _).trans ?_
      ring

theorem blockSum_eq (xs : List (Exact r)) : blockSum xs = xs.sum := by
  unfold blockSum
  split
  · rw [lanes_eq]
    simp only [List.sum_cons]
    ring
  · exact (foldl_add xs 0).trans (zero_add _)

theorem pairwiseSum_eq (xs : List (Exact r)) : pairwiseSum xs = xs.sum := by
  fun_induction pairwiseSum xs with
  | case1 xs short => exact blockSum_eq xs
  | case2 xs long ihLeft ihRight =>
      rw [ihLeft, ihRight]
      exact List.sum_take_add_sum_drop xs _

theorem arraySum_eq (xs : List (Exact r)) : arraySum xs = xs.sum := by
  rw [arraySum, pairwiseSum_eq]
  exact zero_add _

theorem keep_lt (a b : Exact r) : keep Element.lt a b = min a b := by
  change (if decide (b < a) = true then b else a) = min a b
  by_cases h : b < a
  · rw [if_pos (decide_eq_true h), min_eq_right h.le]
  · rw [if_neg (by simpa using h), min_eq_left (not_lt.mp h)]

theorem keep_gt (a b : Exact r) : keep (fun a b => Element.lt b a) a b = max a b := by
  change (if decide (a < b) = true then b else a) = max a b
  by_cases h : a < b
  · rw [if_pos (decide_eq_true h), max_eq_right h.le]
  · rw [if_neg (by simpa using h), max_eq_left (not_lt.mp h)]

theorem arrayMin_eq (x : Exact r) (xs : List (Exact r)) : arrayMin x xs = xs.foldl min x := by
  rw [arrayMin, funext₂ keep_lt]

theorem arrayMax_eq (x : Exact r) (xs : List (Exact r)) : arrayMax x xs = xs.foldl max x := by
  rw [arrayMax, funext₂ keep_gt]

theorem improve_lt (extreme : Option (Exact r)) (x : Exact r) :
    RunningStat.improve Quantity.lt extreme x = .ok (some (extreme.elim x (min · x))) := by
  cases extreme with
  | none => rfl
  | some e => exact congrArg (fun m => Except.ok (some m)) (keep_lt e x)

theorem improve_gt (extreme : Option (Exact r)) (x : Exact r) :
    RunningStat.improve (fun a b => Quantity.lt b a) extreme x = .ok (some (extreme.elim x (max · x))) := by
  cases extreme with
  | none => rfl
  | some e => exact congrArg (fun m => Except.ok (some m)) (keep_gt e x)

end Exact

namespace RunningStat

def ofList (xs : List (Exact r)) : RunningStat (Exact r) := ⟨xs.min?, xs.max?, xs.sum, xs.length⟩

theorem ofList_perm {xs ys : List (Exact r)} (h : xs.Perm ys) : ofList xs = ofList ys := by
  rw [ofList, ofList, min?_perm h, max?_perm h, h.sum_eq, h.length_eq]

/-- An array is added as if its numbers stood at the end of the list. -/
theorem addArray_ofList (xs ys : List (Exact r)) :
    (ofList xs).addArray ys = (ofList (xs ++ ys), .ok ()) := by
  cases ys with
  | nil => rw [List.append_nil]; rfl
  | cons y ys =>
      have extended : (ofList xs).extend (arrayMin y ys) (arrayMax y ys) =
          .ok { ofList xs with min := (xs ++ y :: ys).min?, max := (xs ++ y :: ys).max? } := by
        rw [extend, Exact.improve_lt, Exact.improve_gt, min?_append_cons, max?_append_cons,
          Exact.arrayMin_eq, Exact.arrayMax_eq]
        rfl
      rw [addArray, merge, Exact.ofElement_eq, Exact.ofElement_eq, extended]
      simp only [Exact.add_eq, Exact.ofElement_eq, Exact.arraySum_eq, ofList, List.sum_append,
        List.length_append, List.length_cons]

theorem add_eq_addArray (s : RunningStat (Exact r)) (x : Exact r) : s.add x = s.addArray [x] := by
  rw [addArray, Exact.arraySum_eq, List.sum_singleton]
  rfl

theorem add_ofList (xs : List (Exact r)) (x : Exact r) :
    (ofList xs).add x = (ofList (xs ++ [x]), .ok ()) := by
  rw [add_eq_addArray, addArray_ofList]

theorem meanOver_eq (s : RunningStat (Exact r)) (population : Exact r) :
    s.meanOver population =
      .ok (if 0 < s.total ∧ 0 < population then s.total / population else 0) := by
  rw [meanOver, Exact.lt_eq, Exact.lt_eq, bothHold_ok, ok_bind, Exact.ofInt_eq, Int.cast_zero]
  by_cases counts : 0 < s.total ∧ 0 < population
  · rw [if_pos (by simpa using counts), if_pos counts, Exact.div_eq counts.2.ne']
  · rw [if_neg (by simpa using counts), if_neg counts]
    rfl

theorem summary_eq {s : RunningStat (Exact r)} (counts : s.count ≠ 0) (population : Exact r) :
    s.summary population = .ok {
      min := s.least
      max := s.greatest
      spread := s.greatest - s.least
      mean := if 0 < s.total ∧ 0 < population then s.total / population else 0
      std := 0 } := by
  rw [summary, if_neg counts, meanOver_eq]
  rfl

theorem exists_summary (s : RunningStat (Exact r)) (population : Exact r) :
    ∃ m, s.summary population = .ok m := by
  by_cases counts : s.count = 0
  · exact ⟨.zero, if_pos counts⟩
  · exact ⟨_, summary_eq counts population⟩

end RunningStat

/-! Ratios. -/

namespace Ratio

theorem polarity_eq (pos : Exact r) {size : Exact r} (h : 2 * size ≠ 0) :
    polarity pos size = .ok (elementPolarity pos size) := by
  have divided := Exact.div_eq (a := 2 * pos - size) h
  exact congrArg (· >>= fun q => Arithmetic.add Arithmetic.half q) divided

/-- The deviation is the root of the variance over the mean where both gates are passed. -/
theorem relativeDeviation_eq [IsStrictOrderedRing F] {eps : Exact r} (he : 0 ≤ eps)
    (squares population mean : Exact r) :
    relativeDeviation squares population mean eps =
      .ok (if eps < squares ∧ eps < mean ∧ 0 < population then
        (squares / population).root / mean else 0) := by
  rw [relativeDeviation, Exact.lt_eq, Exact.lt_eq, Exact.lt_eq, bothHold_ok, bothHold_ok, ok_bind,
    Exact.ofInt_eq, Int.cast_zero]
  by_cases gates : eps < squares ∧ eps < mean ∧ 0 < population
  · obtain ⟨above, large, counts⟩ := gates
    have variance : 0 ≤ squares / population := div_nonneg (he.trans above.le) counts.le
    rw [if_pos (by simp [above, large, counts]), if_pos ⟨above, large, counts⟩, Exact.div_eq counts.ne',
      ok_bind, Exact.sqrt_eq variance, ok_bind, Exact.div_eq (he.trans_lt large).ne']
  · rw [if_neg (by simpa using gates), if_neg gates]
    rfl

end Ratio

end ClauseFeatures
