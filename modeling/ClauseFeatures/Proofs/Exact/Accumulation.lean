import ClauseFeatures.Proofs.Exact.Statistic

/-!
Ways of adding numbers to a running statistic. A statistic that was reached by additions is that of the list of
the numbers added; a single number extends this list by one, and an array by its elements. So it makes no
difference whether a population is streamed, added as one array or cut into arrays, nor in which order.
-/
namespace ClauseFeatures

namespace RunningStat

variable {K α : Type}

/-- Carries out additions one after the other, up to the first one that is refused. -/
def addInTurn (add : RunningStat K → α → RunningStat K × Except Failure Unit) (s : RunningStat K) :
    List α → RunningStat K × Except Failure Unit
  | [] => (s, .ok ())
  | a :: as =>
    match add s a with
    | (t, .ok ()) => addInTurn add t as
    | (t, .error e) => (t, .error e)

variable {F : Type} [Field F] [LinearOrder F] {r : Reading F}

/-- A statistic that additions lead to from the empty one, with the numbers that were added. -/
inductive Collects : RunningStat (Exact r) → List (Exact r) → Prop
  | empty : Collects empty []
  | add {s t : RunningStat (Exact r)} {xs : List (Exact r)} {x : Exact r} (before : Collects s xs)
      (added : s.add x = (t, .ok ())) : Collects t (xs ++ [x])
  | addArray {s t : RunningStat (Exact r)} {xs ys : List (Exact r)} (before : Collects s xs)
      (added : s.addArray ys = (t, .ok ())) : Collects t (xs ++ ys)

/-- A statistic with the number, the sum and the extremes of a list, and with a summary over every population.
The extremes are missing while nothing was added. -/
structure Tallies (s : RunningStat (Exact r)) (xs : List (Exact r)) : Prop where
  count : s.count = xs.length
  total : s.total = xs.sum
  min_none : s.min = none ↔ s.count = 0
  max_none : s.max = none ↔ s.count = 0
  min_some : ∀ a, s.min = some a ↔ a ∈ xs ∧ ∀ x ∈ xs, a ≤ x
  max_some : ∀ a, s.max = some a ↔ a ∈ xs ∧ ∀ x ∈ xs, x ≤ a
  summary : ∀ n, ∃ m, s.summary n = .ok m ∧ (s.count = 0 → m = .zero) ∧
    (s.count ≠ 0 → m.min = s.least ∧ m.max = s.greatest ∧ m.spread = s.greatest - s.least) ∧
    m.mean = (if 0 < s.total ∧ 0 < n then s.total / n else 0) ∧ m.std = 0

theorem Collects.eq_ofList {s : RunningStat (Exact r)} {xs : List (Exact r)} (h : s.Collects xs) :
    s = ofList xs := by
  induction h with
  | empty => rfl
  | add _ added ih =>
      rw [ih, add_ofList] at added
      exact (Prod.mk.inj added).1.symm
  | addArray _ added ih =>
      rw [ih, addArray_ofList] at added
      exact (Prod.mk.inj added).1.symm

/-- Additions that each extend the list by some numbers extend it by all of these numbers in turn. -/
theorem addInTurn_ofList {add : RunningStat (Exact r) → α → RunningStat (Exact r) × Except Failure Unit}
    (values : α → List (Exact r)) (step : ∀ xs a, add (ofList xs) a = (ofList (xs ++ values a), .ok ()))
    (xs : List (Exact r)) (as : List α) :
    addInTurn add (ofList xs) as = (ofList (xs ++ as.flatMap values), .ok ()) := by
  induction as generalizing xs with
  | nil => rw [List.flatMap_nil, List.append_nil, addInTurn]
  | cons a as ih =>
      rw [addInTurn, step]
      simp only [ih, List.flatMap_cons, List.append_assoc]

theorem tallies_ofList (xs : List (Exact r)) : (ofList xs).Tallies xs where
  count := rfl
  total := rfl
  min_none := List.min?_eq_none_iff.trans List.length_eq_zero_iff.symm
  max_none := List.max?_eq_none_iff.trans List.length_eq_zero_iff.symm
  min_some _ := List.min?_eq_some_iff
  max_some _ := List.max?_eq_some_iff
  summary n := by
    by_cases none : (ofList xs).count = 0
    · have total : (ofList xs).total = 0 := by
        rw [List.length_eq_zero_iff.mp none]
        rfl
      refine ⟨.zero, if_pos none, fun _ => rfl, fun some => absurd none some, ?_, rfl⟩
      rw [total, if_neg fun counts => lt_irrefl _ counts.1]
      rfl
    · exact ⟨_, summary_eq none n, fun h => absurd h none, fun _ => ⟨rfl, rfl, rfl⟩, rfl, rfl⟩

/-- Numbers that are streamed, added as one array and added as any arrays that they are cut into, each time in an
order of their own, leave one and the same statistic. -/
theorem additions_agree {s : RunningStat (Exact r)} {before xs ys : List (Exact r)} {chunks : List (List (Exact r))}
    (reached : s.Collects before) (reordered : ys.Perm xs) (cut : chunks.flatten.Perm xs) :
    ∃ t : RunningStat (Exact r), t.Tallies (before ++ xs) ∧ addInTurn add s xs = (t, .ok ()) ∧
      s.addArray ys = (t, .ok ()) ∧ addInTurn addArray s chunks = (t, .ok ()) := by
  obtain rfl := reached.eq_ofList
  refine ⟨ofList (before ++ xs), tallies_ofList _, ?_, ?_, ?_⟩
  · rw [addInTurn_ofList (fun x => [x]) add_ofList, List.flatMap_singleton']
  · rw [addArray_ofList, ofList_perm (reordered.append_left before)]
  · have arrays := addInTurn_ofList id addArray_ofList before chunks
    rw [List.flatMap_id] at arrays
    rw [arrays, ofList_perm (cut.append_left before)]

/-- Three numbers after a first one, as a stream, backwards as an array, and cut into arrays of which two are
empty. -/
theorem additions_agree_cut :
    let r : Reading Rat := { root := fun a => a, top := 0, bottom := 0, text := fun _ => "" }
    let start : RunningStat (Exact r) := ⟨some 3, some 3, 3, 1⟩
    let xs : List (Exact r) := [1 / 2, -1, 2]
    let chunks : List (List (Exact r)) := [[], [-1, 2], [], [1 / 2]]
    ∃ t : RunningStat (Exact r), t.Tallies (3 :: xs) ∧ addInTurn add start xs = (t, .ok ()) ∧
      start.addArray xs.reverse = (t, .ok ()) ∧ addInTurn addArray start chunks = (t, .ok ()) := by
  intro r start xs chunks
  have reached : start.Collects [3] := .add .empty (by decide +kernel)
  have cut : ([-1, 2] ++ [1 / 2] : List (Exact r)).Perm ([1 / 2] ++ [-1, 2]) := List.perm_append_comm
  exact additions_agree reached (List.reverse_perm xs) cut

end RunningStat

end ClauseFeatures
