import ClauseFeatures.Proofs.Exact.Moment

/-!
Distributions in exact arithmetic. The mean and the variance of an array are what they are called, also where
the least and the greatest element agree and neither is computed; so populations that are the same in another
order have the same distribution.
-/
namespace ClauseFeatures.Exact

variable {F : Type} [Field F] [LinearOrder F] {r : Reading F}

theorem check_positive {x : Exact r} (positive : 0 < x) (name : String) : Check.positive x name = .ok () := by
  simp only [Check.positive, lt_eq, ofInt_eq, Int.cast_zero, ok_bind, isZero_eq, not_lt.mpr positive.le,
    positive.ne', decide_false, Bool.or_false]
  rfl

/-- The mean of some numbers; zero if there are none. -/
def mean (xs : List (Exact r)) : Exact r := xs.sum / xs.length

/-- The variance of some numbers; zero if there are none. -/
def variance (xs : List (Exact r)) : Exact r := squares (mean xs) xs / xs.length

theorem mean_perm {xs ys : List (Exact r)} (h : xs.Perm ys) : mean xs = mean ys := by
  rw [mean, mean, h.sum_eq, h.length_eq]

theorem variance_perm {xs ys : List (Exact r)} (h : xs.Perm ys) : variance xs = variance ys := by
  rw [variance, variance, mean_perm h, squares_perm h, h.length_eq]

theorem arraySum_div (xs : List (Exact r)) : Distribution.mean xs = mean xs := by
  rw [Distribution.mean, arraySum_eq]
  rfl

section Constant

variable {x : Exact r} {xs : List (Exact r)}

/-- An array whose least element is not below its greatest one holds a single number. -/
theorem eq_of_not_lt (h : ¬ arrayMin x xs < arrayMax x xs) : ∀ y ∈ x :: xs, y = x := by
  have least : ∀ y ∈ x :: xs, arrayMin x xs ≤ y := by
    rw [arrayMin_eq]
    exact (List.min?_eq_some_iff.mp List.min?_cons').2
  have greatest : ∀ y ∈ x :: xs, y ≤ arrayMax x xs := by
    rw [arrayMax_eq]
    exact (List.max?_eq_some_iff.mp List.max?_cons').2
  have le : arrayMax x xs ≤ arrayMin x xs := not_lt.mp h
  intro y hy
  apply le_antisymm
  · exact ((greatest y hy).trans le).trans (least x List.mem_cons_self)
  · exact ((greatest x List.mem_cons_self).trans le).trans (least y hy)

variable [IsStrictOrderedRing F]

theorem mean_of_constant (h : ∀ y ∈ x :: xs, y = x) : mean (x :: xs) = x := by
  rw [mean, List.sum_eq_card_nsmul _ x h, nsmul_eq_mul]
  exact mul_div_cancel_left₀ x (Nat.cast_ne_zero.mpr (Nat.succ_ne_zero _))

theorem variance_of_constant (h : ∀ y ∈ x :: xs, y = x) : variance (x :: xs) = 0 := by
  have flat : squares (mean (x :: xs)) (x :: xs) = 0 := by
    rw [mean_of_constant h, squares]
    refine List.sum_eq_zero fun z hz => ?_
    obtain ⟨y, hy, rfl⟩ := List.mem_map.mp hz
    rw [h y hy, sub_self, zero_mul]
  rw [variance, flat, zero_div]

/-- Where mean and variance are not computed, they are what the computation would have given. -/
theorem meanVar_eq (x : Exact r) (xs : List (Exact r)) :
    Distribution.meanVar x xs = (mean (x :: xs), variance (x :: xs)) := by
  rw [Distribution.meanVar]
  by_cases varied : arrayMin x xs < arrayMax x xs
  · rw [if_pos (by simpa using varied)]
    simp only [arraySum_div, arraySum_eq]
    rfl
  · have constant := eq_of_not_lt varied
    rw [if_neg (by simpa using varied), mean_of_constant constant, variance_of_constant constant]
    rfl

theorem measure_eq (xs : List (Exact r)) : Distribution.measure xs = (mean xs, variance xs) := by
  cases xs with
  | nil => simp [Distribution.measure, mean, variance]
  | cons x xs => rw [Distribution.measure, meanVar_eq]; rfl

end Constant

/-! Populations. -/

section Populations

variable [IsStrictOrderedRing F] {bodies bodies' : List (Clause (Exact r))} {increment : Exact r}

theorem ofBodies_eq (bodies : List (Clause (Exact r))) (increment : Exact r) :
    Distribution.ofBodies bodies increment = .ok {
      sizeMean := mean (bodies.map fun c => (c.size : Exact r))
      sizeVar := variance (bodies.map fun c => (c.size : Exact r))
      glueMean := mean (bodies.map Clause.glue)
      glueVar := variance (bodies.map Clause.glue)
      activityMean := mean (bodies.map fun c => c.activity / increment)
      activityVar := variance (bodies.map fun c => c.activity / increment) } := by
  simp only [Distribution.ofBodies, toArray_eq, toElement_eq, ok_bind, measure_eq, List.map_map]
  rfl

/-- Bodies of the same sizes, glues and activities have the same distribution in every order. -/
theorem ofPopulation_congr
    (same : Corresponds (fun c d => c.size = d.size ∧ c.glue = d.glue ∧ c.activity = d.activity) bodies bodies')
    (increment : Exact r) :
    Distribution.ofPopulation bodies increment = Distribution.ofPopulation bodies' increment := by
  have sizes := same.map_perm (f := fun c => (c.size : Exact r)) (g := fun d => (d.size : Exact r))
    fun c d h => by rw [h.1]
  have glues := same.map_perm (f := Clause.glue) (g := Clause.glue) fun c d h => h.2.1
  have activities := same.map_perm (f := fun c => c.activity / increment)
    (g := fun d => d.activity / increment) fun c d h => by rw [h.2.2]
  have empty : bodies.isEmpty = bodies'.isEmpty := by
    rw [Bool.eq_iff_iff, List.isEmpty_iff_length_eq_zero, List.isEmpty_iff_length_eq_zero, same.length_eq]
  simp only [Distribution.ofPopulation, empty, ofBodies_eq, mean_perm sizes, mean_perm glues,
    mean_perm activities, variance_perm sizes, variance_perm glues, variance_perm activities]

theorem exists_ofPopulation (positive : Check.positive increment "cla_inc" = .ok ())
    (bodies : List (Clause (Exact r))) : ∃ d, Distribution.ofPopulation bodies increment = .ok d := by
  rw [Distribution.ofPopulation, positive, ok_bind, ofBodies_eq]
  split
  · exact ⟨_, rfl⟩
  · exact ⟨_, rfl⟩

end Populations

end ClauseFeatures.Exact
