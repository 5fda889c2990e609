import ClauseFeatures.Proofs.Exact.Distribution

/-!
Summaries of populations in exact arithmetic. A running statistic knows its extremes only after a first number,
divides its sum only if that is positive, and a deviation is only taken where two thresholds are passed. For
numbers from zero on none of this shows: the summary of a population has the extremes, the mean and the
coefficient of variation that it is named for.
-/
namespace ClauseFeatures

variable {F : Type} [Field F] [LinearOrder F] {r : Reading F}

/-- A reading whose roots are what they are called: of a number from zero on, the number from zero on that
squares to it. -/
def Reading.TakesRoots (r : Reading F) : Prop := ∀ a, 0 ≤ a → 0 ≤ r.root a ∧ r.root a * r.root a = a

theorem Reading.takesRoots_sqrt {r : Reading ℝ} (h : r.root = Real.sqrt) : r.TakesRoots := by
  intro a ha
  rw [h]
  exact ⟨Real.sqrt_nonneg a, Real.mul_self_sqrt ha⟩

/-- The coefficient of variation of a population, or zero where a threshold is not passed. -/
def Exact.deviation (eps : Exact r) (xs : List (Exact r)) : Exact r :=
  if eps < squares (mean xs) xs ∧ eps < mean xs then (variance xs).root / mean xs else 0

namespace Summary

/-- A summary with the extremes, the spread and the mean of a population. -/
structure Describes (s : Summary (Exact r)) (xs : List (Exact r)) : Prop where
  min_mem : s.min ∈ xs
  max_mem : s.max ∈ xs
  bounds : ∀ x ∈ xs, s.min ≤ x ∧ x ≤ s.max
  spread : s.spread = s.max - s.min
  spread_nonneg : 0 ≤ s.spread
  mean : s.mean = Exact.mean xs
  min_le_mean : s.min ≤ s.mean
  mean_le_max : s.mean ≤ s.max

/-- A summary of a population with what the second passes compute for it. -/
structure Measures (eps : Exact r) (s : Summary (Exact r)) (xs : List (Exact r)) : Prop where
  describes : s.Describes xs
  std : s.std = Exact.deviation eps xs

/-- A summary with the coefficient of variation of a population, where this is not cut off by a threshold. -/
structure Deviates (eps : Exact r) (s : Summary (Exact r)) (xs : List (Exact r)) : Prop where
  nonneg : 0 ≤ s.std
  ne_zero_iff : s.std ≠ 0 ↔ eps < Exact.squares (Exact.mean xs) xs ∧ eps < Exact.mean xs
  variance : s.std ≠ 0 →
    s.std ^ 2 * Exact.mean xs ^ 2 = (xs.map (· ^ 2)).sum / xs.length - Exact.mean xs ^ 2
  of_spread : s.spread = 0 → s.std = 0
  eq_zero_iff : eps = 0 → (s.std = 0 ↔ s.spread = 0)

end Summary

namespace Exact

variable {xs : List (Exact r)} {a : Exact r}

theorem root_spec (roots : r.TakesRoots) (h : 0 ≤ a) : 0 ≤ a.root ∧ a.root * a.root = a := roots a h

theorem squares_cons (m x : Exact r) (xs : List (Exact r)) :
    squares m (x :: xs) = (m - x) * (m - x) + squares m xs := List.sum_cons

theorem squares_eq (m : Exact r) (xs : List (Exact r)) :
    squares m xs = (xs.map (· ^ 2)).sum - 2 * m * xs.sum + xs.length * m ^ 2 := by
  induction xs with
  | nil => simp [squares]
  | cons x xs ih =>
      rw [squares_cons, ih, List.map_cons, List.sum_cons, List.sum_cons, List.length_cons]
      push_cast
      ring

variable [IsStrictOrderedRing F]

theorem length_pos {α : Type} {as : List α} (some : as ≠ []) : (0 : Exact r) < as.length :=
  Nat.cast_pos.mpr (List.length_pos_of_ne_nil some)

theorem length_ne_zero {α : Type} {as : List α} (some : as ≠ []) : (as.length : Exact r) ≠ 0 :=
  (length_pos some).ne'

theorem le_mean (some : xs ≠ []) (h : ∀ x ∈ xs, a ≤ x) : a ≤ mean xs := by
  rw [mean, le_div_iff₀ (length_pos some), mul_comm, ← nsmul_eq_mul]
  exact List.card_nsmul_le_sum xs a h

theorem mean_le (some : xs ≠ []) (h : ∀ x ∈ xs, x ≤ a) : mean xs ≤ a := by
  rw [mean, div_le_iff₀ (length_pos some), mul_comm, ← nsmul_eq_mul]
  exact List.sum_le_card_nsmul xs a h

theorem variance_eq (some : xs ≠ []) :
    variance xs = (xs.map (· ^ 2)).sum / xs.length - mean xs ^ 2 := by
  have counts : (xs.length : Exact r) ≠ 0 := length_ne_zero some
  have total : xs.sum = mean xs * xs.length := (div_mul_cancel₀ xs.sum counts).symm
  rw [variance, squares_eq, total]
  field_simp
  ring

theorem eq_zero_of_mean (some : xs ≠ []) (nonneg : ∀ x ∈ xs, 0 ≤ x) (zero : mean xs = 0) :
    ∀ x ∈ xs, x = 0 := by
  have total : xs.sum = 0 := (div_eq_zero_iff.mp zero).resolve_right (length_ne_zero some)
  exact fun x hx => List.all_zero_of_le_zero_le_of_sum_eq_zero nonneg total hx

theorem squares_nonneg (m : Exact r) (xs : List (Exact r)) : 0 ≤ squares m xs := by
  refine List.sum_nonneg fun y hy => ?_
  obtain ⟨x, -, rfl⟩ := List.mem_map.mp hy
  exact mul_self_nonneg (m - x)

theorem squares_eq_zero_iff {m : Exact r} : squares m xs = 0 ↔ ∀ x ∈ xs, x = m := by
  induction xs with
  | nil => simp [squares]
  | cons x xs ih =>
      rw [squares_cons, add_eq_zero_iff_of_nonneg (mul_self_nonneg _) (squares_nonneg m xs), ih,
        mul_self_eq_zero, sub_eq_zero, List.forall_mem_cons, eq_comm]

end Exact

namespace Summary.Describes

variable {s : Summary (Exact r)} {xs : List (Exact r)} {a : Exact r}

theorem ne_nil (h : s.Describes xs) : xs ≠ [] := List.ne_nil_of_mem h.min_mem

theorem max_le_iff (h : s.Describes xs) : s.max ≤ a ↔ ∀ x ∈ xs, x ≤ a :=
  ⟨fun le x hx => (h.bounds x hx).2.trans le, fun le => le s.max h.max_mem⟩

theorem lt_min_iff (h : s.Describes xs) : a < s.min ↔ ∀ x ∈ xs, a < x :=
  ⟨fun lt x hx => lt.trans_le (h.bounds x hx).1, fun lt => lt s.min h.min_mem⟩

theorem min_eq_iff (h : s.Describes xs) (least : ∀ x ∈ xs, a ≤ x) : s.min = a ↔ a ∈ xs := by
  constructor
  · rintro rfl
    exact h.min_mem
  · exact fun member => le_antisymm (h.bounds a member).1 (least s.min h.min_mem)

theorem max_eq_iff (h : s.Describes xs) (greatest : ∀ x ∈ xs, x ≤ a) : s.max = a ↔ a ∈ xs := by
  constructor
  · rintro rfl
    exact h.max_mem
  · exact fun member => le_antisymm (greatest s.max h.max_mem) (h.bounds a member).2

theorem measures (h : s.Describes xs) (eps : Exact r) :
    Measures eps { s with std := Exact.deviation eps xs } xs := ⟨{ h with }, rfl⟩

variable [IsStrictOrderedRing F]

/-- Nothing is spread exactly if no number deviates from the mean. -/
theorem spread_eq_zero_iff (h : s.Describes xs) :
    s.spread = 0 ↔ Exact.squares (Exact.mean xs) xs = 0 := by
  rw [Exact.squares_eq_zero_iff, ← h.mean, h.spread, sub_eq_zero]
  constructor
  · intro flat x hx
    have bounds := h.bounds x hx
    rw [flat] at bounds
    have mean := h.min_le_mean
    exact le_antisymm (bounds.2.trans (flat ▸ mean)) (h.mean_le_max.trans (flat ▸ bounds.1))
  · intro constant
    rw [constant s.max h.max_mem, constant s.min h.min_mem]

end Summary.Describes

/-- A population of so many numbers, all from zero on. -/
structure Exact.Population (n : Nat) (xs : List (Exact r)) : Prop where
  length : xs.length = n
  nonneg : ∀ x ∈ xs, 0 ≤ x

section Populations

variable [IsStrictOrderedRing F] {n : Nat} {xs : List (Exact r)}

/-- The statistic of a population has a summary over it, and the gate before the mean makes no difference. -/
theorem Exact.Population.exists_describes (h : Population n xs) (some : n ≠ 0) :
    ∃ s, (RunningStat.ofList xs).summary (n : Exact r) = .ok s ∧ s.Describes xs := by
  obtain ⟨rfl, nonneg⟩ := h
  have some : xs ≠ [] := List.ne_nil_of_length_pos (Nat.pos_of_ne_zero some)
  obtain ⟨low, least⟩ := Option.isSome_iff_exists.mp (List.isSome_min?_of_ne_nil some)
  obtain ⟨high, greatest⟩ := Option.isSome_iff_exists.mp (List.isSome_max?_of_ne_nil some)
  obtain ⟨lowMem, low_le⟩ := List.min?_eq_some_iff.mp least
  obtain ⟨highMem, le_high⟩ := List.max?_eq_some_iff.mp greatest
  have counts : (RunningStat.ofList xs).count ≠ 0 := mt List.length_eq_zero_iff.mp some
  have mean : (if 0 < xs.sum ∧ (0 : Exact r) < xs.length then xs.sum / xs.length else 0) = Exact.mean xs := by
    by_cases positive : 0 < xs.sum
    · exact if_pos ⟨positive, Exact.length_pos some⟩
    · have zero : xs.sum = 0 := le_antisymm (not_lt.mp positive) (List.sum_nonneg nonneg)
      rw [if_neg fun h => positive h.1, Exact.mean, zero, zero_div]
  have reported : (RunningStat.ofList xs).least = low ∧ (RunningStat.ofList xs).greatest = high := by
    rw [RunningStat.least, RunningStat.greatest, RunningStat.ofList, least, greatest]
    exact ⟨rfl, rfl⟩
  refine ⟨⟨low, high, high - low, Exact.mean xs, 0⟩, ?_, ?_⟩
  · rw [RunningStat.summary_eq counts, reported.1, reported.2, ← mean]
    rfl
  · exact {
      min_mem := lowMem
      max_mem := highMem
      bounds := fun x hx => ⟨low_le x hx, le_high x hx⟩
      spread := rfl
      spread_nonneg := sub_nonneg.mpr (low_le high highMem)
      mean := rfl
      min_le_mean := Exact.le_mean some low_le
      mean_le_max := Exact.mean_le some le_high }

namespace Summary

variable {s : Summary (Exact r)} {eps : Exact r}

/-- Beyond both thresholds the coefficient of variation is positive, and its square the variance over the
square of the mean. -/
theorem Describes.deviates_of_gates (h : s.Describes xs) (roots : r.TakesRoots) (he : 0 ≤ eps)
    (above : eps < Exact.squares (Exact.mean xs) xs) (large : eps < Exact.mean xs) :
    Deviates eps { s with std := (Exact.variance xs).root / Exact.mean xs } xs := by
  have mean : 0 < Exact.mean xs := he.trans_lt large
  have varied : 0 < Exact.variance xs := div_pos (he.trans_lt above) (Exact.length_pos h.ne_nil)
  obtain ⟨nonneg, squared⟩ := Exact.root_spec roots varied.le
  have root : 0 < (Exact.variance xs).root := by
    refine lt_of_le_of_ne nonneg fun vanishes => varied.ne ?_
    rw [← squared, ← vanishes, mul_zero]
  have positive := div_pos root mean
  have spread : s.spread ≠ 0 := fun flat => (he.trans_lt above).ne' (h.spread_eq_zero_iff.mp flat)
  refine ⟨positive.le, ⟨fun _ => ⟨above, large⟩, fun _ => positive.ne'⟩, fun _ => ?_, fun flat => ?_,
    fun _ => ⟨fun vanishes => ?_, fun flat => ?_⟩⟩
  · rw [← Exact.variance_eq h.ne_nil, div_pow, div_mul_cancel₀ _ (pow_ne_zero 2 mean.ne'), pow_two]
    exact squared
  · exact absurd flat spread
  · exact absurd vanishes positive.ne'
  · exact absurd flat spread

/-- Without the thresholds passed the deviation is left at zero. With no threshold at all this only happens to
a population of equal numbers, since numbers from zero on have a positive mean or are all zero. -/
theorem Describes.deviates_of_not (h : s.Describes xs) (nonneg : ∀ x ∈ xs, 0 ≤ x)
    (short : ¬ (eps < Exact.squares (Exact.mean xs) xs ∧ eps < Exact.mean xs)) :
    Deviates eps { s with std := 0 } xs := by
  refine ⟨le_refl 0, ⟨fun h => absurd rfl h, fun gates => absurd gates short⟩, fun h => absurd rfl h,
    fun _ => rfl, ?_⟩
  rintro rfl
  refine ⟨fun _ => ?_, fun _ => rfl⟩
  rw [h.spread_eq_zero_iff]
  by_contra varied
  have above : 0 < Exact.squares (Exact.mean xs) xs :=
    lt_of_le_of_ne (Exact.squares_nonneg _ xs) (Ne.symm varied)
  have flat : Exact.mean xs = 0 :=
    le_antisymm (not_lt.mp fun large => short ⟨above, large⟩) (Exact.le_mean h.ne_nil nonneg)
  refine varied (Exact.squares_eq_zero_iff.mpr fun x hx => ?_)
  rw [flat]
  exact Exact.eq_zero_of_mean h.ne_nil nonneg flat x hx

/-- What the second passes compute for a population is its deviation. -/
theorem Describes.relativeDeviation_eq (h : s.Describes xs) (population : Exact.Population n xs) (he : 0 ≤ eps) :
    Ratio.relativeDeviation (Exact.squares s.mean xs) (n : Exact r) s.mean eps = .ok (Exact.deviation eps xs) := by
  rw [Ratio.relativeDeviation_eq he, h.mean, ← population.length]
  simp only [Exact.length_pos h.ne_nil, and_true]
  rfl

theorem Measures.deviates (h : Measures eps s xs) (population : Exact.Population n xs) (roots : r.TakesRoots)
    (he : 0 ≤ eps) : Deviates eps s xs := by
  have filled : s = { s with std := Exact.deviation eps xs } := by rw [← h.std]
  rw [filled, Exact.deviation]
  split
  · rename_i gates
    exact h.describes.deviates_of_gates roots he gates.1 gates.2
  · rename_i short
    exact h.describes.deviates_of_not population.nonneg short

end Summary

end Populations

end ClauseFeatures
