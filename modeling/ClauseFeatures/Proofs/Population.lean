import ClauseFeatures.Proofs.Agreement
import ClauseFeatures.Proofs.Array
import ClauseFeatures.Proofs.Moment

/-!
Distributions of clause populations. Other than the moments they work on numbers of any magnitude: glues and
activities come from outside. Within some limits, far beyond what a solver gives, every mean and variance is
a finite double.
-/
namespace ClauseFeatures

open Double

theorem ofNat_exact {n : ℕ} (h : n ≤ 2 ^ 53) :
    (Element.ofNat n : Float).isFinite ∧ value (Element.ofNat n) = n := by
  have whole : ((n : ℚ) / (1 : ℕ)) = n := by rw [Nat.cast_one, div_one]
  have bound : (n : ℚ) ≤ (1 : ℕ) * 2 ^ (53 : ℤ) := by
    rw [Nat.cast_one, one_mul]
    exact_mod_cast h
  have le : ((n : ℚ) / (1 : ℕ)) ≤ limit :=
    whole.trans_le (Sized.le_limit (by decide) (by decide) bound)
  obtain ⟨finite, rounds⟩ := nearest_rounds (s := .positive) one_pos le
  rw [whole, factor, one_mul] at rounds
  exact ⟨finite, rounds.eq (.nat h)⟩

namespace Distribution

/-- Numbers from zero to `2 ^ 400`, of which there are not too many. -/
def Moderate (xs : List Float) : Prop := (∀ x ∈ xs, Sized (-1074) 400 1 x) ∧ xs.length ≤ 2 ^ 53

def IsFinite (d : Distribution Value) : Prop := ∀ v ∈ d.fieldValues, ClauseFeatures.IsFinite v

def IsReal (d : Distribution Value) : Prop := ∀ v ∈ d.fieldValues, ∃ x, v = .real x

/-- A value that an array holds as a number from zero to `2 ^ h`. -/
def Within (h : ℤ) (v : Value) : Prop := ∃ x, v.toDouble = .ok x ∧ Sized (-1074) h 1 x

theorem div_length {h : ℤ} {k : ℕ} {sum : Float} (hs : Sized (-1074) h k sum) (hk : k ≤ 2 ^ 53)
    (hh : -1074 ≤ h) (hh' : h ≤ 970) {n : ℕ} (some : 1 ≤ n) (most : n ≤ 2 ^ 53) :
    Sized (-1074) h k (sum / Element.ofNat n) := by
  obtain ⟨finite, exact⟩ := ofNat_exact most
  have low : 2 ^ (0 : ℤ) ≤ value (Element.ofNat n) := by
    rw [exact, zpow_zero]
    exact_mod_cast some
  have sized := hs.div finite low (m := -1074) hk (.inl rfl) (by omega) (by omega)
  rwa [sub_zero] at sized

theorem meanVar_finite {x : Float} {xs : List Float} (h : Moderate (x :: xs)) :
    (meanVar x xs).1.isFinite ∧ (meanVar x xs).2.isFinite := by
  obtain ⟨sized, few⟩ := h
  unfold meanVar
  dsimp only
  split
  · have some : 1 ≤ (x :: xs).length := Nat.le_add_left 1 xs.length
    have sum := (VariableMoments.accumulates_sized (by decide) (by decide) (by decide)).arraySum sized few
    have mean : Sized (-1074) 453 1 (Distribution.mean (x :: xs)) :=
      (div_length sum few (by decide) (by decide) some few).widen _ few (by decide)
    have squares : ∀ y ∈ (x :: xs).map fun y =>
        (Distribution.mean (x :: xs) - y) * (Distribution.mean (x :: xs) - y), Sized (-1074) 906 1 y := by
      simp only [List.forall_mem_map]
      intro y hy
      exact (mean.square_sub ((sized y hy).widen 453 (by decide) (by decide)) (by decide)
        (by decide)).2
    have few' : ((x :: xs).map fun y =>
        (Distribution.mean (x :: xs) - y) * (Distribution.mean (x :: xs) - y)).length ≤ 2 ^ 53 := by
      rwa [List.length_map]
    have total := (VariableMoments.accumulates_sized (by decide) (by decide) (by decide)).arraySum
      squares few'
    exact ⟨mean.finite, (div_length total few' (by decide) (by decide) some few).finite⟩
  · exact ⟨(sized x List.mem_cons_self).finite, show (0 : Float).isFinite = true from rfl⟩

theorem measure_real (xs : List Float) : ∃ m v, measure (K := Value) xs = (.real m, .real v) := by
  cases xs with
  | nil => exact ⟨0, 0, rfl⟩
  | cons x xs => exact ⟨_, _, rfl⟩

theorem measure_finite {xs : List Float} (h : Moderate xs) :
    ClauseFeatures.IsFinite (measure (K := Value) xs).1 ∧
      ClauseFeatures.IsFinite (measure (K := Value) xs).2 := by
  cases xs with
  | nil => exact ⟨isFinite_zero, isFinite_zero⟩
  | cons x xs =>
      obtain ⟨mean, variance⟩ := meanVar_finite h
      exact ⟨⟨_, rfl, mean⟩, _, rfl, variance⟩

theorem sizes_moderate {bodies : List (Clause Value)} (few : bodies.length ≤ 2 ^ 53)
    (small : ∀ c ∈ bodies, c.size ≤ 2 ^ 53) :
    Moderate (bodies.map fun c => (Element.ofNat c.size : Float)) := by
  refine ⟨?_, by rwa [List.length_map]⟩
  simp only [List.forall_mem_map]
  intro c hc
  obtain ⟨finite, exact⟩ := ofNat_exact (small c hc)
  refine .of_nonneg finite (by rw [exact]; positivity) ?_
  rw [exact]
  calc (c.size : ℚ) ≤ 2 ^ (53 : ℤ) := by exact_mod_cast small c hc
    _ ≤ 2 ^ (400 : ℤ) := zpow_le_zpow_right₀ (by norm_num) (by decide)
    _ = (1 : ℕ) * 2 ^ (400 : ℤ) := by rw [Nat.cast_one, one_mul]

theorem toArray_sized {items : List Value} {h : ℤ}
    (sized : ∀ v ∈ items, Within h v) :
    ∃ xs, Arithmetic.toArray items = .ok xs ∧ xs.length = items.length ∧
      ∀ x ∈ xs, Sized (-1074) h 1 x := by
  obtain ⟨xs, related⟩ := exists_forall₂ sized
  refine ⟨xs, Value.doubles_eq_ok (related.imp fun _ _ both => both.1), related.length_eq.symm, ?_⟩
  intro x hx
  obtain ⟨_, _, both⟩ := exists_of_forall₂ related x hx
  exact both.2

theorem units_moderate {xs : List Float} (few : xs.length ≤ 2 ^ 53)
    (sized : ∀ x ∈ xs, Sized (-1074) 300 1 x) {unit : Float} (finite : unit.isFinite)
    (low : 2 ^ (-100 : ℤ) ≤ value unit) : Moderate (xs.map (· / unit)) := by
  refine ⟨?_, by rwa [List.length_map]⟩
  simp only [List.forall_mem_map]
  intro x hx
  exact (sized x hx).div finite low (by decide) (.inl rfl) (by decide) (by decide)

theorem ofBodies_finite {bodies : List (Clause Value)} {increment : Value}
    (few : bodies.length ≤ 2 ^ 53) (small : ∀ c ∈ bodies, c.size ≤ 2 ^ 53)
    (glue : ∀ c ∈ bodies, Within 400 c.glue) (activity : ∀ c ∈ bodies, Within 300 c.activity)
    {unit : Float} (converted : increment.toDouble = .ok unit) (finite : unit.isFinite)
    (low : 2 ^ (-100 : ℤ) ≤ value unit) :
    ∃ d, ofBodies bodies increment = .ok d ∧ d.IsFinite := by
  obtain ⟨glues, arrayG, lengthG, sizedG⟩ := toArray_sized (List.forall_mem_map.mpr glue)
  obtain ⟨activities, arrayA, lengthA, sizedA⟩ := toArray_sized (List.forall_mem_map.mpr activity)
  rw [List.length_map] at lengthG lengthA
  have sizes := measure_finite (sizes_moderate few small)
  have glues' := measure_finite ⟨sizedG, lengthG.trans_le few⟩
  have activities' := measure_finite (units_moderate (lengthA.trans_le few) sizedA finite low)
  unfold ofBodies
  rw [arrayG, ok_bind, arrayA, ok_bind, show Arithmetic.toElement increment = .ok unit from converted,
    ok_bind]
  refine ⟨_, rfl, ?_⟩
  simp only [IsFinite, fieldValues, List.forall_mem_cons]
  exact ⟨sizes.1, sizes.2, glues'.1, glues'.2, activities'.1, activities'.2, nofun⟩

theorem ofPopulation_finite {bodies : List (Clause Value)} {increment : Value}
    (positive : Check.positive increment "cla_inc" = .ok ()) (few : bodies.length ≤ 2 ^ 53)
    (small : ∀ c ∈ bodies, c.size ≤ 2 ^ 53)
    (glue : ∀ c ∈ bodies, Within 400 c.glue) (activity : ∀ c ∈ bodies, Within 300 c.activity)
    {unit : Float} (converted : increment.toDouble = .ok unit) (finite : unit.isFinite)
    (low : 2 ^ (-100 : ℤ) ≤ value unit) :
    ∃ d, ofPopulation bodies increment = .ok d ∧ d.IsFinite := by
  unfold ofPopulation
  rw [positive, ok_bind]
  split
  · refine ⟨_, rfl, ?_⟩
    simp only [IsFinite, fieldValues, zero, List.forall_mem_cons]
    exact ⟨isFinite_zero, isFinite_zero, isFinite_zero, isFinite_zero, isFinite_zero, isFinite_zero, nofun⟩
  · exact ofBodies_finite few small glue activity converted finite low

/-- Whatever distribution is computed consists of doubles. -/
theorem ofOffsets_real {store : ClauseStore Value} {offsets : List Value} {increment : Value}
    {d : Distribution Value} (h : ofOffsets store offsets increment = .ok d) : d.IsReal := by
  obtain ⟨_, -, h⟩ := bind_eq_ok h
  split at h
  · cases h
    simp only [IsReal, fieldValues, zero, List.forall_mem_cons]
    exact ⟨⟨0, rfl⟩, ⟨0, rfl⟩, ⟨0, rfl⟩, ⟨0, rfl⟩, ⟨0, rfl⟩, ⟨0, rfl⟩, nofun⟩
  · obtain ⟨bodies, -, h⟩ := bind_eq_ok h
    obtain ⟨glues, -, h⟩ := bind_eq_ok h
    obtain ⟨activities, -, h⟩ := bind_eq_ok h
    obtain ⟨unit, -, h⟩ := bind_eq_ok h
    cases h
    have real (xs : List Float) : (∃ x, (measure (K := Value) xs).1 = .real x) ∧
        ∃ x, (measure (K := Value) xs).2 = .real x := by
      obtain ⟨m, v, measured⟩ := measure_real xs
      rw [measured]
      exact ⟨⟨m, rfl⟩, v, rfl⟩
    simp only [IsReal, fieldValues, List.forall_mem_cons]
    exact ⟨(real _).1, (real _).2, (real _).1, (real _).2, (real _).1, (real _).2, nofun⟩

end Distribution

theorem Database.tierDistribution_real {db : Database Value} {tier : Number} {d : Distribution Value}
    (h : db.tierDistribution tier = .ok d) : d.IsReal := by
  obtain ⟨_, -, h⟩ := bind_eq_ok h
  exact Distribution.ofOffsets_real h

end ClauseFeatures
