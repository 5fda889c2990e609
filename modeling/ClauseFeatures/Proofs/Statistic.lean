import ClauseFeatures.Moment.Clause
import ClauseFeatures.Moment.Variable
import ClauseFeatures.Record
import ClauseFeatures.Proofs.Size

/-!
Running statistics and relative deviations of ratios of a known size. Each step succeeds; extremes, sum and
mean keep a size that depends on the number of ratios only, and a mean that is above the threshold is not
so small that the deviation over it could be too large.
-/
namespace ClauseFeatures

open Double

variable {l h : ℤ} {j k : ℕ} {x y : Float} {n : ℤ}

/-! Dynamic numbers. -/

namespace Value

theorem lt_number (a b : Number) : Quantity.lt (Value.number a) (.number b) = .ok (a.lt b) := rfl

theorem exists_number_of_lt {e : Number} {v : Value} (h : lt (.number e) v = .ok true) :
    ∃ a, v = .number a ∧ e.lt a = true := by
  cases v with
  | number a => exact ⟨a, rfl, Except.ok.inj h⟩
  | null | text _ | rawText _ | list _ | mapping _ => cases h

theorem lt_ofInt (n : ℤ) (b : Number) :
    Quantity.lt (Quantity.ofInt n) (Value.number b) = .ok (Number.lt (.int n) b) := rfl

theorem add_real (x y : Float) :
    Arithmetic.add (Value.real x) (.real y) = .ok (.real (x + y)) := rfl

theorem sub_real (x y : Float) :
    Arithmetic.sub (Value.real x) (.real y) = .ok (.real (x - y)) := rfl

section Operations

variable {a b c : Number}

theorem sub_number (h : a.sub b = .ok c) :
    Arithmetic.sub (Value.number a) (.number b) = .ok (.number c) := by
  show (a.sub b).map number = _
  rw [h]
  rfl

theorem mul_number (h : a.mul b = .ok c) :
    Arithmetic.mul (Value.number a) (.number b) = .ok (.number c) := by
  show (a.mul b).map number = _
  rw [h]
  rfl

theorem div_number (h : a.div b = .ok c) :
    Arithmetic.div (Value.number a) (.number b) = .ok (.number c) := by
  show (a.div b).map number = _
  rw [h]
  rfl

end Operations

theorem polarity_counts {a n : ℤ} (ha : IsCount a) (hn : IsDivisor n) :
    ∃ x, Ratio.polarity (int a) (int n) = .ok (real x) ∧ Sized (-53) 54 1 x := by
  obtain ⟨p, convertedP, finiteP, exactP⟩ := Number.toDouble_count ha
  obtain ⟨s, convertedS, finiteS, exactS⟩ := Number.toDouble_count hn.isCount
  obtain ⟨finite2s, exact2s⟩ := double_exact finiteS exactS hn.isCount
  refine ⟨Ratio.elementPolarity p s, ?_, sized_elementPolarity finiteP exactP ha finiteS exactS hn⟩
  have nonzero : value (2 * s) ≠ 0 := by
    have : (1 : ℚ) ≤ n := by exact_mod_cast hn.1
    rw [exact2s]
    positivity
  have twicePos : Arithmetic.mul Arithmetic.two (int a) = .ok (real (2 * p)) :=
    mul_number (Number.real_combine _ _ 2 convertedP)
  have balance : Arithmetic.sub (real (2 * p)) (int n) = .ok (real (2 * p - s)) :=
    sub_number (Number.real_combine _ _ (2 * p) convertedS)
  have twiceSize : Arithmetic.mul Arithmetic.two (int n) = .ok (real (2 * s)) :=
    mul_number (Number.real_combine _ _ 2 convertedS)
  have quotient : Arithmetic.div (real (2 * p - s)) (real (2 * s)) =
      .ok (real ((2 * p - s) / (2 * s))) := div_number (Number.div_doubles finite2s nonzero)
  unfold Ratio.polarity
  rw [twicePos, ok_bind, balance, ok_bind, twiceSize, ok_bind, quotient, ok_bind]
  exact add_real 0.5 _

end Value

/-! Running statistics. -/

/-- The size of the ratios of clauses and of variables. -/
abbrev IsRatio (x : Float) : Prop := Sized (-53) 54 1 x

/-- An extreme of a number of ratios; there is none of no ratios. -/
def IsExtreme (k : ℕ) (v : Option Value) : Prop :=
  v = none ∧ k = 0 ∨ ∃ x, v = some (.real x) ∧ IsRatio x

/-- A statistic of a number of ratios. -/
structure Running (k : ℕ) (s : RunningStat Value) : Prop where
  count : s.count = k
  total : ∃ x, s.total = .real x ∧ Sized (-53) 54 k x
  min : IsExtreme k s.min
  max : IsExtreme k s.max

def IsFinite (v : Value) : Prop := ∃ x, v = .real x ∧ x.isFinite

/-- A summary of finite doubles with a mean of a size. -/
structure Summarises (m : Summary Value) : Prop where
  finite : ∀ v ∈ m.fieldValues, IsFinite v
  mean : ∃ x, m.mean = .real x ∧ Sized (-106) 107 1 x

theorem Summarises.zero : Summarises .zero where
  finite := by
    simp only [Summary.fieldValues, Summary.zero, List.forall_mem_cons]
    have none : IsFinite Arithmetic.zero := ⟨0, rfl, rfl⟩
    exact ⟨none, none, none, none, none, nofun⟩
  mean := ⟨0, rfl, .zero rfl value_zero⟩

theorem improve_extreme (better : Value → Value → Except Failure Bool)
    (hb : ∀ a b : Number, ∃ r, better (.number a) (.number b) = .ok r) {v : Option Value}
    (hv : IsExtreme j v) (hx : IsRatio x) :
    ∃ w, RunningStat.improve better v (.real x) = .ok w ∧ IsExtreme k w := by
  have number : Quantity.isNaN (Value.real x) = false := isNaN_of_isFinite hx.finite
  rcases hv with ⟨rfl, -⟩ | ⟨y, rfl, hy⟩
  · obtain ⟨r, compared⟩ := hb (.real x) (.real 0)
    refine ⟨some (.real x), ?_, .inr ⟨x, rfl, hx⟩⟩
    unfold RunningStat.improve
    rw [show (none : Option Value).getD Arithmetic.zero = .real 0 from rfl, compared, ok_bind]
    simp only [number]
    rfl
  · obtain ⟨r, compared⟩ := hb (.real x) (.real y)
    refine ⟨some (.real (if r then x else y)), ?_, .inr ⟨_, rfl, ?_⟩⟩
    · unfold RunningStat.improve
      rw [show (some (Value.real y)).getD Arithmetic.zero = .real y from rfl, compared, ok_bind]
      cases r <;> rfl
    · split
      · exact hx
      · exact hy

namespace Running

theorem empty : Running 0 .empty where
  count := rfl
  total := ⟨0, rfl, .zero rfl value_zero⟩
  min := .inl ⟨rfl, rfl⟩
  max := .inl ⟨rfl, rfl⟩

variable {s : RunningStat Value}

theorem merge (hs : Running j s) {low high sum : Float} (hlow : IsRatio low) (hhigh : IsRatio high)
    (hsum : Sized (-53) 54 k sum) (hk : j + k ≤ 2 ^ 53) :
    ∃ s', s.merge (.real low) (.real high) (.real sum) k = (s', .ok ()) ∧ Running (j + k) s' := by
  obtain ⟨min, improvedMin, isMin⟩ := improve_extreme (k := j + k) Quantity.lt
    (fun a b => ⟨_, Value.lt_number a b⟩) hs.min hlow
  obtain ⟨max, improvedMax, isMax⟩ := improve_extreme (k := j + k)
    (fun a b => Quantity.lt b a) (fun a b => ⟨_, Value.lt_number b a⟩) hs.max hhigh
  obtain ⟨total, held, sized⟩ := hs.total
  have extended : s.extend (.real low) (.real high) = .ok { s with min, max } := by
    unfold RunningStat.extend
    rw [improvedMin, ok_bind, improvedMax, ok_bind]
    rfl
  refine ⟨{ s with min, max, total := .real (total + sum), count := s.count + k }, ?_,
    ⟨by rw [hs.count], ⟨_, rfl, sized.add hsum hk (by decide) (by decide) (by decide)⟩, isMin, isMax⟩⟩
  unfold RunningStat.merge
  rw [extended]
  simp only [held, Value.add_real]

theorem meanOver (hs : Running k s) (hk : k ≤ 2 ^ 53) (hn : IsDivisor n) :
    ∃ x, s.meanOver (.int n) = .ok (.real x) ∧ Sized (-106) 107 1 x := by
  obtain ⟨total, held, sized⟩ := hs.total
  obtain ⟨x, divided, size⟩ := Number.div_count sized hn hk (m := -106) (.inr (by decide))
    (by decide) (by decide)
  unfold RunningStat.meanOver
  rw [held, Value.lt_ofInt, Value.lt_ofInt, bothHold_ok, ok_bind]
  split
  · exact ⟨x, Value.div_number divided, size.widen _ hk (by decide)⟩
  · exact ⟨0, rfl, .zero rfl value_zero⟩

theorem summary (hs : Running k s) (hk : k ≤ 2 ^ 53) (hn : IsDivisor n) :
    ∃ m, s.summary (.int n) = .ok m ∧ Summarises m := by
  unfold RunningStat.summary
  split
  · exact ⟨_, rfl, Summarises.zero⟩
  · rename_i some
    rw [hs.count] at some
    obtain ⟨low, isLow, sizedLow⟩ := hs.min.resolve_left fun h => some h.2
    obtain ⟨high, isHigh, sizedHigh⟩ := hs.max.resolve_left fun h => some h.2
    obtain ⟨mean, computed, sized⟩ := hs.meanOver hk hn
    obtain ⟨spread, -⟩ := sizedHigh.square_sub sizedLow (by decide) (by decide)
    have least : s.least = .real low := by rw [RunningStat.least, isLow]; rfl
    have greatest : s.greatest = .real high := by rw [RunningStat.greatest, isHigh]; rfl
    rw [least, greatest, computed]
    refine ⟨_, rfl, ⟨?_, mean, rfl, sized⟩⟩
    simp only [Summary.fieldValues, List.forall_mem_cons]
    exact ⟨⟨_, rfl, sized.finite⟩, ⟨0, rfl, rfl⟩, ⟨_, rfl, sizedLow.finite⟩, ⟨_, rfl, sizedHigh.finite⟩,
      ⟨_, rfl, spread⟩, nofun⟩

end Running

/-! Deviations. -/

theorem relativeDeviation_finite {squares mean : Float} {e : Number} (hq : Sized (-1074) 214 k squares)
    (hk : k ≤ 2 ^ 53) (hn : IsDivisor n) (hm : Sized (-106) 107 1 mean) (he : e.IsThreshold) :
    ∃ v, Ratio.relativeDeviation (.real squares) (.int n) (.real mean) (.number e) = .ok v ∧
      IsFinite v := by
  unfold Ratio.relativeDeviation
  rw [Value.lt_number, Value.lt_number, Value.lt_ofInt, bothHold_ok, bothHold_ok, ok_bind]
  split
  · rename_i counts
    simp only [Bool.and_eq_true] at counts
    have positive := he.pos_of_lt hm.finite counts.2.1
    -- A mean above the threshold is not zero, and then it is not below `2 ^ (-106)`.
    have low := (hm.size.resolve_left positive.ne').1
    obtain ⟨variance, divided, sizedV⟩ := Number.div_count hq hn hk (m := -1074) (.inl rfl)
      (by decide) (by decide)
    obtain ⟨deviation, rooted, sizedD⟩ := Number.sqrt_sized (sizedV.widen 267 hk (by decide))
      (by decide) (by decide)
    have root : Arithmetic.sqrt (Value.real variance) = .ok (.real deviation) := by
      show (Number.sqrt (.real variance)).map Value.number = _
      rw [rooted]
      rfl
    have quotient := sizedD.div hm.finite low (m := -1074) (by decide) (.inl rfl) (by decide)
      (by decide)
    rw [Value.div_number divided, ok_bind, root, ok_bind,
      Value.div_number (Number.div_doubles hm.finite positive.ne')]
    exact ⟨_, rfl, _, rfl, quotient.finite⟩
  · exact ⟨_, rfl, 0, rfl, rfl⟩

end ClauseFeatures
