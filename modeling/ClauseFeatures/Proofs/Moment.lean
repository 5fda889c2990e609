import ClauseFeatures.Proofs.Occurrence
import ClauseFeatures.Proofs.Statistic

/-!
The moments never fail. As long as all counts are small enough to be doubles, the ratios of clauses and
variables, their means and their deviations are computed to the end, and every one of them is finite,
whatever the threshold of a configuration.
-/
namespace ClauseFeatures

open Double

/-- A fold succeeds with what each step passes on to a state that is one item further. -/
theorem foldlM_ok {α S : Type} {step : S → α → Except Failure S} {P : ℕ → S → Prop} {items : List α}
    {most : ℕ} (h : ∀ i s, ∀ x ∈ items, i < most → P i s → ∃ s', step s x = .ok s' ∧ P (i + 1) s')
    {i : ℕ} {s : S} (hs : P i s) (fits : i + items.length ≤ most) :
    ∃ s', items.foldlM step s = .ok s' ∧ P (i + items.length) s' := by
  induction items generalizing i s with
  | nil => exact ⟨s, rfl, hs⟩
  | cons x items ih =>
      rw [List.length_cons] at fits ⊢
      obtain ⟨s', stepped, hs'⟩ := h i s x List.mem_cons_self (by omega) hs
      obtain ⟨t, folded, ht⟩ := ih (fun j u y hy => h j u y (List.mem_cons_of_mem x hy)) hs' (by omega)
      refine ⟨t, by rw [List.foldlM_cons, stepped, ok_bind, folded], ?_⟩
      rwa [show i + (items.length + 1) = i + 1 + items.length by omega]

theorem Value.isZero_int (n : ℤ) : Quantity.isZero (Value.int n) = decide (n = 0) := by
  show (some (compare n 0) == some Ordering.eq) = _
  rw [Bool.eq_iff_iff]
  simp

/-! Clauses. -/

/-- Features of the clause side that are finite, with means of a size. -/
structure ClauseMoments.Fine (m : ClauseMoments Value) : Prop where
  binary : IsFinite m.binary
  ternary : IsFinite m.ternary
  horn : IsFinite m.horn
  density : Summarises m.density
  polarity : Summarises m.polarity

theorem isFinite_zero : IsFinite Arithmetic.zero := ⟨0, rfl, rfl⟩

/-- Clauses with as many literals as a double can count. -/
def ClauseView.Countable (v : ClauseView) : Prop := v.size ≠ 0 ∧ v.size ≤ 2 ^ 53

namespace ClauseView.Countable

variable {v : ClauseView}

theorem size (h : v.Countable) : IsDivisor (v.size : ℤ) := by
  obtain ⟨some, most⟩ := h
  exact ⟨by omega, by exact_mod_cast most⟩

theorem pos (h : v.Countable) : IsCount (v.pos : ℤ) := by
  have le : v.pos ≤ v.size := List.countP_le_length
  exact ⟨by omega, by exact_mod_cast le.trans h.2⟩

end ClauseView.Countable

namespace ClauseMoments

variable {v : ClauseView} {n : ℤ}

theorem densityOf_ratio (hv : v.Countable) (hn : IsDivisor n) :
    ∃ x, densityOf v (Value.int n) = .ok (.real x) ∧ IsRatio x := by
  obtain ⟨x, divided, sized⟩ := Number.div_counts hv.size.isCount hn
  refine ⟨x, Value.div_number divided, sized.mono le_rfl ?_⟩
  norm_num

theorem polarityOf_ratio (hv : v.Countable) :
    ∃ x, polarityOf (K := Value) v = .ok (.real x) ∧ IsRatio x :=
  Value.polarity_counts hv.pos hv.size

/-- Two statistics after some clauses. Each clause is counted in both, or in none without variables. -/
def RunningBoth (i : ℕ) (stats : RunningStat Value × RunningStat Value) : Prop :=
  ∃ j ≤ i, Running j stats.1 ∧ Running j stats.2

theorem addRatios_ok (hv : v.Countable) (hn : IsCount n) {i : ℕ} (hi : i < 2 ^ 53)
    {stats : RunningStat Value × RunningStat Value} (hs : RunningBoth i stats) :
    ∃ stats', addRatios (.int n) stats v = .ok stats' ∧ RunningBoth (i + 1) stats' := by
  obtain ⟨j, le, density, polarity⟩ := hs
  unfold addRatios
  split
  · exact ⟨stats, rfl, j, by omega, density, polarity⟩
  · rename_i counted
    have divisor : IsDivisor n := by
      rw [Value.isZero_int] at counted
      simp only [Bool.or_eq_true, decide_eq_true_eq, not_or] at counted
      exact ⟨by have := hn.1; omega, hn.2⟩
    obtain ⟨x, ratioX, isRatioX⟩ := densityOf_ratio hv divisor
    obtain ⟨y, ratioY, isRatioY⟩ := polarityOf_ratio hv
    obtain ⟨s, addedX, density⟩ := density.merge isRatioX isRatioX isRatioX (by omega)
    obtain ⟨t, addedY, polarity⟩ := polarity.merge isRatioY isRatioY isRatioY (by omega)
    refine ⟨(s, t), ?_, j + 1, by omega, density, polarity⟩
    rw [ratioX, ok_bind, RunningStat.add, addedX, ratioY]
    simp only [ok_bind, RunningStat.add, addedY]
    rfl

/-- What the moments ask of a traversal: that it comes to its end, and how many clauses and literals. -/
structure Traversable (t : Traversal) (clauses : ℤ) : Prop where
  finished : t.failure = none
  countable : ∀ v ∈ t.views, v.Countable
  length : (t.views.length : ℤ) = clauses
  fits : IsCount clauses

variable {t : Traversal} {clauses : ℤ}

theorem Traversable.fold_ok {S : Type} (h : Traversable t clauses)
    {step : S → ClauseView → Except Failure S} {P : ℕ → S → Prop}
    (hstep : ∀ i s, ∀ v, v.Countable → i < 2 ^ 53 → P i s → ∃ s', step s v = .ok s' ∧ P (i + 1) s')
    {s : S} (hs : P 0 s) : ∃ s', t.fold step s = .ok s' ∧ P t.views.length s' := by
  have fits : 0 + t.views.length ≤ 2 ^ 53 := by
    have := h.length
    have := h.fits.2
    omega
  obtain ⟨s', folded, hs'⟩ := foldlM_ok (fun i s v hv hi => hstep i s v (h.countable v hv) hi) hs fits
  refine ⟨s', ?_, by rwa [Nat.zero_add] at hs'⟩
  rw [Traversal.fold, folded, h.finished]
  rfl

theorem Traversable.length_le (h : Traversable t clauses) : t.views.length ≤ 2 ^ 53 := by
  have := h.length
  have := h.fits.2
  omega

theorem divisor_of_isZero (h : IsCount n) (nonzero : ¬ Quantity.isZero (Value.int n) = true) :
    IsDivisor n := by
  rw [Value.isZero_int, decide_eq_true_eq] at nonzero
  exact ⟨by have := h.1; omega, h.2⟩

variable {db : Database Value} {vars horn : ℤ}

theorem div_counts_finite {a : ℤ} (ha : IsCount a) (hn : IsDivisor n) :
    ∃ v, Arithmetic.div (Value.int a) (.int n) = .ok v ∧ IsFinite v := by
  obtain ⟨x, divided, sized⟩ := Number.div_counts ha hn
  exact ⟨_, Value.div_number divided, x, rfl, sized.finite⟩

theorem first_fine (h : Traversable db.traversal clauses) (hv : IsCount vars) (hh : IsCount horn)
    (binary : IsCount db.inline.irredBinary) (ternary : IsCount db.inline.irredTernary) :
    ∃ m, first db (.int vars) (.int clauses) (.int horn) = .ok m ∧ m.Fine := by
  unfold first
  split
  · exact ⟨_, rfl, isFinite_zero, isFinite_zero, isFinite_zero, .zero, .zero⟩
  · rename_i nonzero
    have divisor := divisor_of_isZero h.fits nonzero
    obtain ⟨stats, folded, j, le, density, polarity⟩ := h.fold_ok
      (fun i s v hw hi hs => addRatios_ok hw hv hi hs) (s := (.empty, .empty))
      ⟨0, le_rfl, .empty, .empty⟩
    have small := le.trans h.length_le
    obtain ⟨b, dividedB, finiteB⟩ := div_counts_finite binary divisor
    obtain ⟨c, dividedC, finiteC⟩ := div_counts_finite ternary divisor
    obtain ⟨d, dividedD, finiteD⟩ := div_counts_finite hh divisor
    obtain ⟨x, summaryX, fineX⟩ := density.summary small divisor
    obtain ⟨y, summaryY, fineY⟩ := polarity.summary small divisor
    refine ⟨⟨b, c, d, x, y⟩, ?_, finiteB, finiteC, finiteD, fineX, fineY⟩
    rw [folded, ok_bind, show Arithmetic.div (Quantity.ofInt db.inline.irredBinary) _ = _ from dividedB,
      ok_bind, show Arithmetic.div (Quantity.ofInt db.inline.irredTernary) _ = _ from dividedC, ok_bind,
      dividedD, ok_bind, summaryX, ok_bind, summaryY, ok_bind]
    rfl

/-- A sum of squared deviations after some numbers. -/
def SquaresOf (i : ℕ) (v : Value) : Prop := ∃ x, v = .real x ∧ Sized (-1074) 214 i x

theorem addSquare_ok {mean x : Float} (hm : Sized (-106) 107 1 mean) (hx : IsRatio x) {i : ℕ}
    (hi : i < 2 ^ 53) {sum : Value} (hs : SquaresOf i sum) :
    ∃ v, addSquare (.real mean) sum (.real x) = .ok v ∧ SquaresOf (i + 1) v := by
  obtain ⟨s, rfl, sized⟩ := hs
  obtain ⟨finite, square⟩ := hm.square_sub (hx.widen 107 (by decide) (by decide)) (by decide)
    (by decide)
  refine ⟨.real (s + (mean - x) * (mean - x)), ?_, _, rfl,
    sized.add square (by omega) (by decide) (by decide) (by decide)⟩
  have squared : Arithmetic.square (Value.real (mean - x)) =
      .ok (.real ((mean - x) * (mean - x))) := by
    show (if (mean - x).isFinite && !((mean - x) * (mean - x)).isFinite then _ else _ :
      Except Failure Number).map Value.number = _
    rw [square.finite, Bool.not_true, Bool.and_false]
    rfl
  unfold addSquare
  rw [Value.sub_real, ok_bind, squared, ok_bind, Value.add_real]

theorem addDeviations_ok {m : ClauseMoments Value} (hm : m.Fine) (hw : v.Countable)
    (hv : IsDivisor vars) {i : ℕ} (hi : i < 2 ^ 53) {sums : Value × Value}
    (hs : SquaresOf i sums.1 ∧ SquaresOf i sums.2) :
    ∃ sums', addDeviations m (.int vars) sums v = .ok sums' ∧
      SquaresOf (i + 1) sums'.1 ∧ SquaresOf (i + 1) sums'.2 := by
  obtain ⟨density, isMeanX, sizedX⟩ := hm.density.mean
  obtain ⟨polarity, isMeanY, sizedY⟩ := hm.polarity.mean
  obtain ⟨x, ratioX, isRatioX⟩ := densityOf_ratio hw hv
  obtain ⟨y, ratioY, isRatioY⟩ := polarityOf_ratio hw
  obtain ⟨s, addedX, isSumX⟩ := addSquare_ok sizedX isRatioX hi hs.1
  obtain ⟨t, addedY, isSumY⟩ := addSquare_ok sizedY isRatioY hi hs.2
  refine ⟨(s, t), ?_, isSumX, isSumY⟩
  unfold addDeviations
  rw [if_neg hw.1, ratioX, ok_bind, isMeanX, addedX, ok_bind, ratioY, ok_bind, isMeanY, addedY]
  rfl

theorem withStd {s : Summary Value} (hs : Summarises s) {v : Value} (hv : IsFinite v) :
    Summarises { s with std := v } where
  finite := by
    have finite := hs.finite
    simp only [Summary.fieldValues, List.forall_mem_cons] at finite ⊢
    exact ⟨finite.1, hv, finite.2.2⟩
  mean := hs.mean

theorem second_fine {e : Number} (he : e.IsThreshold) (h : Traversable db.traversal clauses)
    (hv : IsCount vars) {m : ClauseMoments Value} (hm : m.Fine) :
    ∃ m', second db m (.int vars) (.int clauses) (.number e) = .ok m' ∧ m'.Fine := by
  unfold second
  split
  · exact ⟨m, rfl, hm⟩
  · rename_i nonzero
    rw [Bool.or_eq_true, not_or] at nonzero
    have divisor := divisor_of_isZero h.fits nonzero.1
    have active := divisor_of_isZero hv nonzero.2
    have start : SquaresOf 0 (.real 0) := ⟨0, rfl, .zero rfl value_zero⟩
    obtain ⟨sums, folded, ⟨s, isSumX, sizedS⟩, t, isSumY, sizedT⟩ := h.fold_ok
      (P := fun i sums => SquaresOf i sums.1 ∧ SquaresOf i sums.2)
      (fun i sums v hw hi hs => addDeviations_ok hm hw active hi hs) (s := (Value.real 0, Value.real 0))
      ⟨start, start⟩
    obtain ⟨density, isMeanX, sizedX⟩ := hm.density.mean
    obtain ⟨polarity, isMeanY, sizedY⟩ := hm.polarity.mean
    obtain ⟨x, deviationX, finiteX⟩ := relativeDeviation_finite sizedS h.length_le divisor sizedX he
    obtain ⟨y, deviationY, finiteY⟩ := relativeDeviation_finite sizedT h.length_le divisor sizedY he
    refine ⟨{ m with density := { m.density with std := x }, polarity := { m.polarity with std := y } },
      ?_, hm.binary, hm.ternary, hm.horn, withStd hm.density finiteX, withStd hm.polarity finiteY⟩
    rw [show db.traversal.fold _ (Arithmetic.zero, Arithmetic.zero) = _ from folded, ok_bind, isSumX,
      isMeanX, deviationX, ok_bind, isSumY, isMeanY, deviationY]
    rfl

end ClauseMoments

/-! Variables. -/

/-- Counts of a bounded number of variables that the moments can divide. -/
structure Occurrences.Countable (occ : Occurrences) : Prop where
  pos : occ.pos.length = occ.size.length
  horn : occ.horn.length = occ.size.length
  size_count : ∀ n ∈ occ.size, IsCount n
  pos_count : ∀ n ∈ occ.pos, IsCount n
  horn_count : ∀ n ∈ occ.horn, IsCount n
  active : occ.activeCount ≤ 2 ^ 53

namespace Occurrences.Countable

variable {occ : Occurrences}

theorem few (h : occ.Countable) : occ.active.countP id ≤ 2 ^ 53 := by
  refine le_trans ?_ h.active
  rw [Occurrences.active, List.countP_map, activeCount]
  refine List.countP_mono_left fun n _ positive => ?_
  simp only [Function.comp_apply, id_eq, decide_eq_true_eq] at positive ⊢
  omega

theorem divisor (h : occ.Countable) {n : ℤ} (hn : (true, n) ∈ occ.active.zip occ.size) :
    IsDivisor n := by
  have flagged := List.zip_map' (f := fun n : ℤ => decide (0 < n)) (g := id) (l := occ.size)
  rw [List.map_id] at flagged
  rw [Occurrences.active, flagged] at hn
  obtain ⟨m, member, same⟩ := List.mem_map.mp hn
  obtain ⟨positive, rfl⟩ := Prod.mk.inj same
  exact ⟨of_decide_eq_true positive, (h.size_count _ member).2⟩

end Occurrences.Countable

namespace VariableRatios

theorem select_ok {A : Type} {flags : List Bool} {items : List A} (h : flags.length = items.length) :
    ∃ chosen, select flags items = .ok chosen ∧ chosen.length = flags.countP id ∧
      ∀ x ∈ chosen, (true, x) ∈ flags.zip items := by
  unfold select
  rw [if_pos (by simp [h])]
  refine ⟨_, rfl, ?_, fun x hx => ?_⟩
  · induction flags generalizing items with
    | nil => rfl
    | cons flag flags ih =>
        cases items with
        | nil => cases h
        | cons item items =>
            have ih := ih (Nat.succ.inj h)
            cases flag <;> simpa using ih
  · obtain ⟨⟨flag, item⟩, member, chosen⟩ := List.mem_filterMap.mp hx
    cases flag with
    | false => cases chosen
    | true =>
        cases chosen
        exact member

theorem toElements_ok {counts : List ℤ} (h : ∀ n ∈ counts, IsCount n) :
    ∃ xs, counts.mapM (fun n => Arithmetic.toElement (Quantity.ofInt n : Value)) = .ok xs ∧
      xs.length = counts.length ∧ ∀ x ∈ xs, ∃ n ∈ counts, x.isFinite = true ∧ value x = n := by
  induction counts with
  | nil => exact ⟨[], rfl, rfl, nofun⟩
  | cons n counts ih =>
      obtain ⟨x, converted, finite, exact⟩ := Number.toDouble_count (h n List.mem_cons_self)
      obtain ⟨xs, rest, length, members⟩ := ih fun m hm => h m (List.mem_cons_of_mem n hm)
      refine ⟨x :: xs, ?_, by rw [List.length_cons, length, List.length_cons], ?_⟩
      · rw [List.mapM_cons, rest]
        show (Number.toDouble (.int n) >>= fun x => _) = _
        rw [converted]
        rfl
      · intro y hy
        rcases List.mem_cons.mp hy with rfl | hy
        · exact ⟨n, List.mem_cons_self, finite, exact⟩
        · obtain ⟨m, hm, value⟩ := members y hy
          exact ⟨m, List.mem_cons_of_mem n hm, value⟩

variable {occ : Occurrences} {clauses : ℤ}

/-- A double that stands for the count of an active variable. -/
def IsCounted (occ : Occurrences) (counts : List ℤ) (x : Float) : Prop :=
  ∃ n, (true, n) ∈ occ.active.zip counts ∧ x.isFinite = true ∧ value x = n

theorem selected_ok {counts : List ℤ} (length : counts.length = occ.size.length)
    (h : ∀ n ∈ counts, IsCount n) :
    ∃ xs, selected (K := Value) occ.active counts = .ok xs ∧ xs.length = occ.active.countP id ∧
      ∀ x ∈ xs, IsCounted occ counts x := by
  have same : occ.active.length = counts.length := by rw [Occurrences.active, List.length_map, length]
  obtain ⟨chosen, selection, number, members⟩ := select_ok same
  obtain ⟨xs, converted, many, values⟩ := toElements_ok fun n hn =>
    h n (List.of_mem_zip (members n hn)).2
  refine ⟨xs, ?_, many.trans number, fun x hx => ?_⟩
  · unfold selected
    rw [selection, ok_bind, converted]
  · obtain ⟨n, hn, value⟩ := values x hx
    exact ⟨n, members n hn, value⟩

/-- Ratios of which there are not too many. -/
def Bounded (ratios : List Float) : Prop := (∀ x ∈ ratios, IsRatio x) ∧ ratios.length ≤ 2 ^ 53

theorem div_ratio {x y : Float} {a n : ℤ} (hx : x.isFinite) (exact : value x = a) (ha : IsCount a)
    (hy : y.isFinite) (exact' : value y = n) (hn : IsDivisor n) : IsRatio (x / y) := by
  obtain ⟨low, high⟩ := exact' ▸ hn.bounds
  have sized := (ha.sized hx exact).div (m := -53) hy low (by decide)
    (.inr ⟨53, high, by decide, by decide⟩) (by decide) (by decide)
  exact sized.mono le_rfl (by norm_num)

theorem bounded_div {xs : List Float} {y : Float} {counts : List ℤ}
    (members : ∀ x ∈ xs, IsCounted occ counts x) (few : xs.length ≤ 2 ^ 53)
    (h : ∀ n ∈ counts, IsCount n) (hy : y.isFinite) (exact : value y = clauses)
    (hc : IsDivisor clauses) : Bounded (xs.map (· / y)) := by
  refine ⟨?_, by rwa [List.length_map]⟩
  simp only [List.forall_mem_map]
  intro x hx
  obtain ⟨n, hn, finite, exact'⟩ := members x hx
  exact div_ratio finite exact' (h n (List.of_mem_zip hn).2) hy exact hc

theorem bounded_polarity (h : occ.Countable) {poss sizes : List Float}
    (memPos : ∀ x ∈ poss, IsCounted occ occ.pos x) (memSize : ∀ x ∈ sizes, IsCounted occ occ.size x)
    (few : poss.length ≤ 2 ^ 53) : Bounded (poss.zipWith Ratio.elementPolarity sizes) := by
  refine ⟨?_, by rw [List.length_zipWith]; omega⟩
  rw [← List.map_uncurry_zip_eq_zipWith]
  simp only [List.forall_mem_map]
  rintro ⟨p, s⟩ hx
  obtain ⟨hp, hs⟩ := List.of_mem_zip hx
  obtain ⟨a, ha, finiteP, exactP⟩ := memPos p hp
  obtain ⟨n, hn, finiteS, exactS⟩ := memSize s hs
  exact sized_elementPolarity finiteP exactP (h.pos_count a (List.of_mem_zip ha).2) finiteS exactS
    (h.divisor hn)

theorem ofOccurrences_ok (h : occ.Countable) (hc : IsDivisor clauses) :
    ∃ r, ofOccurrences (K := Value) occ (.int clauses) = .ok r ∧
      Bounded r.density ∧ Bounded r.polarity ∧ Bounded r.horn := by
  obtain ⟨sizes, selectedSize, lengthSize, memSize⟩ := selected_ok rfl h.size_count
  obtain ⟨poss, selectedPos, lengthPos, memPos⟩ := selected_ok h.pos h.pos_count
  obtain ⟨horns, selectedHorn, lengthHorn, memHorn⟩ := selected_ok h.horn h.horn_count
  obtain ⟨count, converted, finite, exact⟩ := Number.toDouble_count hc.isCount
  refine ⟨⟨sizes.map (· / count), poss.zipWith Ratio.elementPolarity sizes, horns.map (· / count)⟩, ?_,
    bounded_div memSize (lengthSize.trans_le h.few) h.size_count finite exact hc,
    bounded_polarity h memPos memSize (lengthPos.trans_le h.few),
    bounded_div memHorn (lengthHorn.trans_le h.few) h.horn_count finite exact hc⟩
  unfold ofOccurrences
  rw [selectedSize, ok_bind, selectedPos, ok_bind, selectedHorn, ok_bind,
    show Arithmetic.toElement (Value.int clauses) = Number.toDouble (.int clauses) from rfl, converted]
  rfl

end VariableRatios

/-- Features of the variable side that are finite, with means of a size. -/
structure VariableMoments.Fine (m : VariableMoments Value) : Prop where
  density : Summarises m.density
  polarity : Summarises m.polarity
  horn : Summarises m.horn

namespace VariableMoments

open VariableRatios

theorem accumulates_sized {l h : ℤ} (hl : -1074 ≤ l) (hh : -1074 ≤ h) (hh' : h ≤ 970) :
    Accumulates (Sized l h) (2 ^ 53) where
  zero := .zero rfl value_zero
  negativeZero := .zero rfl value_negativeZero
  add hx hy fits := hx.add hy fits hl hh hh'

theorem summaryOf_fine {ratios : List Float} (h : Bounded ratios) {vars : ℤ} (hv : IsDivisor vars) :
    ∃ s, summaryOf ratios (Value.int vars) = .ok s ∧ Summarises s := by
  obtain ⟨stat, added, k, small, running⟩ : ∃ stat,
      (RunningStat.empty : RunningStat Value).addArray ratios = (stat, .ok ()) ∧
        ∃ k ≤ 2 ^ 53, Running k stat := by
    cases ratios with
    | nil => exact ⟨_, rfl, 0, by decide, .empty⟩
    | cons x xs =>
        have sum := (accumulates_sized (by decide) (by decide) (by decide)).arraySum h.1 h.2
        obtain ⟨stat, merged, running⟩ := Running.empty.merge (h.1 _ (arrayMin_mem x xs))
          (h.1 _ (arrayMax_mem x xs)) sum (by rw [Nat.zero_add]; exact h.2)
        exact ⟨stat, merged, _, by rw [Nat.zero_add]; exact h.2, running⟩
  obtain ⟨s, summarised, fine⟩ := running.summary small hv
  refine ⟨s, ?_, fine⟩
  unfold summaryOf
  rw [added]
  exact summarised

variable {occ : Occurrences} {vars clauses : ℤ}

theorem first_fine (h : occ.Countable) (hv : IsCount vars) (hc : IsCount clauses) :
    ∃ m, first occ (Value.int vars) (.int clauses) = .ok m ∧ m.Fine := by
  unfold first
  split
  · exact ⟨_, rfl, .zero, .zero, .zero⟩
  · rename_i nonzero
    rw [Bool.or_eq_true, not_or] at nonzero
    have active := ClauseMoments.divisor_of_isZero hv nonzero.1
    have divisor := ClauseMoments.divisor_of_isZero hc nonzero.2
    obtain ⟨r, computed, density, polarity, horn⟩ := ofOccurrences_ok h divisor
    obtain ⟨x, summaryX, fineX⟩ := summaryOf_fine density active
    obtain ⟨y, summaryY, fineY⟩ := summaryOf_fine polarity active
    obtain ⟨z, summaryZ, fineZ⟩ := summaryOf_fine horn active
    refine ⟨⟨x, y, z⟩, ?_, fineX, fineY, fineZ⟩
    rw [computed, ok_bind, summaryX, ok_bind, summaryY, ok_bind, summaryZ]
    rfl

theorem withDeviation_fine {s : Summary Value} (hs : Summarises s) {ratios : List Float}
    (h : Bounded ratios) (hv : IsDivisor vars) {e : Number} (he : e.IsThreshold) :
    ∃ s', withDeviation s ratios (.int vars) (.number e) = .ok s' ∧ Summarises s' := by
  obtain ⟨mean, isMean, sized⟩ := hs.mean
  have squares : ∀ y ∈ ratios.map fun x => (mean - x) * (mean - x), Sized (-1074) 214 1 y := by
    simp only [List.forall_mem_map]
    intro x hx
    exact (sized.square_sub ((h.1 x hx).widen 107 (by decide) (by decide)) (by decide)
      (by decide)).2
  have sum := (accumulates_sized (by decide) (by decide) (by decide)).arraySum squares
    (by rw [List.length_map]; exact h.2)
  obtain ⟨std, computed, finite⟩ := relativeDeviation_finite sum
    (by rw [List.length_map]; exact h.2) hv sized he
  refine ⟨{ s with std }, ?_, ClauseMoments.withStd hs finite⟩
  unfold withDeviation
  rw [isMean]
  show (Ratio.relativeDeviation (Value.real (sumOfSquares mean ratios)) _ _ _ >>= _) = _
  rw [sumOfSquares, computed]
  rfl

theorem second_fine (h : occ.Countable) (hv : IsCount vars) (hc : IsCount clauses)
    {m : VariableMoments Value} (hm : m.Fine) {e : Number} (he : e.IsThreshold) :
    ∃ m', second occ m (.int vars) (.int clauses) (.number e) = .ok m' ∧ m'.Fine := by
  unfold second
  split
  · exact ⟨m, rfl, hm⟩
  · rename_i nonzero
    rw [Bool.or_eq_true, not_or] at nonzero
    have active := ClauseMoments.divisor_of_isZero hv nonzero.1
    have divisor := ClauseMoments.divisor_of_isZero hc nonzero.2
    obtain ⟨r, computed, density, polarity, horn⟩ := ofOccurrences_ok h divisor
    obtain ⟨x, deviationX, fineX⟩ := withDeviation_fine hm.density density active he
    obtain ⟨y, deviationY, fineY⟩ := withDeviation_fine hm.polarity polarity active he
    obtain ⟨z, deviationZ, fineZ⟩ := withDeviation_fine hm.horn horn active he
    refine ⟨⟨x, y, z⟩, ?_, fineX, fineY, fineZ⟩
    rw [computed, ok_bind, deviationX, ok_bind, deviationY, ok_bind, deviationZ]
    rfl

end VariableMoments

end ClauseFeatures
