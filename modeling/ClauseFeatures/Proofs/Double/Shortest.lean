import ClauseFeatures.Double.Shortest
import ClauseFeatures.Proofs.Double.Nearest

/-!
The shortest decimal of a double reads back. It is searched for among the numbers around the double, those
that lie within half a step of its mantissa; whatever lies there is rounded to the double again. The search
ends because 18 digits are finer than a step.
-/
namespace ClauseFeatures.Double

open Float.Model Float.Model.UnpackedFloat

variable {m num den : ℕ} {e : ℤ} {z : ℚ}

/-! What is rounded to a double. -/

/-- How far below a mantissa the numbers reach that are rounded to it. -/
def reach (m : ℕ) (e : ℤ) : ℚ := if m = twoTo 52 ∧ leastExponent < e then 1 / 4 else 1 / 2

/-- The numbers that are rounded to a double, in units of the last digit of its mantissa. Those just between
two doubles are rounded to the even one. -/
structure Around (m : ℕ) (e : ℤ) (z : ℚ) : Prop where
  low : m - reach m e ≤ z
  high : z ≤ m + 1 / 2
  inside : m % 2 ≠ 0 → m - reach m e < z ∧ z < m + 1 / 2

theorem reach_le (m : ℕ) (e : ℤ) : 1 / 4 ≤ reach m e ∧ reach m e ≤ 1 / 2 := by
  rw [reach]
  split <;> norm_num

section Half

variable (hd : 0 < den) (k : ℤ)

include hd

theorem half_le_div_iff : (k / 2 : ℚ) ≤ num / den ↔ k * den ≤ 2 * num := by
  rw [div_le_div_iff₀ two_pos (by exact_mod_cast hd), mul_comm (num : ℚ)]
  exact_mod_cast Iff.rfl

theorem div_le_half_iff : (num / den : ℚ) ≤ k / 2 ↔ 2 * num ≤ k * den := by
  rw [div_le_div_iff₀ (by exact_mod_cast hd) two_pos, mul_comm (num : ℚ)]
  exact_mod_cast Iff.rfl

end Half

theorem roundDiv_cases (num den : ℕ) : roundDiv num den = num / den ∨ roundDiv num den = num / den + 1 := by
  unfold roundDiv
  dsimp only
  split_ifs
  · exact .inl rfl
  · exact .inr rfl
  · omega

theorem roundDiv_eq (hd : 0 < den) (low : (m - 1 / 2 : ℚ) ≤ num / den) (high : (num / den : ℚ) ≤ m + 1 / 2)
    (inside : m % 2 ≠ 0 → (m - 1 / 2 : ℚ) < num / den ∧ (num / den : ℚ) < m + 1 / 2) :
    roundDiv num den = m := by
  have lower : (m - 1 / 2 : ℚ) = (2 * m - 1 : ℤ) / 2 := by
    push_cast
    ring
  have upper : (m + 1 / 2 : ℚ) = (2 * m + 1 : ℤ) / 2 := by
    push_cast
    ring
  rw [lower, half_le_div_iff hd] at low
  rw [upper, div_le_half_iff hd] at high
  rw [lower, upper, ← not_le, ← not_le, div_le_half_iff hd, half_le_div_iff hd] at inside
  obtain ⟨w, hw⟩ : ∃ w, w = num / den := ⟨_, rfl⟩
  obtain ⟨r, hr⟩ : ∃ r, r = num % den := ⟨_, rfl⟩
  have split : (num : ℤ) = w * den + r := by
    rw [hw, hr]
    exact_mod_cast (Nat.div_add_mod' num den).symm
  have rest : r < den := hr ▸ Nat.mod_lt num hd
  rw [split] at low high inside
  -- The whole part is the mantissa or the one below it, and the rest tells which.
  have le : w ≤ m := by
    by_contra above
    have : ((m + 1) * den : ℤ) ≤ w * den := by exact_mod_cast Nat.mul_le_mul_right den (not_le.mp above)
    linarith
  have ge : m ≤ w + 1 := by
    by_contra below
    have : ((w + 2) * den : ℤ) ≤ m * den := by exact_mod_cast Nat.mul_le_mul_right den (not_le.mp below)
    linarith
  unfold roundDiv
  simp only [← hw, ← hr]
  rcases Nat.lt_or_eq_of_le le with less | rfl
  · obtain rfl : m = w + 1 := by omega
    push_cast at low inside
    have half : den ≤ 2 * r := by linarith
    rw [if_neg (by omega)]
    split_ifs with more
    · rfl
    · have even : (w + 1) % 2 = 0 := by
        by_contra odd
        obtain ⟨strict, -⟩ := inside odd
        exact strict (by linarith)
      omega
  · have half : 2 * r ≤ den := by linarith
    split_ifs with less more
    · rfl
    · omega
    · have even : w % 2 = 0 := by
        by_contra odd
        obtain ⟨-, strict⟩ := inside odd
        exact strict (by linarith)
      omega

/-- The exponent to which a number is rounded is the only one that leaves 53 digits, or the least one. -/
theorem roundingExponent_eq (hd : 0 < den) (least : -1074 ≤ e) (below : (num / den / 2 ^ e : ℚ) < 2 ^ 53)
    (normal : e = -1074 ∨ (2 ^ 52 : ℚ) ≤ num / den / 2 ^ e) : roundingExponent num den = e := by
  obtain ⟨least', below', normal'⟩ := roundingExponent_spec num hd
  generalize roundingExponent num den = f at least' below' normal' ⊢
  have apart {s t : ℤ} (less : s < t) (long : (2 ^ 52 : ℚ) ≤ num / den / 2 ^ t)
      (short : (num / den / 2 ^ s : ℚ) < 2 ^ 53) : False := by
    have step : (2 : ℚ) ^ (s + 1) ≤ 2 ^ t := zpow_le_zpow_right₀ (by norm_num) less
    rw [zpow_add_one₀ (by norm_num)] at step
    rw [le_div_iff₀ (by positivity)] at long
    rw [div_lt_iff₀ (by positivity)] at short
    linarith
  rcases lt_trichotomy f e with less | same | greater
  · exact (apart less (normal.resolve_left (by omega)) below').elim
  · exact same
  · exact (apart greater (normal'.resolve_left (by omega)) below).elim

theorem nearest_eq {s : Sign} {t : ℤ} {k : ℕ} (hd : 0 < den) (exponent : roundingExponent num den = t)
    (low : (k - 1 / 2 : ℚ) ≤ num / den / 2 ^ t) (high : (num / den / 2 ^ t : ℚ) ≤ k + 1 / 2)
    (inside : k % 2 ≠ 0 → (k - 1 / 2 : ℚ) < num / den / 2 ^ t ∧ (num / den / 2 ^ t : ℚ) < k + 1 / 2) :
    nearest (isSet s) num den = pack (isSet s) k t := by
  obtain ⟨positive, value⟩ := scaled_spec num hd t
  rw [← value] at low high inside
  unfold nearest
  rw [exponent]
  exact congrArg (pack (isSet s) · t) (roundDiv_eq positive low high inside)

theorem nearest_around {s : Sign} (small : m < 2 ^ 53) (least : -1074 ≤ e)
    (normal : 2 ^ 52 ≤ m ∨ e = -1074) (hd : 0 < den) (around : Around m e (num / den / 2 ^ e))
    (le : (m * 2 ^ e : ℚ) ≤ limit) :
    (nearest (isSet s) num den).isFinite ∧ value (nearest (isSet s) num den) = factor s * (m * 2 ^ e) := by
  obtain ⟨low, high, inside⟩ := around
  obtain ⟨-, short⟩ := reach_le m e
  have below : (num / den / 2 ^ e : ℚ) < 2 ^ 53 := by
    have : (m : ℚ) + 1 ≤ 2 ^ 53 := by exact_mod_cast small
    linarith
  by_cases digits : e = -1074 ∨ (2 ^ 52 : ℚ) ≤ num / den / 2 ^ e
  · have same : nearest (isSet s) num den = pack (isSet s) m e := by
      refine nearest_eq hd (roundingExponent_eq hd least below digits) (by linarith) high fun odd => ?_
      obtain ⟨above, below⟩ := inside odd
      exact ⟨by linarith, below⟩
    rw [same]
    exact pack_exact small.le least normal le
  · -- Just below a power of two the numbers have one more digit, and it is rounded to that power.
    obtain ⟨above, few⟩ := not_or.mp digits
    rw [not_le] at few
    have long : 2 ^ 52 ≤ m := normal.resolve_right above
    have power : m = 2 ^ 52 := by
      by_contra other
      have : (2 ^ 52 : ℚ) + 1 ≤ m := by exact_mod_cast Nat.lt_of_le_of_ne long (Ne.symm other)
      linarith
    have quarter : reach m e = 1 / 4 := if_pos ⟨power, lt_of_le_of_ne least (Ne.symm above)⟩
    have unit : (2 : ℚ) ^ e = 2 ^ (e - 1) * 2 := by
      rw [← zpow_add_one₀ (by norm_num), sub_add_cancel]
    have twice : (num / den / 2 ^ (e - 1) : ℚ) = 2 * (num / den / 2 ^ e) := by
      rw [unit]
      field_simp
    have digit : (m : ℚ) = 2 ^ 52 := by exact_mod_cast power
    have exponent : roundingExponent num den = e - 1 :=
      roundingExponent_eq hd (by omega) (by linarith) (.inr (by linarith))
    have same : nearest (isSet s) num den = pack (isSet s) (2 ^ 53) (e - 1) := by
      refine nearest_eq hd exponent ?_ ?_ fun odd => absurd (by norm_num) odd
      · push_cast
        linarith
      · push_cast
        linarith
    have value : ((2 ^ 53 : ℕ) * 2 ^ (e - 1) : ℚ) = m * 2 ^ e := by
      rw [digit, unit]
      push_cast
      ring
    rw [same, ← value]
    exact pack_exact le_rfl (by omega) (.inl (by norm_num)) (value.trans_le le)

/-! The neighbourhood of a double. -/

theorem neighbourhood_spec (hm : 0 < m) (e : ℤ) :
    0 < (neighbourhood m e).den ∧
    ((neighbourhood m e).low : ℚ) = (m - reach m e) * 2 ^ e * (neighbourhood m e).den ∧
    ((neighbourhood m e).value : ℚ) = m * 2 ^ e * (neighbourhood m e).den ∧
    ((neighbourhood m e).high : ℚ) = (m + 1 / 2) * 2 ^ e * (neighbourhood m e).den ∧
    (neighbourhood m e).closed = decide (m % 2 = 0) := by
  obtain ⟨positive, unit⟩ := fraction_spec 1 (e - 2)
  have quarter : (2 : ℚ) ^ e = 2 ^ (e - 2) * 4 := by
    rw [zpow_sub₀ (by norm_num)]
    norm_num
  obtain ⟨below, hb⟩ : ∃ below, below = if m = twoTo 52 ∧ leastExponent < e then 1 else 2 := ⟨_, rfl⟩
  have reached : below ≤ 4 * m ∧ (below : ℚ) = 4 * reach m e := by
    rw [hb, reach]
    split
    · exact ⟨by omega, by norm_num⟩
    · exact ⟨by omega, by norm_num⟩
  unfold neighbourhood
  simp only [← hb]
  refine ⟨positive, ?_, ?_, ?_, trivial⟩
  · push_cast [Nat.cast_sub reached.1]
    rw [unit, reached.2, quarter]
    push_cast
    ring
  · push_cast
    rw [unit, quarter]
    push_cast
    ring
  · push_cast
    rw [unit, quarter]
    push_cast
    ring

theorem contains_iff (hm : 0 < m) (hd : 0 < den) :
    (neighbourhood m e).contains num den = true ↔ Around m e (num / den / 2 ^ e) := by
  obtain ⟨positive, low, -, high, closed⟩ := neighbourhood_spec hm e
  generalize neighbourhood m e = nb at positive low high closed
  have den' : (0 : ℚ) < den := by exact_mod_cast hd
  have nbDen : (0 : ℚ) < nb.den := by exact_mod_cast positive
  have unit : (0 : ℚ) < 2 ^ e := by positivity
  have scale (q : ℚ) : q * 2 ^ e * nb.den * den = q * (2 ^ e * nb.den * den) := by ring
  have point : (num * nb.den : ℚ) = num / den / 2 ^ e * (2 ^ e * nb.den * den) := by field_simp
  have factor : (0 : ℚ) < 2 ^ e * nb.den * den := by positivity
  have lowLe : nb.low * den ≤ num * nb.den ↔ m - reach m e ≤ num / den / 2 ^ e := by
    rw [← Nat.cast_le (α := ℚ), Nat.cast_mul, Nat.cast_mul, low, point, scale, mul_le_mul_iff_left₀ factor]
  have highLe : num * nb.den ≤ nb.high * den ↔ num / den / 2 ^ e ≤ (m + 1 / 2 : ℚ) := by
    rw [← Nat.cast_le (α := ℚ), Nat.cast_mul, Nat.cast_mul, high, point, scale, mul_le_mul_iff_left₀ factor]
  have lowLt : nb.low * den < num * nb.den ↔ m - reach m e < num / den / 2 ^ e := by
    rw [← Nat.cast_lt (α := ℚ), Nat.cast_mul, Nat.cast_mul, low, point, scale, mul_lt_mul_iff_left₀ factor]
  have highLt : num * nb.den < nb.high * den ↔ num / den / 2 ^ e < (m + 1 / 2 : ℚ) := by
    rw [← Nat.cast_lt (α := ℚ), Nat.cast_mul, Nat.cast_mul, high, point, scale, mul_lt_mul_iff_left₀ factor]
  unfold Neighbourhood.contains
  rw [closed]
  by_cases even : m % 2 = 0
  · simp only [even, decide_true, ite_true, Bool.and_eq_true, decide_eq_true_eq, lowLe, highLe]
    exact ⟨fun h => ⟨h.1, h.2, fun odd => absurd even odd⟩, fun h => ⟨h.low, h.high⟩⟩
  · simp only [even, decide_false, Bool.false_eq_true, ite_false, Bool.and_eq_true, decide_eq_true_eq, lowLt,
      highLt]
    exact ⟨fun h => ⟨h.1.le, h.2.le, fun _ => h⟩, fun h => h.inside even⟩

/-! The search. -/

def Decimal.value (d : Decimal) : ℚ := d.digits * 10 ^ d.exponent

/-- A power of ten as a fraction. -/
theorem ten_fraction (t : ℤ) {unit : ℕ × ℕ}
    (h : unit = if 0 ≤ t then (tenTo t.toNat, 1) else (1, tenTo (-t).toNat)) :
    0 < unit.1 ∧ 0 < unit.2 ∧ (unit.1 / unit.2 : ℚ) = 10 ^ t := by
  have positive (n : ℕ) : 0 < tenTo n := Nat.pow_pos (by decide)
  rw [h]
  split
  · refine ⟨positive _, Nat.one_pos, ?_⟩
    show ((10 ^ t.toNat : ℕ) / (1 : ℕ) : ℚ) = 10 ^ t
    obtain ⟨n, rfl⟩ := Int.eq_ofNat_of_zero_le (by assumption : 0 ≤ t)
    push_cast
    rw [div_one, zpow_natCast, Int.toNat_natCast]
  · refine ⟨Nat.one_pos, positive _, ?_⟩
    show ((1 : ℕ) / (10 ^ (-t).toNat : ℕ) : ℚ) = 10 ^ t
    obtain ⟨n, hn⟩ := Int.eq_ofNat_of_zero_le (show 0 ≤ -t by omega)
    obtain rfl : t = -n := by omega
    push_cast
    rw [neg_neg, Int.toNat_natCast, zpow_neg, zpow_natCast, one_div]

section OnGrid

variable {nb : Neighbourhood} {magnitude : ℤ} {count : ℕ} {unit unitDen : ℕ}
  (hu : (unit, unitDen) = if 0 ≤ magnitude - count then (tenTo (magnitude - count).toNat, 1)
    else (1, tenTo (-(magnitude - count)).toNat))

include hu

theorem contains_of_onGrid {d : Decimal} (h : nb.onGrid magnitude count = some d) :
    nb.contains (d.digits * unit) unitDen = true ∧ d.exponent = magnitude - count := by
  unfold Neighbourhood.onGrid at h
  simp only [← hu] at h
  split at h
  · cases h
  · rename_i floor _
    cases h
    exact ⟨floor, rfl⟩
  · rename_i next
    cases h
    exact ⟨next, rfl⟩
  · rename_i floor next
    cases h
    refine ⟨?_, rfl⟩
    obtain down | up := roundDiv_cases (nb.value * unitDen) (nb.den * unit)
    · rwa [down]
    · rwa [up]

theorem onGrid_of_contains
    (next : nb.contains ((nb.value * unitDen / (nb.den * unit) + 1) * unit) unitDen = true) :
    ∃ d, nb.onGrid magnitude count = some d := by
  unfold Neighbourhood.onGrid
  simp only [← hu, next]
  cases nb.contains (nb.value * unitDen / (nb.den * unit) * unit) unitDen with
  | true | false => exact ⟨_, rfl⟩

end OnGrid

/-- On a grid finer than half a step the next point lies in the upper half. -/
theorem around_next {k : ℕ} {u : ℚ} (here : k * u ≤ m * 2 ^ e) (next : m * 2 ^ e < (k + 1 : ℕ) * u)
    (fine : u < 2 ^ e / 2) : Around m e ((k + 1 : ℕ) * u / 2 ^ e) := by
  have step : (0 : ℚ) < 2 ^ e := by positivity
  have reached : (0 : ℚ) < reach m e := by linarith [(reach_le m e).1]
  have low : m - reach m e < (k + 1 : ℕ) * u / 2 ^ e := by
    rw [lt_div_iff₀ step]
    linarith [mul_pos reached step]
  have high : (k + 1 : ℕ) * u / 2 ^ e < (m + 1 / 2 : ℚ) := by
    rw [div_lt_iff₀ step]
    push_cast
    linarith
  exact ⟨low.le, high.le, fun _ => ⟨low, high⟩⟩

theorem onGrid_spec (hm : 0 < m) (e magnitude : ℤ) (count : ℕ) :
    (∀ d, (neighbourhood m e).onGrid magnitude count = some d → Around m e (d.value / 2 ^ e)) ∧
      ((10 : ℚ) ^ (magnitude - count) < 2 ^ e / 2 →
        ∃ d, (neighbourhood m e).onGrid magnitude count = some d) := by
  obtain ⟨positive, -, center, -, -⟩ := neighbourhood_spec hm e
  obtain ⟨unit, unitDen, hu⟩ : ∃ unit unitDen : ℕ,
      (unit, unitDen) = if 0 ≤ magnitude - count then (tenTo (magnitude - count).toNat, 1)
        else (1, tenTo (-(magnitude - count)).toNat) := ⟨_, _, rfl⟩
  obtain ⟨up, down, power⟩ := ten_fraction (magnitude - count) hu
  have inside (k : ℕ) : (neighbourhood m e).contains (k * unit) unitDen = true ↔
      Around m e (k * 10 ^ (magnitude - count) / 2 ^ e) := by
    rw [contains_iff hm down, ← power]
    push_cast
    rw [mul_div_assoc]
  refine ⟨fun d found => ?_, fun fine => onGrid_of_contains hu ((inside _).mpr ?_)⟩
  · obtain ⟨hit, same⟩ := contains_of_onGrid hu found
    rw [Decimal.value, same]
    exact (inside _).mp hit
  · obtain ⟨num, hn⟩ : ∃ num, num = (neighbourhood m e).value * unitDen := ⟨_, rfl⟩
    obtain ⟨den, hd⟩ : ∃ den, den = (neighbourhood m e).den * unit := ⟨_, rfl⟩
    rw [← hn, ← hd]
    have denPos : 0 < den := hd ▸ Nat.mul_pos positive up
    have unitPos : (0 : ℚ) < 10 ^ (magnitude - count) := by positivity
    have quotient : (num / den : ℚ) * 10 ^ (magnitude - count) = m * 2 ^ e := by
      have nbDen : ((neighbourhood m e).den : ℚ) ≠ 0 := by exact_mod_cast positive.ne'
      have up : (unit : ℚ) ≠ 0 := by exact_mod_cast up.ne'
      have down : (unitDen : ℚ) ≠ 0 := by exact_mod_cast down.ne'
      rw [hn, hd, ← power]
      push_cast
      rw [center]
      field_simp
    have ltNext : (num / den : ℚ) < (num / den + 1 : ℕ) := by
      rw [div_lt_iff₀ (by exact_mod_cast denPos)]
      exact_mod_cast Nat.lt_mul_of_div_lt (Nat.lt_succ_self _) denPos
    refine around_next ?_ ?_ fine
    · rw [← quotient]
      exact mul_le_mul_of_nonneg_right Nat.cast_div_le unitPos.le
    · rw [← quotient]
      exact mul_lt_mul_of_pos_right ltNext unitPos

theorem search_around (hm : 0 < m) {magnitude : ℤ} {fuel count k : ℕ} (from_ : count ≤ k)
    (till : k < count + fuel) (fine : (10 : ℚ) ^ (magnitude - k) < 2 ^ e / 2) :
    Around m e (((neighbourhood m e).search magnitude count fuel).value / 2 ^ e) := by
  induction fuel generalizing count with
  | zero => omega
  | succ fuel ih =>
      obtain ⟨hit, found⟩ := onGrid_spec hm e magnitude count
      unfold Neighbourhood.search
      cases tried : (neighbourhood m e).onGrid magnitude count with
      | some d => exact hit d tried
      | none =>
          refine ih ?_ (by omega)
          by_contra reached
          obtain rfl : count = k := by omega
          obtain ⟨d, some⟩ := found fine
          rw [tried] at some
          cases some

theorem value_trim (d : Decimal) : d.trim.value = d.value := by
  have go (fuel digits : ℕ) (exponent : ℤ) :
      (Decimal.trim.go digits exponent fuel).value = Decimal.value ⟨digits, exponent⟩ := by
    induction fuel generalizing digits exponent with
    | zero => rfl
    | succ fuel ih =>
        rw [Decimal.trim.go]
        split
        · rename_i zero
          have whole : (digits : ℚ) = (digits / 10 : ℕ) * 10 := by
            exact_mod_cast (Nat.div_mul_cancel (Nat.dvd_of_mod_eq_zero zero.2)).symm
          rw [ih, Decimal.value, Decimal.value, whole, zpow_add_one₀ (by norm_num)]
          ring
        · rfl
  exact go 400 d.digits d.exponent

/-! The order of magnitude. -/

/-- A binary digit is worth slightly more than `0.30102` decimal ones. -/
theorem ten_zpow_le {b q : ℤ} (hb : -18000 ≤ b) (hq : 100000 * q ≤ 30102 * b) :
    (10 : ℚ) ^ (q - 1) ≤ 2 ^ b := by
  rcases le_total 0 b with nonneg | negative
  · have power : ((10 : ℚ) ^ (q - 1)) ^ 196 ≤ (2 ^ b) ^ 196 := by
      obtain ⟨n, rfl⟩ := Int.eq_ofNat_of_zero_le nonneg
      calc ((10 : ℚ) ^ (q - 1)) ^ 196 = 10 ^ (196 * (q - 1)) := by rw [← zpow_natCast, ← zpow_mul, mul_comm]; rfl
        _ ≤ 10 ^ ((59 * n : ℕ) : ℤ) := zpow_le_zpow_right₀ (by norm_num) (by push_cast; omega)
        _ = (10 ^ 59) ^ n := by rw [zpow_natCast, pow_mul]
        _ ≤ (2 ^ 196) ^ n := pow_le_pow_left₀ (by norm_num) (by norm_num) n
        _ = (2 ^ (n : ℤ)) ^ 196 := by rw [zpow_natCast, ← pow_mul, ← pow_mul, mul_comm]
    exact le_of_pow_le_pow_left₀ (by norm_num) (by positivity) power
  · have power : ((10 : ℚ) ^ (q - 1)) ^ 93 ≤ (2 ^ b) ^ 93 := by
      obtain ⟨n, hn⟩ := Int.eq_ofNat_of_zero_le (show 0 ≤ -b by omega)
      obtain rfl : b = -n := by omega
      calc ((10 : ℚ) ^ (q - 1)) ^ 93 = 10 ^ (93 * (q - 1)) := by rw [← zpow_natCast, ← zpow_mul, mul_comm]; rfl
        _ ≤ 10 ^ (-((28 * n : ℕ) : ℤ)) := zpow_le_zpow_right₀ (by norm_num) (by push_cast; omega)
        _ = ((10 ^ 28) ^ n)⁻¹ := by rw [zpow_neg, zpow_natCast, pow_mul]
        _ ≤ ((2 ^ 93) ^ n)⁻¹ := inv_anti₀ (by positivity) (pow_le_pow_left₀ (by norm_num) (by norm_num) n)
        _ = (2 ^ (-(n : ℤ))) ^ 93 := by rw [zpow_neg, zpow_natCast, inv_pow, ← pow_mul, ← pow_mul, mul_comm]
    exact le_of_pow_le_pow_left₀ (by norm_num) (by positivity) power

theorem le_binaryLength_sub (hn : 0 < num) (hd : 0 < den) {k : ℤ} (low : (2 : ℚ) ^ k ≤ num / den) :
    k ≤ (binaryLength num : ℤ) - binaryLength den := by
  obtain ⟨-, high⟩ := binaryLength_spec hn
  obtain ⟨short, -⟩ := binaryLength_spec hd
  generalize (binaryLength num : ℤ) = a at high ⊢
  generalize (binaryLength den : ℤ) = b at short ⊢
  have positive : (0 : ℚ) < den := by exact_mod_cast hd
  have bound : (num / den : ℚ) < 2 ^ (a - b + 1) := by
    rw [zpow_add_one₀ (by norm_num), zpow_sub₀ (by norm_num), div_mul_eq_mul_div,
      div_lt_div_iff₀ positive (by positivity)]
    nlinarith [show (0 : ℚ) < 2 ^ a by positivity]
  have := (zpow_lt_zpow_iff_right₀ (by norm_num : (1 : ℚ) < 2)).mp (low.trans_lt bound)
  omega

theorem decimalMagnitude_le (hn : 0 < num) (hd : 0 < den)
    (range : -18000 ≤ (binaryLength num : ℤ) - binaryLength den - 1) :
    (10 : ℚ) ^ (decimalMagnitude num den - 1) ≤ num / den := by
  obtain ⟨b, hb⟩ : ∃ b : ℤ, b = (binaryLength num : ℤ) - binaryLength den - 1 := ⟨_, rfl⟩
  obtain ⟨estimate, he⟩ : ∃ estimate : ℤ, estimate = Int.fdiv (b * 30102) 100000 := ⟨_, rfl⟩
  have positive : (0 : ℚ) < den := by exact_mod_cast hd
  have least : (2 : ℚ) ^ b ≤ num / den := by
    obtain ⟨low, -⟩ := binaryLength_spec hn
    obtain ⟨-, high⟩ := binaryLength_spec hd
    have unit : (0 : ℚ) < 2 ^ (binaryLength den : ℤ) := by positivity
    rw [hb, zpow_sub₀ (by norm_num), zpow_sub₀ (by norm_num), zpow_one, div_div,
      div_le_div_iff₀ (by positivity) positive]
    nlinarith
  have floor : 100000 * estimate ≤ 30102 * b := by
    have := Int.mul_fdiv_self_le (x := b * 30102) (k := 100000) (by norm_num)
    omega
  have below (t : ℤ) : (if 0 ≤ t then decide (num < den * tenTo t.toNat)
      else decide (num * tenTo (-t).toNat < den)) = true ↔ (num / den : ℚ) < 10 ^ t := by
    obtain ⟨-, -, power⟩ := ten_fraction t rfl
    rw [← power]
    split
    · rw [decide_eq_true_eq, Nat.cast_one, div_one, div_lt_iff₀ positive, mul_comm den]
      exact_mod_cast Iff.rfl
    · have down : (0 : ℚ) < tenTo (-t).toNat := by exact_mod_cast Nat.pow_pos (show 0 < 10 by decide)
      rw [decide_eq_true_eq, div_lt_div_iff₀ positive down, Nat.cast_one, one_mul]
      exact_mod_cast Iff.rfl
  have estimated : ¬ (num / den : ℚ) < 10 ^ (estimate - 1) :=
    not_lt.mpr ((ten_zpow_le (hb ▸ range) floor).trans least)
  unfold decimalMagnitude
  simp only [← hb, ← he, below]
  rw [if_neg estimated]
  split_ifs with first second
  · exact not_lt.mp estimated
  · rw [add_sub_cancel_right]
    exact not_lt.mp first
  · rw [show estimate + 2 - 1 = estimate + 1 by ring]
    exact not_lt.mp second

/-! The decimal. -/

section Positive

variable (pos : 0 < m) (small : m < 2 ^ 53) (least : -1074 ≤ e)

include pos small least

theorem shortest_around : Around m e ((shortest m e).value / 2 ^ e) := by
  obtain ⟨den, -, center, -, -⟩ := neighbourhood_spec pos e
  have den' : (0 : ℚ) < (neighbourhood m e).den := by exact_mod_cast den
  have step : (0 : ℚ) < 2 ^ e := by positivity
  have quotient : ((neighbourhood m e).value / (neighbourhood m e).den : ℚ) = m * 2 ^ e := by
    rw [center, mul_div_assoc, div_self den'.ne', mul_one]
  have one : (1 : ℚ) ≤ m := by exact_mod_cast pos
  have num : 0 < (neighbourhood m e).value := by
    have : (0 : ℚ) < (neighbourhood m e).value := by
      rw [center]
      positivity
    exact_mod_cast this
  have range : -18000 ≤ (binaryLength (neighbourhood m e).value : ℤ) - binaryLength (neighbourhood m e).den - 1 := by
    have low : (2 : ℚ) ^ (-1074 : ℤ) ≤ (neighbourhood m e).value / (neighbourhood m e).den := by
      rw [quotient]
      exact (zpow_le_zpow_right₀ (by norm_num) least).trans (le_mul_of_one_le_left step.le one)
    have := le_binaryLength_sub num den low
    omega
  have magnitude := decimalMagnitude_le num den range
  rw [quotient] at magnitude
  have search : shortest m e = ((neighbourhood m e).search
      (decimalMagnitude (neighbourhood m e).value (neighbourhood m e).den) 1 18).trim := by
    rw [shortest, if_neg pos.ne']
  rw [search, value_trim]
  generalize decimalMagnitude (neighbourhood m e).value (neighbourhood m e).den = top at magnitude ⊢
  refine search_around pos (k := 18) (by norm_num) (by norm_num) ?_
  have digits : (m : ℚ) ≤ 2 ^ 53 := by exact_mod_cast small.le
  have shift : (10 : ℚ) ^ (top - (18 : ℕ)) = 10 ^ (top - 1) / 10 ^ 17 := by
    rw [eq_div_iff (by norm_num), ← zpow_natCast (10 : ℚ) 17, ← zpow_add₀ (by norm_num)]
    congr 1
    push_cast
    ring
  rw [shift, div_lt_iff₀ (by norm_num)]
  calc (10 : ℚ) ^ (top - 1) ≤ m * 2 ^ e := magnitude
    _ ≤ 2 ^ 53 * 2 ^ e := mul_le_mul_of_nonneg_right digits step.le
    _ < 2 ^ e / 2 * 10 ^ 17 := by linarith

omit pos small least in
theorem toDigits_spec {n : ℕ} (hn : 0 < n) {length : ℕ} (hl : length = (Nat.toDigits 10 n).length) :
    (10 : ℚ) ^ ((length : ℤ) - 1) ≤ n ∧ (n : ℚ) < 10 ^ (length : ℤ) := by
  have some : 0 < length := hl ▸ Nat.length_toDigits_pos
  have high : n < 10 ^ length := (Nat.length_toDigits_le_iff (by norm_num) some).mp hl.ge
  refine ⟨?_, by exact_mod_cast high⟩
  obtain ⟨k, rfl⟩ : ∃ k, length = k + 1 := ⟨length - 1, by omega⟩
  rw [Nat.cast_succ, add_sub_cancel_right, zpow_natCast]
  cases k with
  | zero => exact_mod_cast hn
  | succ k =>
      have low : ¬ n < 10 ^ (k + 1) := fun less => by
        have := (Nat.length_toDigits_le_iff (b := 10) (by norm_num) (Nat.succ_pos k)).mpr less
        omega
      exact_mod_cast not_lt.mp low

omit pos small least in
/-- What is neither tiny nor huge has its leading digit in a range of places. -/
theorem leading_range {digits : ℕ} {exponent : ℤ} (hn : 0 < digits)
    (low : (2 : ℚ) ^ (-1075 : ℤ) ≤ digits * 10 ^ exponent) (high : (digits * 10 ^ exponent : ℚ) < 10 ^ (310 : ℤ)) :
    -330 ≤ (Nat.toDigits 10 digits).length + exponent ∧ (Nat.toDigits 10 digits).length + exponent ≤ 310 := by
  obtain ⟨length, hl⟩ : ∃ length, length = (Nat.toDigits 10 digits).length := ⟨_, rfl⟩
  obtain ⟨most, less⟩ := toDigits_spec hn hl
  rw [← hl]
  have unit : (0 : ℚ) < 10 ^ exponent := by positivity
  constructor
  · by_contra below
    have : (digits * 10 ^ exponent : ℚ) < 10 ^ (-331 : ℤ) :=
      calc (digits * 10 ^ exponent : ℚ) < 10 ^ (length : ℤ) * 10 ^ exponent :=
            mul_lt_mul_of_pos_right less unit
        _ = 10 ^ ((length : ℤ) + exponent) := (zpow_add₀ (by norm_num) _ _).symm
        _ ≤ 10 ^ (-331 : ℤ) := zpow_le_zpow_right₀ (by norm_num) (by omega)
    have ten : (10 : ℚ) ^ (-331 : ℤ) ≤ 2 ^ (-1075 : ℤ) := ten_zpow_le (q := -330) (by norm_num) (by norm_num)
    exact absurd (low.trans_lt this) (not_lt.mpr ten)
  · by_contra above
    have : (10 : ℚ) ^ (310 : ℤ) ≤ digits * 10 ^ exponent :=
      calc (10 : ℚ) ^ (310 : ℤ) ≤ 10 ^ ((length : ℤ) - 1 + exponent) :=
            zpow_le_zpow_right₀ (by norm_num) (by omega)
        _ = 10 ^ ((length : ℤ) - 1) * 10 ^ exponent := zpow_add₀ (by norm_num) _ _
        _ ≤ digits * 10 ^ exponent := mul_le_mul_of_nonneg_right most unit.le
    exact absurd high (not_lt.mpr this)

omit small in
/-- What lies around a double is neither tiny nor huge. -/
theorem around_range {q : ℚ} (le : (m * 2 ^ e : ℚ) ≤ limit) (around : Around m e (q / 2 ^ e)) :
    (2 : ℚ) ^ (-1075 : ℤ) ≤ q ∧ q < 10 ^ (310 : ℤ) := by
  have step : (0 : ℚ) < 2 ^ e := by positivity
  have one : (1 : ℚ) ≤ m := by exact_mod_cast pos
  obtain ⟨low, high, -⟩ := around
  rw [le_div_iff₀ step] at low
  rw [div_le_iff₀ step] at high
  constructor
  · calc (2 : ℚ) ^ (-1075 : ℤ) = 1 / 2 * 2 ^ (-1074 : ℤ) := by
          rw [show (-1075 : ℤ) = -1074 - 1 by norm_num, zpow_sub_one₀ (by norm_num)]
          ring
      _ ≤ 1 / 2 * 2 ^ e := mul_le_mul_of_nonneg_left (zpow_le_zpow_right₀ (by norm_num) least) (by norm_num)
      _ ≤ (m - reach m e) * 2 ^ e := mul_le_mul_of_nonneg_right (by linarith [(reach_le m e).2]) step.le
      _ ≤ q := low
  · have ten : ((10 : ℚ) ^ (310 : ℤ))⁻¹ ≤ (2 ^ (1024 : ℤ))⁻¹ := by
      rw [← zpow_neg, ← zpow_neg]
      exact ten_zpow_le (b := -1024) (q := -309) (by norm_num) (by norm_num)
    calc q ≤ (m + 1 / 2) * 2 ^ e := high
      _ < 2 * m * 2 ^ e := mul_lt_mul_of_pos_right (by linarith) step
      _ ≤ 2 * limit := by linarith
      _ = 2 ^ (1024 : ℤ) := by rw [limit, ← zpow_one_add₀ (by norm_num)]; rfl
      _ ≤ 10 ^ (310 : ℤ) := (inv_le_inv₀ (by positivity) (by positivity)).mp ten

/-- A decimal around a double is read as that double. -/
theorem ofDecimal_around {s : Sign} {d : Decimal} (normal : 2 ^ 52 ≤ m ∨ e = -1074)
    (le : (m * 2 ^ e : ℚ) ≤ limit) (around : Around m e (d.value / 2 ^ e)) :
    (ofDecimal (isSet s) d.digits d.exponent).isFinite ∧
      value (ofDecimal (isSet s) d.digits d.exponent) = factor s * (m * 2 ^ e) := by
  obtain ⟨digits, exponent⟩ := d
  obtain ⟨low, high⟩ := around_range pos least le around
  have digitsPos : 0 < digits := by
    by_contra none
    obtain rfl : digits = 0 := by omega
    rw [Decimal.value, Nat.cast_zero, zero_mul] at low
    exact absurd low (not_le.mpr (by positivity))
  obtain ⟨notBelow, notAbove⟩ := leading_range digitsPos low high
  obtain ⟨up, down, power⟩ := ten_fraction exponent rfl
  unfold ofDecimal
  rw [if_neg digitsPos.ne']
  dsimp only
  rw [if_neg (not_lt.mpr notAbove), if_neg (not_lt.mpr notBelow)]
  rw [Decimal.value, ← power] at around
  split
  · rename_i whole
    rw [if_pos whole, Nat.cast_one, div_one] at around
    refine nearest_around small least normal Nat.one_pos ?_ le
    push_cast
    rw [div_one]
    exact_mod_cast around
  · rename_i whole
    rw [if_neg whole, Nat.cast_one, mul_one_div] at around
    exact nearest_around small least normal (Nat.pow_pos (by norm_num)) around le

end Positive

theorem ofDecimal_zero {d : Decimal} (h : d.value = 0) :
    (ofDecimal false d.digits d.exponent).isFinite ∧ value (ofDecimal false d.digits d.exponent) = 0 := by
  have none : d.digits = 0 := by
    have unit : (10 : ℚ) ^ d.exponent ≠ 0 := by positivity
    exact_mod_cast (mul_eq_zero.mp h).resolve_right unit
  have le : ((0 : ℕ) / (1 : ℕ) : ℚ) ≤ limit := by
    rw [Nat.cast_zero, zero_div]
    exact zero_le_one.trans one_le_limit
  obtain ⟨finite, rounds⟩ := nearest_rounds (s := .positive) Nat.one_pos le
  rw [Nat.cast_zero, zero_div, mul_zero] at rounds
  rw [ofDecimal, if_pos none]
  exact ⟨finite, rounds.eq .zero⟩

/-- Every decimal that stands for the same number as the shortest one is read as the double. Of the negative
zero only the sign is lost. -/
theorem ofDecimal_shortest {x : Float} (hx : x.isFinite) (nonneg : 0 ≤ value x) (le : value x ≤ limit) :
    ∃ negative m e, parts x = .finite negative m e ∧
      (negative = true → m = 0 ∧ value x = 0) ∧
      ∀ d : Decimal, d.value = (shortest m e).value →
        (ofDecimal false d.digits d.exponent).isFinite ∧ value (ofDecimal false d.digits d.exponent) = value x := by
  have canonical := isFinite_iff.mp hx
  rw [parts_eq]
  unfold value at nonneg le ⊢
  generalize x.toModel.unpack = u at canonical nonneg le ⊢
  cases u with
  | infinity _ | notANumber => exact canonical.elim
  | zero s =>
      refine ⟨_, _, _, rfl, fun _ => ⟨rfl, rfl⟩, fun d h => ofDecimal_zero (h.trans ?_)⟩
      rw [shortest, if_pos rfl, Decimal.value, Nat.cast_zero, zero_mul]
  | finite s m e p =>
      obtain ⟨small, least, normal⟩ := canonical
      have positive : (0 : ℚ) < m * 2 ^ e := mul_pos (by exact_mod_cast p) (by positivity)
      cases s with
      | negative =>
          rw [exact, factor] at nonneg
          linarith
      | positive =>
          rw [exact, factor, one_mul] at le ⊢
          refine ⟨_, _, _, rfl, fun sign => Bool.noConfusion sign, fun d h => ?_⟩
          have around : Around m e (d.value / 2 ^ e) := h ▸ shortest_around p small least
          have read := ofDecimal_around (s := .positive) p small least normal le around
          rw [factor, one_mul] at read
          exact read

end ClauseFeatures.Double
