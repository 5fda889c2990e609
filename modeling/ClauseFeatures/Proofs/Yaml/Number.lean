import ClauseFeatures.Proofs.Double.Shortest
import ClauseFeatures.Proofs.Double.Sized
import ClauseFeatures.Value.Same
import ClauseFeatures.Yaml.Style

/-!
Numbers in documents. What is written for a number is a plain scalar that stands for the number again: an
integer has the form of integers, and the shortest decimal of a double is laid out with a point, so that it
has the form of decimal numbers and is read as the double.
-/
namespace ClauseFeatures.Yaml

/-! Digits. -/

/-- Digits and nothing else, at least one. -/
structure IsDigits (ds : List Char) : Prop where
  ne_nil : ds ≠ []
  digits : ∀ c ∈ ds, c.isDigit = true

theorem digit_cases {c : Char} (h : c.isDigit = true) : c ∈ "0123456789".toList := by
  have range : 48 ≤ c.toNat ∧ c.toNat ≤ 57 := by
    obtain ⟨low, high⟩ := Bool.and_eq_true_iff.mp h
    exact ⟨of_decide_eq_true low, of_decide_eq_true high⟩
  have code : c = Char.ofNat c.toNat := (Char.ofNat_toNat c).symm
  generalize c.toNat = n at range code
  obtain ⟨low, high⟩ := range
  subst code
  interval_cases n <;> decide

namespace IsDigits

variable {ds es : List Char}

theorem toDigits (n : ℕ) : IsDigits (Nat.toDigits 10 n) :=
  ⟨Nat.toDigits_ne_nil, fun _ h => Nat.isDigit_of_mem_toDigits (by decide) le_rfl h⟩

theorem singleton {c : Char} (h : c.isDigit = true) : IsDigits [c] :=
  ⟨List.cons_ne_nil _ _, List.forall_mem_singleton.mpr h⟩

theorem append (h : IsDigits ds) (h' : ∀ c ∈ es, c.isDigit = true) : IsDigits (ds ++ es) := by
  refine ⟨List.append_ne_nil_of_left_ne_nil h.ne_nil _, fun c hc => ?_⟩
  cases List.mem_append.mp hc with
  | inl left => exact h.digits c left
  | inr right => exact h' c right

theorem zeros_append (h : IsDigits ds) (n : ℕ) : IsDigits (List.replicate n '0' ++ ds) := by
  refine ⟨List.append_ne_nil_of_right_ne_nil _ h.ne_nil, fun c hc => ?_⟩
  cases List.mem_append.mp hc with
  | inl zero =>
      rw [List.eq_of_mem_replicate zero]
      rfl
  | inr right => exact h.digits c right

end IsDigits

theorem zeros_isDigit (n : ℕ) : ∀ c ∈ List.replicate n '0', c.isDigit = true := by
  intro c h
  rw [List.eq_of_mem_replicate h]
  rfl

end ClauseFeatures.Yaml

namespace ClauseFeatures.Text

theorem digitsValue_append (ds es : List Char) :
    digitsValue (ds ++ es) = digitsValue ds * 10 ^ es.length + digitsValue es := by
  have shift (cs : List Char) (n : ℕ) : cs.foldl (fun n c => 10 * n + (c.toNat - 48)) n =
      n * 10 ^ cs.length + digitsValue cs := by
    induction cs generalizing n with
    | nil => exact (Nat.mul_one n).symm
    | cons c cs ih =>
        have value : digitsValue (c :: cs) = (c.toNat - 48) * 10 ^ cs.length + digitsValue cs :=
          (ih (10 * 0 + (c.toNat - 48))).trans (by rw [Nat.mul_zero, Nat.zero_add])
        rw [List.foldl_cons, ih, value, List.length_cons, pow_succ]
        ring
  rw [digitsValue, List.foldl_append, shift]
  rfl

theorem digitsValue_toDigits (n : ℕ) : digitsValue (Nat.toDigits 10 n) = n := Nat.ofDigitChars_ten_toDigits

theorem digitsValue_zeros (n : ℕ) : digitsValue (List.replicate n '0') = 0 := by
  induction n with
  | zero => rfl
  | succ n ih => exact ih

theorem digitsValue_zeros_append (n : ℕ) (ds : List Char) :
    digitsValue (List.replicate n '0' ++ ds) = digitsValue ds := by
  rw [digitsValue_append, digitsValue_zeros, Nat.zero_mul, Nat.zero_add]

theorem digitsValue_append_zeros (n : ℕ) (ds : List Char) :
    digitsValue (ds ++ List.replicate n '0') = digitsValue ds * 10 ^ n := by
  rw [digitsValue_append, digitsValue_zeros, List.length_replicate, Nat.add_zero]

theorem cut_of_notMem {separator : Char} {cs : List Char} (h : separator ∉ cs) : cut separator cs = [cs] := by
  induction cs with
  | nil => rfl
  | cons c cs ih =>
      obtain ⟨head, rest⟩ := not_or.mp (List.mem_cons.not.mp h)
      rw [cut, ih rest]
      exact if_neg (Ne.symm head)

end ClauseFeatures.Text

namespace ClauseFeatures.Yaml

open Text

/-! Layouts. -/

/-- An exponent with its value, or none at all. -/
inductive IsExponentOf : List Char → ℤ → Prop
  | none : IsExponentOf [] 0
  | some (negative : Bool) {ds : List Char} (digits : IsDigits ds) :
      IsExponentOf ('e' :: (if negative then '-' else '+') :: ds)
        (if negative then -(digitsValue ds : ℤ) else digitsValue ds)

/-- Text that has a point after some of its digits and maybe an exponent, and stands for a number. -/
structure IsLayout (cs : List Char) (q : ℚ) (front back mark : List Char) (exponent : ℤ) : Prop where
  chars : cs = front ++ '.' :: (back ++ mark)
  front_digits : IsDigits front
  back_digits : IsDigits back
  exponent_mark : IsExponentOf mark exponent
  value : (digitsValue (front ++ back) * 10 ^ (exponent - back.length) : ℚ) = q

section Positional

variable {ds : List Char} (digits : IsDigits ds) {point : ℤ}

include digits

/-- The point stands before all digits. -/
theorem isLayout_before (before : point ≤ 0) :
    IsLayout (Double.positional (String.ofList ds) point).toList (digitsValue ds * 10 ^ (point - ds.length))
      ['0'] (List.replicate (-point).toNat '0' ++ ds) [] 0 := by
  refine ⟨?_, .singleton rfl, digits.zeros_append _, .none, ?_⟩
  · unfold Double.positional
    simp only [if_pos before, String.toList_append, String.toList_ofList, List.append_nil]
    rfl
  · have zeros : ['0'] ++ (List.replicate (-point).toNat '0' ++ ds) =
        List.replicate ((-point).toNat + 1) '0' ++ ds := rfl
    rw [zeros, digitsValue_zeros_append]
    congr 2
    rw [List.length_append, List.length_replicate]
    push_cast
    omega

/-- The point stands between two digits. -/
theorem isLayout_inside (before : 0 < point) (inside : point.toNat < ds.length) :
    IsLayout (Double.positional (String.ofList ds) point).toList (digitsValue ds * 10 ^ (point - ds.length))
      (ds.take point.toNat) (ds.drop point.toNat) [] 0 := by
  have rest : ds.drop point.toNat ≠ [] := by
    rw [Ne, List.drop_eq_nil_iff]
    omega
  have taken : ds.take point.toNat ≠ [] := by
    rw [Ne, List.take_eq_nil_iff]
    exact not_or.mpr ⟨by omega, digits.ne_nil⟩
  refine ⟨?_, ⟨taken, fun c hc => digits.digits c (List.mem_of_mem_take hc)⟩,
    ⟨rest, fun c hc => digits.digits c (List.mem_of_mem_drop hc)⟩, .none, ?_⟩
  · have none : point.toNat - ds.length = 0 := by omega
    unfold Double.positional
    simp only [if_neg (not_le.mpr before), String.toList_append, String.toList_ofList, none, List.replicate_zero,
      List.append_nil, List.isEmpty_iff, rest, ite_false, List.append_assoc]
    rfl
  · rw [List.take_append_drop]
    congr 2
    rw [List.length_drop]
    omega

/-- The point stands behind all digits. -/
theorem isLayout_behind (behind : (ds.length : ℤ) ≤ point) :
    IsLayout (Double.positional (String.ofList ds) point).toList (digitsValue ds * 10 ^ (point - ds.length))
      (ds ++ List.replicate (point.toNat - ds.length) '0') ['0'] [] 0 := by
  have some : 0 < ds.length := List.length_pos_iff.mpr digits.ne_nil
  have rest : ds.drop point.toNat = [] := List.drop_eq_nil_iff.mpr (by omega)
  have all : ds.take point.toNat = ds := List.take_of_length_le (by omega)
  refine ⟨?_, digits.append (zeros_isDigit _), .singleton rfl, .none, ?_⟩
  · unfold Double.positional
    simp only [if_neg (show ¬ point ≤ 0 by omega), String.toList_append, String.toList_ofList, rest, all,
      List.isEmpty_nil, ite_true, List.append_assoc]
    rfl
  · obtain ⟨k, hk⟩ := Int.eq_ofNat_of_zero_le (sub_nonneg.mpr behind)
    have zeros : ds ++ List.replicate (point.toNat - ds.length) '0' ++ ['0'] = ds ++ List.replicate (k + 1) '0' := by
      rw [List.append_assoc, List.replicate_succ', show point.toNat - ds.length = k by omega]
    rw [zeros, digitsValue_append_zeros, hk, List.length_singleton, Nat.cast_one, zero_sub, zpow_neg, zpow_one,
      zpow_natCast, pow_succ]
    push_cast
    field_simp

end Positional

theorem isLayout_positional {n : ℕ} {point exponent : ℤ}
    (h : point = (Nat.toDigits 10 n).length + exponent) :
    ∃ front back, IsLayout (Double.positional (Double.digitText n) point).toList (n * 10 ^ exponent)
      front back [] 0 := by
  have digits : IsDigits (Nat.toDigits 10 n) := .toDigits n
  obtain rfl : exponent = point - (Nat.toDigits 10 n).length := by omega
  have value : (n : ℚ) = digitsValue (Nat.toDigits 10 n) := by rw [digitsValue_toDigits]
  rw [value, Double.digitText]
  by_cases before : point ≤ 0
  · exact ⟨_, _, isLayout_before digits before⟩
  · by_cases inside : point.toNat < (Nat.toDigits 10 n).length
    · exact ⟨_, _, isLayout_inside digits (not_le.mp before) inside⟩
    · exact ⟨_, _, isLayout_behind digits (by omega)⟩

/-- An exponent has at least two digits. -/
theorem isExponentOf_padLeft (k : ℤ) : IsExponentOf ('e' :: (if k < 0 then '-' else '+') ::
    (Double.padLeft numberStyle.exponentDigits (Double.digitText k.natAbs)).toList) k := by
  obtain ⟨es, hes⟩ : ∃ es, es = List.replicate (2 - (Nat.toDigits 10 k.natAbs).length) '0' ++
    Nat.toDigits 10 k.natAbs := ⟨_, rfl⟩
  have padded : (Double.padLeft numberStyle.exponentDigits (Double.digitText k.natAbs)).toList = es := by
    rw [hes, Double.padLeft, Double.digitText, String.toList_append, String.toList_ofList, String.toList_ofList,
      String.length_ofList]
    rfl
  have mark := IsExponentOf.some (decide (k < 0)) (hes ▸ (IsDigits.toDigits _).zeros_append _ : IsDigits es)
  rw [hes, digitsValue_zeros_append, digitsValue_toDigits, ← hes] at mark
  have signed : (if k < 0 then -(k.natAbs : ℤ) else k.natAbs) = k := by
    split <;> omega
  simp only [decide_eq_true_eq, signed] at mark
  rwa [padded]

theorem isLayout_scientific {n : ℕ} {exponent k : ℤ} (h : k = (Nat.toDigits 10 n).length + exponent - 1) :
    ∃ front back mark, IsLayout (Double.scientific numberStyle (Double.digitText n) k).toList (n * 10 ^ exponent)
      front back mark k := by
  obtain ⟨ds, hds⟩ : ∃ ds, ds = Nat.toDigits 10 n := ⟨_, rfl⟩
  have digits : IsDigits ds := hds ▸ .toDigits n
  have value : digitsValue ds = n := hds ▸ digitsValue_toDigits n
  rw [← hds] at h
  have mark := isExponentOf_padLeft k
  obtain ⟨es, hes⟩ : ∃ es, es = Double.padLeft numberStyle.exponentDigits (Double.digitText k.natAbs) := ⟨_, rfl⟩
  rw [← hes] at mark
  have sign : (if k < 0 then "-" else "+").toList = [if k < 0 then '-' else '+'] := by
    split <;> rfl
  have text : (Double.digitText n).toList = ds := by rw [Double.digitText, String.toList_ofList, hds]
  unfold Double.scientific
  rw [text, ← hes]
  cases ds with
  | nil => exact absurd rfl digits.ne_nil
  | cons c rest =>
      have first : c.isDigit = true := digits.digits c List.mem_cons_self
      cases rest with
      | nil =>
          refine ⟨[c], ['0'], _, ?_, .singleton first, .singleton rfl, mark, ?_⟩
          · have point : numberStyle.pointInMantissa = true := rfl
            simp only [if_pos point, String.toList_append, String.toList_ofList, sign]
            rfl
          · have tenfold : digitsValue ([c] ++ ['0']) = n * 10 := by
              rw [digitsValue_append, value]
              rfl
            obtain rfl : k = exponent := by
              rw [h, List.length_singleton]
              omega
            rw [tenfold, List.length_singleton, zpow_sub₀ (by norm_num)]
            push_cast
            field_simp
      | cons c' rest =>
          have back : IsDigits (c' :: rest) :=
            ⟨List.cons_ne_nil _ _, fun d hd => digits.digits d (List.mem_cons_of_mem c hd)⟩
          refine ⟨[c], c' :: rest, _, ?_, .singleton first, back, mark, ?_⟩
          · have e : "e".toList = ['e'] := rfl
            simp only [String.toList_append, String.toList_ofList, sign, e, List.append_assoc,
              List.cons_append, List.nil_append]
          · have shift : k - (c' :: rest).length = exponent := by
              rw [h, List.length_cons, List.length_cons]
              push_cast
              ring
            rw [List.singleton_append, value, shift]

/-! Reading. -/

def isNumeral (c : Char) : Bool := c.isDigit || c == '.' || c == 'e' || c == '+' || c == '-'

theorem isNumeral_of_isDigit {c : Char} (h : c.isDigit = true) : isNumeral c = true := by
  rw [isNumeral, h]
  rfl

theorem notMem_of_isNumeral {cs : List Char} {c : Char} (h : ∀ c ∈ cs, isNumeral c = true)
    (other : isNumeral c = false) : c ∉ cs := by
  intro hc
  rw [h c hc] at other
  cases other

theorem withoutLows_of_isNumeral {cs : List Char} (h : ∀ c ∈ cs, isNumeral c = true) : withoutLows cs = cs := by
  refine List.filter_eq_self.mpr fun c hc => ?_
  rw [bne_iff_ne]
  rintro rfl
  exact absurd hc (notMem_of_isNumeral h rfl)

/-- What begins with a digit is no word. -/
theorem word_of_digit {c : Char} (h : c.isDigit = true) (cs : List Char) :
    splitSign (c :: cs) = (false, c :: cs) ∧ truth? (c :: cs) = none ∧ isInfinity (c :: cs) = false ∧
      isNaN (c :: cs) = false ∧ isNull (c :: cs) = false := by
  have cases := digit_cases h
  simp only [show "0123456789".toList = ['0', '1', '2', '3', '4', '5', '6', '7', '8', '9'] from rfl, List.mem_cons,
    List.not_mem_nil, or_false] at cases
  rcases cases with rfl | rfl | rfl | rfl | rfl | rfl | rfl | rfl | rfl | rfl <;>
    exact ⟨rfl, rfl, rfl, rfl, rfl⟩

theorem isWhole_of_isDigits {ds : List Char} (h : IsDigits ds) : isWhole ds = true := by
  cases ds with
  | nil => exact absurd rfl h.ne_nil
  | cons c ds =>
      refine Bool.and_eq_true_iff.mpr ⟨h.digits c List.mem_cons_self, List.all_eq_true.mpr fun d hd => ?_⟩
      rw [isDigitOrLow, h.digits d (List.mem_cons_of_mem c hd)]
      rfl

theorem isNumeral_of_isDigits {ds : List Char} (h : IsDigits ds) : ∀ c ∈ ds, isNumeral c = true := fun c hc =>
  isNumeral_of_isDigit (h.digits c hc)

theorem cut_of_isDigits {ds : List Char} (h : IsDigits ds) : cut ':' ds = [ds] :=
  cut_of_notMem (notMem_of_isNumeral (isNumeral_of_isDigits h) rfl)

namespace IsExponentOf

variable {cs : List Char} {k : ℤ}

theorem readExponent (h : IsExponentOf cs k) : Text.readExponent cs = Option.some k := by
  cases h with
  | none => rfl
  | some negative digits =>
      rename_i ds
      have read : readDigits ds = Option.some (digitsValue ds) := by
        rw [readDigits, List.isEmpty_eq_false_iff.mpr digits.ne_nil, List.all_eq_true.mpr digits.digits]
        rfl
      cases negative with
      | true => simp [Text.readExponent, splitSign, read]
      | false => simp [Text.readExponent, splitSign, read]

theorem isExponent (h : IsExponentOf cs k) : Yaml.isExponent cs = true := by
  cases h with
  | none => rfl
  | some negative digits =>
      rename_i ds
      have run : isRun Char.isDigit ds = true := by
        rw [isRun, List.isEmpty_eq_false_iff.mpr digits.ne_nil, List.all_eq_true.mpr digits.digits]
        rfl
      cases negative with
      | true => exact run
      | false => exact run

theorem isNumeral (h : IsExponentOf cs k) : ∀ c ∈ cs, Yaml.isNumeral c = true := by
  cases h with
  | none => nofun
  | some negative digits =>
      intro c hc
      rcases List.mem_cons.mp hc with rfl | hc
      · rfl
      · rcases List.mem_cons.mp hc with rfl | hc
        · cases negative <;> rfl
        · exact isNumeral_of_isDigit (digits.digits c hc)

theorem takeDigits (h : IsExponentOf cs k) {p : Char → Bool} (hp : p 'e' = false) :
    cs.takeWhile p = [] ∧ cs.dropWhile p = cs := by
  cases h with
  | none => exact ⟨rfl, rfl⟩
  | some negative digits =>
      have stop : ¬ p 'e' = true := Bool.eq_false_iff.mp hp
      exact ⟨List.takeWhile_cons_of_neg stop, List.dropWhile_cons_of_neg stop⟩

end IsExponentOf

namespace IsLayout

variable {cs : List Char} {q : ℚ} {front back mark : List Char} {exponent : ℤ}

theorem isNumeral (h : IsLayout cs q front back mark exponent) : ∀ c ∈ cs, Yaml.isNumeral c = true := by
  intro c hc
  rw [h.chars] at hc
  rcases List.mem_append.mp hc with hc | hc
  · exact isNumeral_of_isDigit (h.front_digits.digits c hc)
  · rcases List.mem_cons.mp hc with rfl | hc
    · rfl
    · rcases List.mem_append.mp hc with hc | hc
      · exact isNumeral_of_isDigit (h.back_digits.digits c hc)
      · exact h.exponent_mark.isNumeral c hc

theorem exists_cons (h : IsLayout cs q front back mark exponent) :
    ∃ c rest, cs = c :: rest ∧ c.isDigit = true := by
  have digits := h.front_digits
  rw [h.chars]
  cases front with
  | nil => exact absurd rfl digits.ne_nil
  | cons c front => exact ⟨c, _, rfl, digits.digits c List.mem_cons_self⟩

theorem readUnsigned (h : IsLayout cs q front back mark exponent) :
    Text.readUnsigned false cs =
      some (Double.ofDecimal false (digitsValue (front ++ back)) (exponent - back.length)) := by
  have point : Char.isDigit '.' = false := rfl
  have front_digits : ∀ c ∈ front, c.isDigit = true := h.front_digits.digits
  have back_digits : ∀ c ∈ back, c.isDigit = true := h.back_digits.digits
  obtain ⟨taken, dropped⟩ := h.exponent_mark.takeDigits (p := Char.isDigit) rfl
  have some : (front ++ back).isEmpty = false :=
    List.isEmpty_eq_false_iff.mpr (List.append_ne_nil_of_left_ne_nil h.front_digits.ne_nil _)
  unfold Text.readUnsigned
  rw [h.chars, List.takeWhile_append_of_pos front_digits, List.dropWhile_append_of_pos front_digits,
    List.takeWhile_cons_of_neg (by rw [point]; nofun), List.dropWhile_cons_of_neg (by rw [point]; nofun)]
  simp only [List.takeWhile_append_of_pos back_digits, List.dropWhile_append_of_pos back_digits, taken, dropped,
    List.append_nil, some, h.exponent_mark.readExponent, Bool.false_eq_true, ite_false, Option.map_some]

theorem decimalValue (h : IsLayout cs q front back mark exponent) :
    Yaml.decimalValue cs =
      .ok (.real (Double.ofDecimal false (digitsValue (front ++ back)) (exponent - back.length))) := by
  obtain ⟨c, rest, first, digit⟩ := h.exists_cons
  obtain ⟨sign, -, infinity, nan, -⟩ := word_of_digit digit rest
  rw [← first] at sign infinity nan
  have whole : cut ':' cs = [cs] := cut_of_notMem (notMem_of_isNumeral h.isNumeral rfl)
  unfold Yaml.decimalValue
  simp only [withoutLows_of_isNumeral h.isNumeral, sign, infinity, nan, whole, readPart, h.readUnsigned,
    Bool.false_eq_true, ite_false]
  rfl

theorem isDecimal (h : IsLayout cs q front back mark exponent) : Yaml.isDecimal cs = true := by
  obtain ⟨c, rest, first, digit⟩ := h.exists_cons
  obtain ⟨sign, -, infinity, nan, -⟩ := word_of_digit digit rest
  rw [← first] at sign infinity nan
  have before : ∀ c ∈ front, (c != '.') = true := by
    intro c hc
    rw [bne_iff_ne]
    rintro rfl
    exact absurd (h.front_digits.digits _ hc) (by decide)
  have drop : cs.dropWhile (· != '.') = '.' :: (back ++ mark) := by
    rw [h.chars, List.dropWhile_append_of_pos before]
    rfl
  have take : cs.takeWhile (· != '.') = front := by
    rw [h.chars, List.takeWhile_append_of_pos before]
    exact List.append_nil front
  have single : cut ':' front = [front] := cut_of_isDigits h.front_digits
  have places : isPlaces (back ++ mark) = true := by
    have digits : ∀ c ∈ back, isDigitOrLow c = true := fun c hc => by
      rw [isDigitOrLow, h.back_digits.digits c hc]
      rfl
    rw [isPlaces, List.dropWhile_append_of_pos digits, (h.exponent_mark.takeDigits rfl).2]
    exact h.exponent_mark.isExponent
  unfold Yaml.isDecimal
  simp only [sign, infinity, nan, Bool.false_or]
  split
  · cases first
    cases digit
  · rw [drop, take, single]
    exact Bool.and_eq_true_iff.mpr ⟨isWhole_of_isDigits h.front_digits, places⟩

theorem form (h : IsLayout cs q front back mark exponent) : Yaml.form cs = .decimal := by
  obtain ⟨c, rest, first, digit⟩ := h.exists_cons
  obtain ⟨-, truth, -, -, -⟩ := word_of_digit digit rest
  rw [← first] at truth
  unfold Yaml.form
  rw [truth]
  exact if_pos h.isDecimal

end IsLayout

/-- The text of a decimal in the style of documents is a layout of its value. -/
theorem isLayout_text (d : Double.Decimal) : ∃ front back mark exponent,
    IsLayout (d.text numberStyle).toList d.value front back mark exponent := by
  have length : ((Double.digitText d.digits).length : ℤ) = (Nat.toDigits 10 d.digits).length := by
    rw [Double.digitText, String.length_ofList]
  unfold Double.Decimal.text
  simp only
  split
  · obtain ⟨front, back, layout⟩ := isLayout_positional (congrArg (· + d.exponent) length)
    exact ⟨front, back, [], 0, layout⟩
  · obtain ⟨front, back, mark, layout⟩ :=
      isLayout_scientific (congrArg (· + d.exponent - 1) length)
    exact ⟨front, back, mark, _, layout⟩

/-! Integers. -/

theorem exists_toDigits {n : ℕ} (hn : 0 < n) : ∃ c rest, Nat.toDigits 10 n = c :: rest ∧ c ≠ '0' := by
  induction n using Nat.strong_induction_on with
  | _ n ih =>
      by_cases small : n < 10
      · refine ⟨_, [], Nat.toDigits_of_lt_base small, ?_⟩
        interval_cases n <;> decide
      · obtain ⟨c, rest, digits, other⟩ := ih (n / 10) (by omega) (by omega)
        exact ⟨c, _, by rw [Nat.toDigits_of_base_le (by norm_num) (not_lt.mp small), digits]; rfl, other⟩

section Digits

variable {ds : List Char} (digits : IsDigits ds)

include digits

theorem isDecimal_of_isDigits : isDecimal ds = false := by
  have none : ds.dropWhile (· != '.') = [] := by
    refine List.dropWhile_eq_nil_iff.mpr fun c hc => ?_
    rw [bne_iff_ne]
    rintro rfl
    exact absurd (digits.digits _ hc) (by decide)
  obtain ⟨c, rest, rfl⟩ := List.exists_cons_of_ne_nil digits.ne_nil
  have digit : c.isDigit = true := digits.digits c List.mem_cons_self
  obtain ⟨sign, -, infinity, nan, -⟩ := word_of_digit digit rest
  unfold isDecimal
  simp only [sign, infinity, nan, Bool.false_or]
  split
  · rename_i same
    cases same
    cases digit
  · rw [none]

section Plain

variable (plain : ds = ['0'] ∨ ds.head? ≠ some '0')

include plain

theorem isUnsignedInteger_of_isDigits : isUnsignedInteger ds = true := by
  obtain rfl | other := plain
  · rfl
  · unfold isUnsignedInteger
    split
    case h_5 =>
      rw [cut_of_isDigits digits]
      exact Bool.and_eq_true_iff.mpr ⟨isWhole_of_isDigits digits, rfl⟩
    all_goals exact absurd rfl other

theorem unsignedValue_of_isDigits (fits : ds.length ≤ Failure.digitLimit) :
    unsignedValue ds = .ok (digitsValue ds) := by
  obtain rfl | other := plain
  · rfl
  · have value : wholeValue ds = .ok (digitsValue ds) := if_neg (not_lt.mpr fits)
    unfold unsignedValue
    split
    case h_4 =>
      rw [cut_of_isDigits digits, List.mapM_cons, value]
      exact congrArg Except.ok (Nat.zero_add _)
    all_goals exact absurd rfl other

/-- A numeral without leading zeros has the form of integers and is read digit by digit. -/
theorem integer_of_isDigits (fits : ds.length ≤ Failure.digitLimit) :
    form ds = .integer ∧ integerValue ds = .ok (digitsValue ds : ℤ) := by
  have decimal := isDecimal_of_isDigits digits
  have lows := withoutLows_of_isNumeral (isNumeral_of_isDigits digits)
  have unsigned := isUnsignedInteger_of_isDigits digits plain
  have value := unsignedValue_of_isDigits digits plain fits
  obtain ⟨c, rest, rfl⟩ := List.exists_cons_of_ne_nil digits.ne_nil
  obtain ⟨sign, truth, -, -, -⟩ := word_of_digit (digits.digits c List.mem_cons_self) rest
  have integer : isInteger (c :: rest) = true := by rwa [isInteger, sign]
  constructor
  · unfold form
    rw [truth, decimal]
    simp only [Bool.false_eq_true, ite_false, integer, ite_true]
  · unfold integerValue
    rw [lows, sign]
    simp only [value]
    rfl

end Plain

end Digits

/-! What is written for a number. -/

theorem resolve_integer {n : ℤ} (nonneg : 0 ≤ n) (fits : Failure.isTooLong n = false) :
    IsDigits (writeNumber (.int n)) ∧ resolve (writeNumber (.int n)) = .ok (.int n) := by
  obtain ⟨k, rfl⟩ := Int.eq_ofNat_of_zero_le nonneg
  have written : writeNumber (.int k) = Nat.toDigits 10 k := by
    rw [writeNumber, Number.text, if_neg (not_lt.mpr nonneg), Double.digitText, String.toList_ofList]
    rfl
  have digits : IsDigits (Nat.toDigits 10 k) := .toDigits k
  have plain : Nat.toDigits 10 k = ['0'] ∨ (Nat.toDigits 10 k).head? ≠ some '0' := by
    rcases Nat.eq_zero_or_pos k with rfl | pos
    · exact .inl rfl
    · obtain ⟨c, rest, same, other⟩ := exists_toDigits pos
      rw [same]
      exact .inr fun zero => other (Option.some.inj zero)
  have length : (Nat.toDigits 10 k).length ≤ Failure.digitLimit := by
    have some : 0 < Failure.digitLimit := by decide
    rw [Failure.isTooLong, decide_eq_false_iff_not, not_le, Int.natAbs_natCast] at fits
    generalize Failure.digitLimit = limit at fits some ⊢
    exact (Nat.length_toDigits_le_iff (by decide) some).mpr fits
  obtain ⟨integer, value⟩ := integer_of_isDigits digits plain length
  rw [written]
  refine ⟨digits, ?_⟩
  unfold resolve
  rw [integer, value, digitsValue_toDigits]
  rfl

theorem resolve_truth (b : Bool) : resolve (writeNumber (.truth b)) = .ok (.truth b) := by
  cases b with
  | true => rfl
  | false => rfl

/-- A double that is not negative is written so that it is read as a double of its value. -/
theorem resolve_real {x : Float} (hx : x.isFinite) (nonneg : 0 ≤ Double.value x)
    (le : Double.value x ≤ Double.limit) :
    (writeNumber (.real x) = "-0.0".toList ∨
      ∃ q front back mark exponent, IsLayout (writeNumber (.real x)) q front back mark exponent) ∧
    ∃ y, resolve (writeNumber (.real x)) = .ok (.real y) ∧ y.isFinite ∧ Double.value y = Double.value x := by
  obtain ⟨negative, m, e, parts, zero, read⟩ := Double.ofDecimal_shortest hx nonneg le
  cases negative with
  | true =>
      obtain ⟨rfl, value⟩ := zero rfl
      have digits : (Double.shortest 0 e).text numberStyle = "0.0" := by
        rw [Double.shortest, if_pos rfl]
        decide +kernel
      have written : writeNumber (.real x) = "-0.0".toList := by
        rw [writeNumber, Double.text, parts]
        simp only [digits]
        rfl
      have resolved : resolve "-0.0".toList = .ok (.real (-0.0)) := by decide +kernel
      rw [written, value]
      exact ⟨.inl rfl, -0.0, resolved, rfl, Double.value_negativeZero⟩
  | false =>
      obtain ⟨front, back, mark, exponent, layout⟩ := isLayout_text (Double.shortest m e)
      have written : writeNumber (.real x) = ((Double.shortest m e).text numberStyle).toList := by
        rw [writeNumber, Double.text, parts, String.toList_append]
        rfl
      obtain ⟨finite, value⟩ := read ⟨_, _⟩ layout.value
      rw [written]
      refine ⟨.inr ⟨_, _, _, _, _, layout⟩, _, ?_, finite, value⟩
      unfold resolve
      rw [layout.form, layout.decimalValue]
      rfl

end ClauseFeatures.Yaml
