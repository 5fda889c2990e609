import Mathlib.Data.Int.Notation
import Mathlib.Data.Nat.Notation
import Mathlib.Tactic.SplitIfs
import ClauseFeatures.Value.Basic

/-!
The text of values holds printable characters only, whatever stands in the value: a quoted text escapes all others, and
numbers, words and punctuation are written with printable ones. No printable character breaks a line, so the text of a
value is always on one line.
-/
namespace ClauseFeatures

namespace Text

def ArePrintable (cs : List Char) : Prop := ∀ c ∈ cs, isPrintable c = true

instance (cs : List Char) : Decidable (ArePrintable cs) :=
  decidable_of_iff (cs.all isPrintable = true) List.all_eq_true

variable {cs ds : List Char} {c quote : Char}

theorem mem_intercalate {α : Type} {separator : List α} {parts : List (List α)} {a : α}
    (h : a ∈ separator.intercalate parts) : a ∈ separator ∨ ∃ part ∈ parts, a ∈ part := by
  induction parts with
  | nil => exact absurd h List.not_mem_nil
  | cons part parts ih =>
      cases parts with
      | nil =>
          rw [List.intercalate_singleton] at h
          exact .inr ⟨part, List.mem_cons_self, h⟩
      | cons next parts =>
          rw [List.intercalate_cons_of_ne_nil (List.cons_ne_nil _ _), List.mem_append, List.mem_append] at h
          obtain (first | separated) | rest := h
          · exact .inr ⟨part, List.mem_cons_self, first⟩
          · exact .inl separated
          · exact (ih rest).imp_right fun ⟨p, hp, ha⟩ => ⟨p, List.mem_cons_of_mem _ hp, ha⟩

namespace ArePrintable

theorem cons (h : isPrintable c = true) (h' : ArePrintable cs) : ArePrintable (c :: cs) :=
  List.forall_mem_cons.mpr ⟨h, h'⟩

theorem append (h : ArePrintable cs) (h' : ArePrintable ds) : ArePrintable (cs ++ ds) :=
  List.forall_mem_append.mpr ⟨h, h'⟩

theorem zeros (n : ℕ) : ArePrintable (List.replicate n '0') := by
  intro c h
  rw [List.eq_of_mem_replicate h]
  rfl

theorem intercalate {separator : List Char} {parts : List (List Char)} (h : ArePrintable separator)
    (h' : ∀ part ∈ parts, ArePrintable part) : ArePrintable (separator.intercalate parts) := by
  intro c hc
  obtain separated | ⟨part, hp, inside⟩ := mem_intercalate hc
  · exact h c separated
  · exact h' part hp c inside

theorem string (h : ArePrintable cs) : ArePrintable (String.ofList cs).toList := by rwa [String.toList_ofList]

theorem concat {s t : String} (h : ArePrintable s.toList) (h' : ArePrintable t.toList) :
    ArePrintable (s ++ t).toList := by
  rw [String.toList_append]
  exact h.append h'

end ArePrintable

/-! Digits. -/

theorem toDigits_printable {base : ℕ} (low : 1 < base) (high : base ≤ 16) (n : ℕ) :
    ArePrintable (Nat.toDigits base n) := by
  have digit : ∀ d < 16, isPrintable (Nat.digitChar d) = true := by decide
  induction n using Nat.strongRecOn with
  | ind n ih =>
      by_cases small : n < base
      · rw [Nat.toDigits_of_lt_base small]
        exact .cons (digit n (Nat.lt_of_lt_of_le small high)) nofun
      · have large := Nat.le_of_not_lt small
        have shorter : n / base < n := Nat.div_lt_self (by omega) low
        rw [Nat.toDigits_of_base_le low large]
        have last : n % base < 16 := Nat.lt_of_lt_of_le (Nat.mod_lt n (Nat.zero_lt_of_lt low)) high
        exact (ih _ shorter).append (.cons (digit _ last) nofun)

theorem hexText_printable (width n : ℕ) : ArePrintable (hexText width n) :=
  (ArePrintable.zeros _).append (toDigits_printable (by decide) (Nat.le_refl 16) n)

/-! Quoted text. -/

theorem enclosingQuote_printable (cs : List Code) : isPrintable (enclosingQuote cs) = true := by
  unfold enclosingQuote
  split <;> rfl

/-- An escape is printable, and a character that is not escaped is so on its own. -/
theorem escaped_printable (h : isPrintable quote = true) (c : Char) : ArePrintable (escaped quote c) := by
  have backslash : isPrintable '\x5C' = true := rfl
  unfold escaped
  split
  · rename_i special
    rw [Bool.or_eq_true, beq_iff_eq, beq_iff_eq] at special
    obtain rfl | rfl := special
    · exact .cons backslash (.cons h nofun)
    · exact .cons backslash (.cons backslash nofun)
  · split_ifs with tab feed «return» shown byte word
    · decide
    · decide
    · decide
    · exact .cons shown nofun
    · exact .cons backslash (.cons rfl (hexText_printable _ _))
    · exact .cons backslash (.cons rfl (hexText_printable _ _))
    · exact .cons backslash (.cons rfl (hexText_printable _ _))

theorem escapedCode_printable (h : isPrintable quote = true) (code : Code) :
    ArePrintable (escapedCode quote code) := by
  cases code with
  | char c => exact escaped_printable h c
  | surrogate offset => exact .cons rfl (.cons rfl (hexText_printable _ _))

theorem quotedCodes_printable (codes : List Code) : ArePrintable (quotedCodes codes) := by
  have quote := enclosingQuote_printable codes
  refine .cons quote (.append (fun c hc => ?_) (.cons quote nofun))
  obtain ⟨code, -, inside⟩ := List.mem_flatMap.mp hc
  exact escapedCode_printable quote code c inside

/-! Lines. -/

def lineBreaks : List Char := ['\n', '\r', '\x0B', '\x0C', '\x1C', '\x1D', '\x1E', '\x85', '\u2028', '\u2029']

def isLineBreak (c : Char) : Bool := lineBreaks.contains c

/-- The lines of a text. A line break ends a line, and a line feed belongs to the carriage return before it. What
follows the last line break is a line if it is not empty. -/
def lines : List Char → List (List Char)
  | [] => []
  | '\r' :: '\n' :: cs => [] :: lines cs
  | c :: cs =>
    if isLineBreak c then [] :: lines cs
    else match lines cs with
      | [] => [[c]]
      | line :: rest => (c :: line) :: rest

/-- No character that is shown as itself breaks a line. -/
theorem ArePrintable.unbroken (h : ArePrintable cs) : ∀ c ∈ cs, isLineBreak c = false := by
  intro c hc
  have hidden : (lineBreaks.all fun c => !isPrintable c) = true := by decide +kernel
  rw [isLineBreak, ← Bool.not_eq_true, List.contains_iff_mem]
  intro broken
  have other := List.all_eq_true.mp hidden c broken
  rw [h c hc] at other
  cases other

theorem lines_cons (unbroken : isLineBreak c = false) :
    lines (c :: cs) = match lines cs with
      | [] => [[c]]
      | line :: rest => (c :: line) :: rest := by
  have other : c ≠ '\r' := by
    rintro rfl
    cases unbroken
  rw [lines]
  · rw [if_neg (Bool.eq_false_iff.mp unbroken)]
  · exact fun _ same => absurd same other

/-- What stands before a line feed is a line, if there is no line break in it. -/
theorem lines_append (unbroken : ∀ c ∈ cs, isLineBreak c = false) :
    lines (cs ++ '\n' :: ds) = cs :: lines ds := by
  induction cs with
  | nil => rfl
  | cons c cs ih =>
      obtain ⟨first, rest⟩ := List.forall_mem_cons.mp unbroken
      rw [List.cons_append, lines_cons first, ih rest]

example : lines ['a', '\n', '\r', '\n', 'b', '\x0B', 'c'] = [['a'], [], ['b'], ['c']] := by decide

end Text

/-! Numbers. -/

open Text

namespace Double

theorem digitText_printable (n : ℕ) : ArePrintable (digitText n).toList :=
  (toDigits_printable (by decide) (by decide) n).string

theorem padLeft_printable {s : String} (h : ArePrintable s.toList) (width : ℕ) :
    ArePrintable (padLeft width s).toList :=
  (ArePrintable.zeros _).string.concat h

theorem positional_printable {digits : String} (h : ArePrintable digits.toList) (point : ℤ) :
    ArePrintable (positional digits point).toList := by
  unfold positional
  split
  · exact ((show ArePrintable "0.".toList by decide).concat (ArePrintable.zeros _).string).concat h
  · have whole : ArePrintable (digits.toList.take point.toNat) := fun c hc => h c (List.mem_of_mem_take hc)
    have rest : ArePrintable (digits.toList.drop point.toNat) := fun c hc => h c (List.mem_of_mem_drop hc)
    refine ((whole.append (.zeros _)).string.concat (show ArePrintable ".".toList by decide)).concat ?_
    split
    · decide
    · exact rest.string

theorem scientific_printable {digits : String} (h : ArePrintable digits.toList) (exponent : ℤ) :
    ArePrintable (scientific .plain digits exponent).toList := by
  unfold scientific
  refine .concat (.concat (.concat ?_ (by decide)) ?_) (padLeft_printable (digitText_printable _) _)
  · split
    · decide
    · rename_i c chars
      rw [chars] at h
      exact h.string
    · rename_i c rest chars
      rw [chars] at h
      obtain ⟨first, rest⟩ := List.forall_mem_cons.mp h
      exact (ArePrintable.cons first (.cons rfl rest)).string
  · split <;> decide

theorem text_printable (x : Float) : ArePrintable (text .plain x).toList := by
  have sign (negative : Bool) : ArePrintable (if negative then "-" else "").toList := by
    cases negative <;> decide
  unfold text
  split
  · decide
  · exact (sign _).concat (by decide)
  · refine (sign _).concat ?_
    unfold Decimal.text
    simp only
    split
    · exact positional_printable (digitText_printable _) _
    · exact scientific_printable (digitText_printable _) _

theorem fixedText_printable (places : ℕ) (x : Float) : ArePrintable (fixedText places x).toList := by
  have sign (negative : Bool) : ArePrintable (if negative then "-" else "").toList := by
    cases negative <;> decide
  unfold fixedText
  split
  · decide
  · exact (sign _).concat (by decide)
  · refine ((sign _).concat (ArePrintable.string fun c hc => ?_)).concat ?_
    · exact padLeft_printable (digitText_printable _) _ c (List.mem_of_mem_take hc)
    · split
      · decide
      · refine ArePrintable.concat (by decide) (ArePrintable.string fun c hc => ?_)
        exact padLeft_printable (digitText_printable _) _ c (List.mem_of_mem_drop hc)

end Double

theorem Number.text_printable (a : Number) : ArePrintable a.text.toList := by
  cases a with
  | truth b => cases b <;> decide
  | int n =>
      have digits := Double.digitText_printable n.natAbs
      change ArePrintable (if n < 0 then "-" ++ Double.digitText n.natAbs else Double.digitText n.natAbs).toList
      split
      · exact (show ArePrintable "-".toList by decide).concat digits
      · exact digits
  | real x => exact Double.text_printable x

/-! Values. -/

namespace Value

theorem joined_printable {parts : List String} (h : ∀ part ∈ parts, ArePrintable part.toList) :
    ArePrintable (", ".intercalate parts).toList := by
  rw [String.toList_intercalate]
  exact .intercalate (by decide) (List.forall_mem_map.mpr h)

mutual

theorem shown_printable : ∀ v : Value, ArePrintable v.shown.toList
  | .null => by rw [shown]; decide
  | .number n => by
      rw [shown]
      exact n.text_printable
  | .text s => by
      rw [shown]
      exact (quotedCodes_printable _).string
  | .rawText cs => by
      rw [shown]
      exact (quotedCodes_printable cs).string
  | .list items => by
      rw [shown]
      exact ((show ArePrintable "[".toList by decide).concat (joined_printable (shownItems_printable items))).concat
        (by decide)
  | .mapping entries => by
      rw [shown]
      exact ((show ArePrintable "\x7b".toList by decide).concat
        (joined_printable (shownEntries_printable entries))).concat (by decide)

theorem shownItems_printable : ∀ items : List Value, ∀ part ∈ shownItems items, ArePrintable part.toList
  | [] => by
      rw [shownItems]
      exact nofun
  | item :: items => by
      rw [shownItems]
      exact List.forall_mem_cons.mpr ⟨shown_printable item, shownItems_printable items⟩

theorem shownEntries_printable :
    ∀ entries : List (Value × Value), ∀ part ∈ shownEntries entries, ArePrintable part.toList
  | [] => by
      rw [shownEntries]
      exact nofun
  | (key, value) :: entries => by
      rw [shownEntries]
      exact List.forall_mem_cons.mpr ⟨((shown_printable key).concat (by decide)).concat (shown_printable value),
        shownEntries_printable entries⟩

end

end Value

end ClauseFeatures
