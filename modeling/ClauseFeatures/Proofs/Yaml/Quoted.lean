import Mathlib.Tactic.Common
import ClauseFeatures.Proofs.Outcome
import ClauseFeatures.Proofs.Yaml.Stretch

/-!
Quoted scalars are read as the text that was written. Between single quotes the stretches are read one by
one: a word letter by letter, a gap as a whole. Between double quotes the code points are read one by one,
whether they stand for themselves or are escaped, and an escaped line break stands for nothing.
-/
namespace ClauseFeatures.Yaml

open Stretch

/-- A reader with fuel that reads characters as a value, whenever there is fuel for all of them. -/
def Reads {A : Type} (read : Nat → List Char → Except Fault (A × List Char)) (cs : List Char) (v : A)
    (rest : List Char) : Prop :=
  ∀ fuel, cs.length < fuel → read fuel cs = .ok (v, rest)

theorem Reads.step {A : Type} {read : Nat → List Char → Except Fault (A × List Char)} {cs rest : List Char}
    {v : A} (h : ∀ fuel, cs.length ≤ fuel → read (fuel + 1) cs = .ok (v, rest)) : Reads read cs v rest := by
  intro fuel enough
  cases fuel with
  | zero => cases enough
  | succ fuel => exact h fuel (Nat.lt_succ_iff.mp enough)

/-! Gaps. -/

/-- Whether a character is neither a space nor a line break. -/
def isInk (c : Char) : Bool := !(isSpace c || isBreak c)

theorem isInk_iff {c : Char} : isInk c = true ↔ isSpace c = false ∧ isBreak c = false := by
  rw [isInk, Bool.not_eq_true', Bool.or_eq_false_iff]

/-- Whether a stream goes on with something else than spaces and line breaks. -/
def StartsInk (cs : List Char) : Prop := ∃ c rest, cs = c :: rest ∧ isInk c = true

theorem dropWhile_spaces {cs : List Char} (h : StartsInk cs) (n : Nat) :
    (List.replicate n ' ' ++ cs).dropWhile isSpace = cs ∧
      (List.replicate n ' ' ++ cs).takeWhile isSpace = List.replicate n ' ' := by
  obtain ⟨c, rest, rfl, ink⟩ := h
  have spaces : ∀ d ∈ List.replicate n ' ', isSpace d = true := by
    intro d hd
    rw [List.eq_of_mem_replicate hd]
    rfl
  have other : ¬ isSpace c = true := by
    rw [(isInk_iff.mp ink).1]
    nofun
  rw [List.dropWhile_append_of_pos spaces, List.takeWhile_append_of_pos spaces, List.dropWhile_cons_of_neg other,
    List.takeWhile_cons_of_neg other, List.append_nil]
  exact ⟨rfl, rfl⟩

theorem takeSpaces_spaces {cs : List Char} (h : StartsInk cs) (n : Nat) :
    takeSpaces (List.replicate n ' ' ++ cs) = .ok (List.replicate n ' ', cs) := by
  obtain ⟨drop, take⟩ := dropWhile_spaces h n
  obtain ⟨c, rest, rfl, ink⟩ := h
  unfold takeSpaces
  rw [drop]
  simp only [(isInk_iff.mp ink).2, Bool.false_eq_true, ite_false, take]

theorem isSeparator_indentation {n : Nat} (indented : 0 < n) (cs : List Char) :
    isSeparator (indentation n ++ cs) = false := by
  obtain ⟨k, rfl⟩ := Nat.exists_eq_succ_of_ne_zero (Nat.ne_of_gt indented)
  rw [isSeparator, indentation, List.replicate_succ, List.cons_append]
  cases List.replicate k ' ' ++ cs with
  | nil => rfl
  | cons d rest =>
      cases rest with
      | nil => rfl
      | cons e rest => rfl

section LineBreaks

variable {indent : Nat} (indented : 0 < indent) {cs : List Char} (h : StartsInk cs)

include indented h

theorem takeBreaks_breaks (n fuel : Nat) (enough : n < fuel) :
    takeBreaks fuel (List.replicate n '\n' ++ (indentation indent ++ cs)) = .ok (List.replicate n '\n', cs) := by
  induction n generalizing fuel with
  | zero =>
      obtain ⟨fuel, rfl⟩ := Nat.exists_eq_succ_of_ne_zero (Nat.ne_of_gt enough)
      obtain ⟨drop, -⟩ := dropWhile_spaces h indent
      obtain ⟨c, rest, rfl, ink⟩ := h
      rw [List.replicate_zero, List.nil_append]
      unfold takeBreaks
      rw [isSeparator_indentation indented, indentation, drop]
      simp only [(isInk_iff.mp ink).2, Bool.false_eq_true, ite_false]
  | succ n ih =>
      obtain ⟨fuel, rfl⟩ := Nat.exists_eq_succ_of_ne_zero (Nat.ne_of_gt (Nat.zero_lt_of_lt enough))
      have read := ih fuel (Nat.lt_of_succ_lt_succ enough)
      rw [List.replicate_succ, List.cons_append]
      generalize List.replicate n '\n' ++ (indentation indent ++ cs) = rest at read
      have separator : isSeparator ('\n' :: rest) = false := by
        cases rest with
        | nil => rfl
        | cons d rest =>
            cases rest with
            | nil => rfl
            | cons e rest => rfl
      have drop : ('\n' :: rest).dropWhile isSpace = '\n' :: rest := rfl
      have lineBreak : isBreak '\n' = true := rfl
      unfold takeBreaks
      rw [separator, drop]
      simp only [lineBreak, Bool.false_eq_true, ite_false, ite_true, read, ok_bind]
      rfl

theorem takeSpaces_breaks (n : Nat) :
    takeSpaces ('\n' :: (List.replicate n '\n' ++ (indentation indent ++ cs))) =
      .ok (if n = 0 then [' '] else List.replicate n '\n', cs) := by
  have enough : n < (List.replicate n '\n' ++ (indentation indent ++ cs)).length + 1 := by
    rw [List.length_append, List.length_replicate]
    omega
  have read := takeBreaks_breaks indented h n _ enough
  generalize List.replicate n '\n' ++ (indentation indent ++ cs) = rest at read
  have drop : ('\n' :: rest).dropWhile isSpace = '\n' :: rest := rfl
  have lineBreak : isBreak '\n' = true := rfl
  unfold takeSpaces
  rw [drop]
  simp only [lineBreak, ite_true, read, ok_bind]
  cases n with
  | zero => rfl
  | succ n => rfl

end LineBreaks

/-! Layouts. -/

theorem range_of_shown {c : Char} (shown : isSpecial c = false) (other : c ≠ '\n') :
    0x20 ≤ c.toNat ∧ c.toNat ≤ 0x7E := by
  unfold isSpecial at shown
  rw [bne_iff_ne.mpr other, Bool.true_and, Bool.not_eq_false', Bool.and_eq_true, decide_eq_true_eq,
    decide_eq_true_eq] at shown
  exact shown

theorem isSpecial_of_range {c : Char} (range : 0x20 ≤ c.toNat ∧ c.toNat ≤ 0x7E) : isSpecial c = false := by
  rw [isSpecial, decide_eq_true range.1, decide_eq_true range.2]
  exact Bool.and_false _

theorem isInk_of_range {c : Char} (range : 0x20 ≤ c.toNat ∧ c.toNat ≤ 0x7E) (other : c ≠ ' ') :
    isInk c = true := by
  have ne {d : Char} (far : d.toNat < 0x20 ∨ 0x7E < d.toNat) : (c == d) = false := by
    refine beq_eq_false_iff_ne.mpr ?_
    rintro rfl
    omega
  rw [isInk_iff, isSpace, isBreak, beq_eq_false_iff_ne.mpr other, ne (d := '\t') (by decide),
    ne (d := '\n') (by decide), ne (d := '\x85') (by decide), ne (d := '\u2028') (by decide),
    ne (d := '\u2029') (by decide)]
  exact ⟨rfl, rfl⟩

/-- Text without characters that are written as escapes. -/
def AllShown (cs : List Char) : Prop := ∀ c ∈ cs, isSpecial c = false

theorem isInk_of_bare {w : List Char} (bare : ∀ c ∈ w, isBare c = true) (shown : AllShown w) :
    ∀ c ∈ w, isInk c = true := by
  intro c hc
  obtain ⟨space, lineBreak⟩ := Bool.and_eq_true_iff.mp (bare c hc)
  exact isInk_of_range (range_of_shown (shown c hc) (bne_iff_ne.mp lineBreak)) (bne_iff_ne.mp space)

/-- The two ways in which a gap before a word is laid out. -/
theorem layOut_spaces (word : List Char → List Char) (indent : Nat) (folds : Bool) (column : Nat) (isFirst : Bool)
    (n : Nat) (rest : List Stretch) :
    (n = 1 ∧ rest ≠ [] ∧ layOut word indent folds column isFirst (.spaces n :: rest) =
        '\n' :: (indentation indent ++ layOut word indent folds indent false rest)) ∨
      layOut word indent folds column isFirst (.spaces n :: rest) =
        List.replicate n ' ' ++ layOut word indent folds (column + n) false rest := by
  rw [layOut]
  split
  · rename_i fold
    simp only [Bool.and_eq_true, Bool.not_eq_true', decide_eq_true_eq, List.isEmpty_eq_false_iff] at fold
    exact .inl ⟨fold.1.1.1.1, fold.2, rfl⟩
  · exact .inr rfl

/-- A layout that begins with a word begins with a character. -/
theorem layOut_startsInk {word : List Char → List Char}
    (visible : ∀ w, w ≠ [] → (∀ c ∈ w, isInk c = true) → StartsInk (word w)) {indent : Nat} {folds : Bool}
    {column : Nat} {isFirst : Bool} {st : List Stretch} (h : Alternate st) (leads : LeadsToWord st)
    (shown : AllShown (st.flatMap chars)) {tail : List Char} (ink : st = [] → StartsInk tail) :
    StartsInk (layOut word indent folds column isFirst st ++ tail) := by
  cases h with
  | nil => exact ink rfl
  | word some bare =>
      rename_i w rest _ _
      have letters := isInk_of_bare bare fun c hc => shown c (List.mem_append_left _ hc)
      obtain ⟨c, cs, same, ink⟩ := visible w some letters
      rw [layOut]
      simp only [same]
      exact ⟨c, _, rfl, ink⟩
  | spaces | breaks => cases leads _ rfl

/-- A gap of a layout is read as a whole. -/
theorem takeSpaces_layOut {word : List Char → List Char} {indent : Nat} (indented : 0 < indent) {folds : Bool}
    {s : Stretch} {rest : List Stretch} {tail : List Char} (h : Alternate (s :: rest)) (gap : s.isWord = false)
    (follows : ∀ column, StartsInk (layOut word indent folds column false rest ++ tail)) (column : Nat)
    (isFirst : Bool) :
    ∃ c cs column', layOut word indent folds column isFirst (s :: rest) ++ tail = c :: cs ∧ isInk c = false ∧
      (layOut word indent folds column' false rest ++ tail).length ≤ cs.length ∧
      takeSpaces (c :: cs) = .ok (s.chars, layOut word indent folds column' false rest ++ tail) := by
  cases h with
  | word => cases gap
  | spaces some =>
      rename_i n _ _
      obtain ⟨rfl, _, written⟩ | written := layOut_spaces word indent folds column isFirst n rest
      · have read := takeSpaces_breaks indented (follows indent) 0
        rw [List.replicate_zero, List.nil_append] at read
        refine ⟨'\n', _, indent, by rw [written, List.cons_append, List.append_assoc], rfl, ?_, read⟩
        simp only [List.length_append]
        omega
      · obtain ⟨k, rfl⟩ := Nat.exists_eq_succ_of_ne_zero (Nat.ne_of_gt some)
        have read := takeSpaces_spaces (follows (column + (k + 1))) (k + 1)
        rw [List.replicate_succ, List.cons_append] at read
        refine ⟨' ', _, _, by rw [written, List.append_assoc, List.replicate_succ, List.cons_append], rfl, ?_, read⟩
        simp only [List.length_append]
        omega
  | breaks some =>
      rename_i n _ _
      have read := takeSpaces_breaks indented (follows indent) n
      rw [if_neg (Nat.ne_of_gt some)] at read
      refine ⟨'\n', _, indent, ?_, rfl, ?_, read⟩
      · rw [layOut, List.replicate_succ]
        simp only [List.cons_append, List.append_assoc]
      · simp only [List.length_append]
        omega

/-! Single quotes. -/

/-- A quote that is not doubled ends the scalar. -/
theorem readSingle_quote {rest : List Char} (h : rest.head? ≠ some '\x27') (fuel : Nat) :
    readSingle (fuel + 1) ('\x27' :: rest) = .ok ([], rest) := by
  rw [readSingle]
  rintro cs rfl
  exact h rfl

/-- Any other character stands for itself, or begins a gap that is read as a whole. -/
theorem readSingle_cons {c : Char} (other : c ≠ '\x27') (fuel : Nat) (cs : List Char) :
    readSingle (fuel + 1) (c :: cs) =
      if isSpace c || isBreak c then takeSpaces (c :: cs) >>= fun gap =>
        readSingle fuel gap.2 >>= fun more => pure (gap.1 ++ more.1, more.2)
      else readSingle fuel cs >>= fun more => pure (c :: more.1, more.2) := by
  rw [readSingle]
  · exact fun _ same _ => other same
  · exact other

namespace Reads

variable {cs v rest : List Char}

theorem singleEnd (h : rest.head? ≠ some '\x27') : Reads readSingle ('\x27' :: rest) [] rest :=
  .step fun fuel _ => readSingle_quote h fuel

theorem singleQuote (h : Reads readSingle cs v rest) :
    Reads readSingle ('\x27' :: '\x27' :: cs) ('\x27' :: v) rest := by
  refine .step fun fuel enough => ?_
  have read := h fuel (by simp only [List.length_cons] at enough; omega)
  have step : readSingle (fuel + 1) ('\x27' :: '\x27' :: cs) =
      readSingle fuel cs >>= fun found => pure ('\x27' :: found.1, found.2) := rfl
  rw [step, read]
  rfl

theorem singleInk {c : Char} (ink : isInk c = true) (other : c ≠ '\x27') (h : Reads readSingle cs v rest) :
    Reads readSingle (c :: cs) (c :: v) rest := by
  obtain ⟨space, lineBreak⟩ := isInk_iff.mp ink
  refine .step fun fuel enough => ?_
  have read := h fuel (by simp only [List.length_cons] at enough; omega)
  simp only [readSingle_cons other, space, lineBreak, Bool.or_self, Bool.false_eq_true, ite_false, read]
  rfl

theorem singleGap {c : Char} {gap cs' : List Char} (blank : isInk c = false)
    (taken : takeSpaces (c :: cs) = .ok (gap, cs')) (shorter : cs'.length ≤ cs.length)
    (h : Reads readSingle cs' v rest) : Reads readSingle (c :: cs) (gap ++ v) rest := by
  have other : c ≠ '\x27' := by
    rintro rfl
    cases blank
  have blank : (isSpace c || isBreak c) = true := by rwa [isInk, Bool.not_eq_false'] at blank
  refine .step fun fuel enough => ?_
  have read := h fuel (by simp only [List.length_cons] at enough; omega)
  simp only [readSingle_cons other, blank, ite_true, taken, ok_bind, read]
  rfl

theorem singleWord {w : List Char} (ink : ∀ c ∈ w, isInk c = true) (h : Reads readSingle cs v rest) :
    Reads readSingle (doubleQuotes w ++ cs) (w ++ v) rest := by
  induction w with
  | nil => exact h
  | cons c w ih =>
      obtain ⟨first, ink⟩ := List.forall_mem_cons.mp ink
      have next := ih ink
      by_cases quote : c = '\x27'
      · rw [quote]
        exact next.singleQuote
      · have written : doubleQuotes (c :: w) = c :: doubleQuotes w := by
          rw [doubleQuotes, List.flatMap_cons, if_neg quote]
          rfl
        rw [written]
        exact next.singleInk first quote

end Reads

theorem doubleQuotes_startsInk (w : List Char) (some : w ≠ []) (ink : ∀ c ∈ w, isInk c = true) :
    StartsInk (doubleQuotes w) := by
  obtain ⟨c, w, rfl⟩ := List.exists_cons_of_ne_nil some
  by_cases quote : c = '\x27'
  · rw [quote]
    exact ⟨_, _, rfl, rfl⟩
  · refine ⟨c, doubleQuotes w, ?_, ink c List.mem_cons_self⟩
    rw [doubleQuotes, List.flatMap_cons, if_neg quote]
    rfl

section Single

variable {indent : Nat} (indented : 0 < indent) (folds : Bool) {tail : List Char} (ends : tail.head? ≠ some '\x27')

include indented ends

theorem readSingle_layOut {st : List Stretch} (h : Alternate st) (shown : AllShown (st.flatMap chars)) (column : Nat)
    (isFirst : Bool) : Reads readSingle (layOut doubleQuotes indent folds column isFirst st ++ '\x27' :: tail)
      (st.flatMap chars) tail := by
  have readGap {s : Stretch} {rest : List Stretch} (gap : s.isWord = false) (h : Alternate (s :: rest))
      (next : Alternate rest) (word : LeadsToWord rest) (shown : AllShown (rest.flatMap chars))
      (ih : ∀ column isFirst, Reads readSingle
        (layOut doubleQuotes indent folds column isFirst rest ++ '\x27' :: tail) (rest.flatMap chars) tail)
      (column : Nat) (isFirst : Bool) : Reads readSingle
        (layOut doubleQuotes indent folds column isFirst (s :: rest) ++ '\x27' :: tail)
        ((s :: rest).flatMap chars) tail := by
    have follows (column : Nat) : StartsInk (layOut doubleQuotes indent folds column false rest ++ '\x27' :: tail) :=
      layOut_startsInk doubleQuotes_startsInk next word shown fun _ => ⟨_, _, rfl, rfl⟩
    obtain ⟨c, cs, column', written, blank, shorter, taken⟩ :=
      takeSpaces_layOut indented h gap follows column isFirst
    rw [written, List.flatMap_cons]
    exact .singleGap blank taken shorter (ih column' false)
  induction h generalizing column isFirst with
  | nil => exact .singleEnd ends
  | word some bare gap next ih =>
      rename_i w rest
      obtain ⟨letters, shown⟩ := List.forall_mem_append.mp shown
      rw [layOut, List.append_assoc, List.flatMap_cons]
      exact .singleWord (isInk_of_bare bare letters) (ih shown _ _)
  | spaces some word next ih =>
      have shown := (List.forall_mem_append.mp shown).2
      exact readGap rfl (.spaces some word next) next word shown (ih shown) column isFirst
  | breaks some word next ih =>
      have shown := (List.forall_mem_append.mp shown).2
      exact readGap rfl (.breaks some word next) next word shown (ih shown) column isFirst

/-- A text between single quotes is read back. -/
theorem readSingle_writeSingle {cs : List Char} (shown : AllShown cs) (before : hasPair ' ' '\n' cs = false)
    (after : hasPair '\n' ' ' cs = false) (column : Nat) :
    ∃ body, writeSingle indent folds column cs ++ tail = '\x27' :: body ∧ Reads readSingle body cs tail := by
  have read := readSingle_layOut indented folds ends (alternate_stretches before after)
    (by rwa [chars_stretches]) (column + 1) true
  rw [chars_stretches] at read
  refine ⟨_, ?_, read⟩
  rw [writeSingle, List.append_assoc, List.cons_append]
  rfl

end Single

end ClauseFeatures.Yaml
