import Mathlib.Order.Basic
import ClauseFeatures.Proofs.Yaml.Quoted
import ClauseFeatures.Yaml.Style

/-!
Plain scalars are read as the text that was written. A text in plain style is words with spaces between them; none
of the words ends the scalar, and the next line does because it is indented less.
-/
namespace ClauseFeatures.Yaml

open Stretch

/-! Words. -/

theorem takePlain_append {w tail : List Char}
    (goesOn : ∀ c rest, c :: rest <:+ w → endsPlain false (c :: (rest ++ tail)) = false)
    (ends : endsPlain false tail = true) : takePlain false (w ++ tail) = (w, tail) := by
  induction w with
  | nil =>
      cases tail with
      | nil => rfl
      | cons c tail => exact if_pos ends
  | cons c w ih =>
      have next := ih fun d rest suffix => goesOn d rest (suffix.trans (List.suffix_cons c w))
      rw [List.cons_append, takePlain, goesOn c w List.suffix_rfl, next]
      rfl

/-- A word that can stand in a plain scalar: it begins no comment and no colon ends it. -/
structure IsPlainWord (w : List Char) : Prop where
  nonempty : w ≠ []
  ink : ∀ c ∈ w, isInk c = true
  comment : w.head? ≠ some '#'
  colon : w.getLast? ≠ some ':'

theorem isGap_of_ink {c : Char} (ink : isInk c = true) (cs : List Char) : isGap (c :: cs) = false :=
  Bool.or_eq_false_iff.mpr (isInk_iff.mp ink)

theorem endsPlain_of_isGap {cs : List Char} (gap : isGap cs = true) : endsPlain false cs = true := by
  cases cs with
  | nil => rfl
  | cons c cs =>
      rw [isGap] at gap
      rw [endsPlain, gap]
      rfl

namespace IsPlainWord

variable {w : List Char} (h : IsPlainWord w) {tail : List Char}

include h

theorem startsInk : StartsInk (w ++ tail) := by
  obtain ⟨c, rest, rfl⟩ := List.exists_cons_of_ne_nil h.nonempty
  exact ⟨c, rest ++ tail, rfl, h.ink c List.mem_cons_self⟩

theorem head_append : (w ++ tail).head? ≠ some '#' := by
  obtain ⟨c, rest, rfl⟩ := List.exists_cons_of_ne_nil h.nonempty
  exact h.comment

theorem takePlain_eq (gap : isGap tail = true) : takePlain false (w ++ tail) = (w, tail) := by
  apply takePlain_append _ (endsPlain_of_isGap gap)
  intro c rest suffix
  have gapAfter : (c == ':' && isGap (rest ++ tail)) = false := by
    cases rest with
    | nil =>
        have other : c ≠ ':' := by
          rintro rfl
          obtain ⟨start, rfl⟩ := suffix
          exact h.colon List.getLast?_concat
        rw [beq_eq_false_iff_ne.mpr other, Bool.false_and]
    | cons d rest =>
        have ink := h.ink d (suffix.mem (List.mem_cons_of_mem c List.mem_cons_self))
        rw [List.cons_append, isGap_of_ink ink, Bool.and_false]
  rw [endsPlain]
  simp only [isInk_iff.mp (h.ink c (suffix.mem List.mem_cons_self)), Bool.false_or, Bool.false_and, Bool.or_false]
  exact gapAfter

end IsPlainWord

/-! Gaps. -/

/-- The start of a line, after a line break: its indentation and the rest, with which it goes on. At the end of a
stream there may be no line. -/
structure StartsLine (cs : List Char) (column : Nat) (rest : List Char) : Prop where
  eq : cs = indentation column ++ rest
  ink : rest = [] ∨ StartsInk rest
  indented : 0 < column ∨ cs = []

theorem takePlainBreaks_indentation {cs : List Char} (h : cs = [] ∨ StartsInk cs) (n column : Nat) :
    takePlainBreaks column (indentation n ++ cs) = (some [], column + n, cs) := by
  induction n generalizing column with
  | zero =>
      obtain rfl | ⟨c, rest, rfl, ink⟩ := h
      · rfl
      · obtain ⟨space, lineBreak⟩ := isInk_iff.mp ink
        have other : (c == ' ') = false := (Bool.or_eq_false_iff.mp space).1
        rw [indentation, List.replicate_zero, List.nil_append, takePlainBreaks, other, lineBreak]
        rfl
  | succ n ih =>
      have step : takePlainBreaks column (' ' :: (indentation n ++ cs)) =
          takePlainBreaks (column + 1) (indentation n ++ cs) := rfl
      rw [indentation, List.replicate_succ, List.cons_append, ← indentation, step, ih, Nat.succ_add_eq_add_succ]

theorem takePlainGap_line {cs rest : List Char} {column : Nat} (h : StartsLine cs column rest) :
    takePlainGap ('\n' :: cs) = ⟨[' '], some column, rest⟩ := by
  have breaks := takePlainBreaks_indentation h.ink column 0
  rw [← h.eq, Nat.zero_add] at breaks
  have separator : isSeparator cs = false := by
    obtain indented | rfl := h.indented
    · rw [h.eq]
      exact isSeparator_indentation indented rest
    · rfl
  have drop : ('\n' :: cs).dropWhile (· == ' ') = '\n' :: cs := rfl
  have lineBreak : isBreak '\n' = true := rfl
  rw [takePlainGap, drop]
  simp only [lineBreak, ite_true, separator, Bool.false_eq_true, ite_false, breaks]
  rfl

theorem takePlainGap_spaces {cs : List Char} (ink : StartsInk cs) (n : Nat) :
    takePlainGap (List.replicate n ' ' ++ cs) = ⟨List.replicate n ' ', none, cs⟩ := by
  obtain ⟨c, rest, rfl, ink⟩ := ink
  obtain ⟨space, lineBreak⟩ := isInk_iff.mp ink
  have other : (c == ' ') = false := (Bool.or_eq_false_iff.mp space).1
  have drop : (c :: rest).dropWhile (· == ' ') = c :: rest := List.dropWhile_cons_of_neg (by rw [other]; nofun)
  have take : (c :: rest).takeWhile (· == ' ') = [] := List.takeWhile_cons_of_neg (by rw [other]; nofun)
  have spaces : ∀ d ∈ List.replicate n ' ', (d == ' ') = true := by
    intro d hd
    rw [List.eq_of_mem_replicate hd]
    rfl
  rw [takePlainGap, List.dropWhile_append_of_pos spaces, List.takeWhile_append_of_pos spaces, drop,
    take, List.append_nil]
  simp only [lineBreak, Bool.false_eq_true, ite_false]

/-! Phrases. -/

inductive IsPhrase : List Stretch → Prop
  | last {w : List Char} (word : IsPlainWord w) : IsPhrase [.word w]
  | more {w : List Char} {n : Nat} {rest : List Stretch} (word : IsPlainWord w) (some : 0 < n)
      (next : IsPhrase rest) : IsPhrase (.word w :: .spaces n :: rest)

theorem IsPhrase.startsInk {st : List Stretch} (h : IsPhrase st) {indent : Nat} {folds : Bool} {column : Nat}
    {isFirst : Bool} {tail : List Char} :
    StartsInk (layOut id indent folds column isFirst st ++ tail) ∧
      (layOut id indent folds column isFirst st ++ tail).head? ≠ some '#' := by
  cases h with
  | last word | more word =>
      rw [layOut, List.append_assoc]
      exact ⟨word.startsInk, word.head_append⟩

section Word

variable {w tail : List Char} (word : IsPlainWord w) (ends : takePlain false (w ++ tail) = (w, tail)) {indent : Int}
  (fuel : Nat) (gap : List Char) (brokeLine : Bool) {value more : List Char} {newLine : Option Nat}
  (follows : takePlainGap tail = ⟨value, newLine, more⟩)

include word ends follows

/-- The last word of a plain scalar. -/
theorem readPlain_last (last : value = [] ∨ ∃ column : Nat, newLine = some column ∧ (column : Int) < indent) :
    readPlain false indent (fuel + 1) gap brokeLine (w ++ tail) = ⟨gap ++ w, newLine.isSome, more⟩ := by
  have nonempty : w.isEmpty = false := List.isEmpty_eq_false_iff.mpr word.nonempty
  rw [readPlain, if_neg word.head_append, ends]
  simp only [nonempty, Bool.false_eq_true, ite_false, follows, Bool.false_or]
  rw [if_neg, List.append_nil]
  obtain rfl | ⟨column, rfl, less⟩ := last
  · nofun
  · simp
    omega

/-- A word with which a plain scalar does not end. -/
theorem readPlain_more (nonempty : value ≠ []) (comment : more.head? ≠ some '#')
    (indented : ∀ column ∈ newLine, indent ≤ (column : Int)) :
    readPlain false indent (fuel + 1) gap brokeLine (w ++ tail) =
      let found := readPlain false indent fuel value newLine.isSome more
      { found with text := gap ++ w ++ found.text } := by
  have goesOn : (!value.isEmpty && more.head? != some '#') = true := by
    rw [List.isEmpty_eq_false_iff.mpr nonempty, bne_iff_ne.mpr comment]
    rfl
  rw [readPlain, if_neg word.head_append, ends]
  simp only [List.isEmpty_eq_false_iff.mpr word.nonempty, Bool.false_eq_true, ite_false, follows, Bool.false_or]
  rw [if_pos]
  rw [goesOn, Bool.true_and]
  cases newLine with
  | none => rfl
  | some column => exact decide_eq_true (indented column rfl)

end Word

theorem takePlainGap_layOut {margin : Nat} (indented : 0 < margin) {rest : List Stretch} (h : IsPhrase rest)
    (tail : List Char) (folds : Bool) (column : Nat) (isFirst : Bool) {n : Nat} (some : 0 < n) :
    ∃ newLine column', isGap (layOut id margin folds column isFirst (.spaces n :: rest) ++ tail) = true ∧
      (layOut id margin folds column' false rest ++ tail).length ≤
        (layOut id margin folds column isFirst (.spaces n :: rest) ++ tail).length ∧
      takePlainGap (layOut id margin folds column isFirst (.spaces n :: rest) ++ tail) =
        ⟨List.replicate n ' ', newLine, layOut id margin folds column' false rest ++ tail⟩ ∧
      ∀ column ∈ newLine, column = margin := by
  obtain ⟨rfl, -, written⟩ | written := layOut_spaces id margin folds column isFirst n rest
  · rw [written, List.cons_append, List.append_assoc]
    have line : StartsLine (indentation margin ++ (layOut id margin folds margin false rest ++ tail)) margin
        (layOut id margin folds margin false rest ++ tail) := ⟨rfl, .inr h.startsInk.1, .inl indented⟩
    refine ⟨_, margin, rfl, ?_, takePlainGap_line line, fun _ => Eq.symm ∘ Option.some.inj⟩
    simp only [List.length_cons, List.length_append]
    omega
  · rw [written, List.append_assoc]
    have gap : isGap (List.replicate n ' ' ++ (layOut id margin folds (column + n) false rest ++ tail)) = true := by
      obtain ⟨k, rfl⟩ := Nat.exists_eq_succ_of_ne_zero (Nat.ne_of_gt some)
      rfl
    refine ⟨none, column + n, gap, ?_, takePlainGap_spaces h.startsInk.1 n, nofun⟩
    simp only [List.length_append]
    omega

section Phrase

variable {indent margin : Nat} (within : indent ≤ margin) (indented : 0 < margin) {tail rest : List Char}
  {lineColumn : Nat} (line : StartsLine tail lineColumn rest) (less : lineColumn < indent)

include within indented line less

theorem readPlain_layOut {st : List Stretch} (h : IsPhrase st) (folds : Bool) (gap : List Char) (brokeLine : Bool)
    (column : Nat) (isFirst : Bool) (fuel : Nat)
    (enough : (layOut id margin folds column isFirst st ++ '\n' :: tail).length < fuel) :
    readPlain false indent fuel gap brokeLine (layOut id margin folds column isFirst st ++ '\n' :: tail) =
      ⟨gap ++ st.flatMap chars, true, rest⟩ := by
  induction h generalizing gap brokeLine column isFirst fuel with
  | last word =>
      rename_i w
      obtain ⟨fuel, rfl⟩ := Nat.exists_eq_succ_of_ne_zero (Nat.ne_of_gt (Nat.zero_lt_of_lt enough))
      have ends : takePlain false (w ++ '\n' :: tail) = (w, '\n' :: tail) := word.takePlain_eq rfl
      rw [layOut, layOut, id, List.append_nil, readPlain_last word ends _ _ _ (takePlainGap_line line)
        (.inr ⟨lineColumn, rfl, Int.ofNat_lt.mpr less⟩), List.flatMap_singleton]
      rfl
  | more word some next ih =>
      rename_i w n st
      obtain ⟨fuel, rfl⟩ := Nat.exists_eq_succ_of_ne_zero (Nat.ne_of_gt (Nat.zero_lt_of_lt enough))
      rw [layOut, id, List.append_assoc] at enough ⊢
      obtain ⟨newLine, column', isGap, shorter, follows, atMargin⟩ :=
        takePlainGap_layOut indented next ('\n' :: tail) folds (column + w.length) false some
      have nonempty : List.replicate n ' ' ≠ [] := by
        rw [Ne, List.replicate_eq_nil_iff]
        omega
      have fits : (layOut id margin folds column' false st ++ '\n' :: tail).length < fuel := by
        have pos := List.length_pos_of_ne_nil word.nonempty
        rw [List.length_append] at enough
        omega
      rw [readPlain_more word (word.takePlain_eq isGap) fuel gap brokeLine follows nonempty next.startsInk.2
        (fun column hc => Int.ofNat_le.mpr (within.trans_eq (atMargin column hc).symm)), ih _ _ _ _ fuel fits]
      simp only [List.flatMap_cons, chars, List.append_assoc]

end Phrase

/-! Text in plain style. -/

/-- What a text is like that is written in plain style. -/
structure IsPlain (cs : List Char) : Prop where
  shown : AllShown cs
  form : form cs = .text
  oneLine : '\n' ∉ cs
  noSpaceFirst : cs.head? ≠ some ' '
  noSpaceLast : cs.getLast? ≠ some ' '
  begins : beginsIndicated cs = false
  goesOn : hasEnd cs = false

/-- The styles of texts by what the texts are like. -/
theorem styleOf_spec (cs : List Char) :
    (styleOf cs = .plain ∧ IsPlain cs) ∨ styleOf cs = .double ∨
      (styleOf cs = .single ∧ AllShown cs ∧ hasPair ' ' '\n' cs = false ∧ hasPair '\n' ' ' cs = false) := by
  unfold styleOf
  split
  · exact .inr (.inl rfl)
  · rename_i visible
    simp only [Bool.not_eq_true, Bool.or_eq_false_iff, List.any_eq_false] at visible
    obtain ⟨⟨shown, before⟩, after⟩ := visible
    split
    · exact .inr (.inr ⟨rfl, shown, before, after⟩)
    · rename_i bare
      simp only [Bool.not_eq_true, Bool.or_eq_false_iff, bne_eq_false_iff_eq, beq_eq_false_iff_ne] at bare
      obtain ⟨⟨⟨⟨⟨form, oneLine⟩, first⟩, last⟩, begins⟩, goesOn⟩ := bare
      have oneLine : '\n' ∉ cs := fun mem => Bool.eq_false_iff.mp oneLine (List.contains_iff_mem.mpr mem)
      exact .inl ⟨rfl, shown, form, oneLine, first, last, begins, goesOn⟩

theorem hasEnd_append {cs more : List Char} (h : hasEnd (cs ++ more) = false) : hasEnd more = false := by
  induction cs with
  | nil => exact h
  | cons c cs ih => exact ih (Bool.or_eq_false_iff.mp h).2

theorem isPlainWord_of_hasEnd {w more : List Char} (nonempty : w ≠ []) (ink : ∀ c ∈ w, isInk c = true)
    (comment : w.head? ≠ some '#') (gap : isGap more = true) (h : hasEnd (w ++ more) = false) : IsPlainWord w where
  nonempty := nonempty
  ink := ink
  comment := comment
  colon last := by
    obtain ⟨start, rfl⟩ := List.getLast?_eq_some_iff.mp last
    rw [List.append_assoc] at h
    have colon : (':' == ':' && isGap more) = false :=
      (Bool.or_eq_false_iff.mp (Bool.or_eq_false_iff.mp (hasEnd_append h)).1).1
    rw [gap] at colon
    cases colon

theorem isPhrase_of_alternate {st : List Stretch} (h : Alternate st) (shown : AllShown (st.flatMap chars))
    (oneLine : '\n' ∉ st.flatMap chars) (noSpaceLast : (st.flatMap chars).getLast? ≠ some ' ')
    (goesOn : hasEnd (st.flatMap chars) = false) :
    (LeadsToWord st → st ≠ [] → (st.flatMap chars).head? ≠ some '#' → IsPhrase st) ∧
      ∀ n rest, st = .spaces n :: rest → 0 < n ∧ IsPhrase rest := by
  induction h with
  | nil => exact ⟨fun _ nonempty => absurd rfl nonempty, nofun⟩
  | word nonempty bare gap next ih =>
      rename_i w rest
      refine ⟨fun _ _ comment => ?_, nofun⟩
      rw [List.flatMap_cons] at shown oneLine noSpaceLast goesOn comment
      obtain ⟨letters, shown⟩ := List.forall_mem_append.mp shown
      have ink := isInk_of_bare bare letters
      have comment : w.head? ≠ some '#' := by
        obtain ⟨c, w, rfl⟩ := List.exists_cons_of_ne_nil nonempty
        exact comment
      have isWord (gap : isGap (rest.flatMap chars) = true) : IsPlainWord w :=
        isPlainWord_of_hasEnd nonempty ink comment gap goesOn
      have noSpaceLast : (rest.flatMap chars).getLast? ≠ some ' ' := fun last => by
        rw [List.getLast?_append, last] at noSpaceLast
        exact noSpaceLast rfl
      have oneLine : '\n' ∉ rest.flatMap chars := fun mem => oneLine (List.mem_append_right _ mem)
      have spaces := (ih shown oneLine noSpaceLast (hasEnd_append goesOn)).2
      cases next with
      | nil => exact .last (isWord rfl)
      | word => cases gap _ rfl
      | spaces some word next =>
          obtain ⟨some, phrase⟩ := spaces _ _ rfl
          refine .more (isWord ?_) some phrase
          obtain ⟨k, rfl⟩ := Nat.exists_eq_succ_of_ne_zero (Nat.ne_of_gt some)
          rfl
      | breaks some word next =>
          refine absurd (List.mem_append_left _ ?_) oneLine
          rw [chars, List.mem_replicate]
          exact ⟨Nat.ne_of_gt some, rfl⟩
  | spaces some word next ih =>
      rename_i n rest
      refine ⟨fun leads => absurd (leads _ rfl) Bool.false_ne_true, fun n' rest' same => ?_⟩
      cases same
      obtain ⟨k, rfl⟩ := Nat.exists_eq_succ_of_ne_zero (Nat.ne_of_gt some)
      rw [List.flatMap_cons] at shown oneLine noSpaceLast goesOn
      have nonempty : rest ≠ [] := by
        rintro rfl
        rw [List.flatMap_nil, List.append_nil, chars, List.getLast?_replicate] at noSpaceLast
        exact noSpaceLast rfl
      have noSpaceLast : (rest.flatMap chars).getLast? ≠ Option.some ' ' := fun last => by
        rw [List.getLast?_append, last] at noSpaceLast
        exact noSpaceLast rfl
      have oneLine : '\n' ∉ rest.flatMap chars := fun mem => oneLine (List.mem_append_right _ mem)
      have comment : (rest.flatMap chars).head? ≠ Option.some '#' := by
        rw [chars, List.replicate_succ', List.append_assoc] at goesOn
        have after := (Bool.or_eq_false_iff.mp (Bool.or_eq_false_iff.mp (hasEnd_append goesOn)).1).2
        exact beq_eq_false_iff_ne.mp after
      have phrase := (ih (List.forall_mem_append.mp shown).2 oneLine noSpaceLast (hasEnd_append goesOn)).1
      exact ⟨some, phrase word nonempty comment⟩
  | breaks some word next ih => exact ⟨fun leads => absurd (leads _ rfl) Bool.false_ne_true, nofun⟩

theorem hasPair_of_notMem {a b : Char} {cs : List Char} (h : a ∉ cs ∨ b ∉ cs) : hasPair a b cs = false := by
  induction cs with
  | nil => rfl
  | cons c cs ih =>
      have next := ih (h.imp List.not_mem_of_not_mem_cons List.not_mem_of_not_mem_cons)
      cases cs with
      | nil => rfl
      | cons d cs =>
          have pair : (c == a && d == b) = false := by
            rw [Bool.and_eq_false_iff, beq_eq_false_iff_ne, beq_eq_false_iff_ne]
            refine h.imp (fun absent same => absent ?_) fun absent same => absent ?_
            · exact same ▸ List.mem_cons_self
            · exact same ▸ List.mem_cons_of_mem c List.mem_cons_self
          rw [hasPair, pair, next]
          rfl

theorem IsPlain.isPhrase {cs : List Char} (h : IsPlain cs) : IsPhrase (stretches cs) := by
  have nonempty : cs ≠ [] := by
    rintro rfl
    cases h.form
  have alternate := alternate_stretches (hasPair_of_notMem (.inr h.oneLine)) (hasPair_of_notMem (.inl h.oneLine))
  have phrase := isPhrase_of_alternate alternate
  rw [chars_stretches] at phrase
  refine (phrase h.shown h.oneLine h.noSpaceLast h.goesOn).1 ?_ ?_ ?_
  · intro s hs
    obtain ⟨rest, same⟩ := List.head?_eq_some_iff.mp hs
    obtain ⟨spaces, breaks⟩ := head_of_stretches same
    cases s with
    | word => rfl
    | spaces n => exact absurd (spaces n rfl) h.noSpaceFirst
    | breaks n => exact absurd (List.mem_of_head? (breaks n rfl)) h.oneLine
  · intro none
    have same := chars_stretches cs
    rw [none] at same
    exact nonempty same.symm
  · intro comment
    obtain ⟨rest, rfl⟩ := List.head?_eq_some_iff.mp comment
    cases h.begins

section Line

variable {indent margin : Nat} {tail rest : List Char} {lineColumn : Nat} (line : StartsLine tail lineColumn rest)
  (less : lineColumn < indent)

include line less

/-- A word that is written as it is. -/
theorem readPlain_isPlainWord {w : List Char} (word : IsPlainWord w) :
    readPlain false indent ((w ++ '\n' :: tail).length + 1) [] false (w ++ '\n' :: tail) = ⟨w, true, rest⟩ := by
  have indented := Nat.zero_lt_of_lt less
  have read := readPlain_layOut (Nat.le_refl indent) indented line less (.last word) true [] false 0 true
    ((w ++ '\n' :: tail).length + 1)
  rw [layOut, layOut, id, List.append_nil, List.flatMap_singleton] at read
  exact read (Nat.lt_succ_self _)

/-- A text in plain style is read back. -/
theorem readPlain_writePlain (within : indent ≤ margin) {cs : List Char} (h : IsPlain cs) (folds : Bool)
    (column : Nat) :
    readPlain false indent ((writePlain margin folds column cs ++ '\n' :: tail).length + 1) [] false
      (writePlain margin folds column cs ++ '\n' :: tail) = ⟨cs, true, rest⟩ := by
  have indented := Nat.lt_of_lt_of_le (Nat.zero_lt_of_lt less) within
  have read := readPlain_layOut within indented line less h.isPhrase folds [] false column true _
    (Nat.lt_succ_self _)
  rwa [chars_stretches] at read

end Line

end ClauseFeatures.Yaml
