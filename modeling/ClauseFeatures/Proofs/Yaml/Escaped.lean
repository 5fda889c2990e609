import Mathlib.Order.Basic
import ClauseFeatures.Proofs.Yaml.Quoted

/-!
Text between double quotes. What is written is told by a relation between code points and characters: a code
point stands for itself or is escaped, and an escaped line break may stand before any of them. The writer keeps
to this relation and the reader inverts it.
-/
namespace ClauseFeatures

namespace Text.Code

theorem ofNat?_toNat (code : Code) : ofNat? code.toNat = some code := by
  cases code with
  | char c => exact (dif_pos c.valid).trans rfl
  | surrogate offset =>
      have invalid : ¬ (firstSurrogate + offset).isValidChar := by
        unfold firstSurrogate Nat.isValidChar
        omega
      have back : firstSurrogate + offset - firstSurrogate = offset.val := Nat.add_sub_cancel_left _ _
      have valid : firstSurrogate ≤ firstSurrogate + offset ∧ firstSurrogate + offset - firstSurrogate < 2048 :=
        ⟨Nat.le_add_right _ _, by rw [back]; exact offset.isLt⟩
      rw [toNat, ofNat?, dif_neg invalid, dif_pos valid]
      simp only [back]

theorem toNat_lt (code : Code) : code.toNat < 0x110000 := by
  cases code with
  | char c =>
      have valid : c.toNat < 0xd800 ∨ 0xdfff < c.toNat ∧ c.toNat < 0x110000 := c.valid
      rw [toNat]
      omega
  | surrogate offset =>
      have small := offset.isLt
      rw [toNat, firstSurrogate]
      omega

end Text.Code

namespace Yaml

open Text (Code)

/-! Escapes. -/

/-- Hexadecimal digits that stand for a number. -/
def IsHex (cs : List Char) (n : Nat) : Prop :=
  ∃ values, cs.mapM hexValue? = some values ∧ values.length = cs.length ∧
    values.foldl (fun n d => 16 * n + d) 0 = n

theorem isHex_digit {d : Nat} (small : d < 16) : IsHex [d.digitChar.toUpper] d := by
  have digit : ∀ d < 16, hexValue? d.digitChar.toUpper = some d := by decide
  refine ⟨[d], ?_, rfl, ?_⟩
  · rw [List.mapM_cons, digit d small]
    rfl
  · rw [List.foldl_cons, List.foldl_nil, Nat.mul_zero, Nat.zero_add]

theorem IsHex.snoc {cs : List Char} {n : Nat} (h : IsHex cs n) {d : Nat} (small : d < 16) :
    IsHex (cs ++ [d.digitChar.toUpper]) (16 * n + d) := by
  obtain ⟨values, read, sized, rfl⟩ := h
  obtain ⟨last, readLast, sizedLast, value⟩ := isHex_digit small
  refine ⟨values ++ last, ?_, ?_, ?_⟩
  · rw [List.mapM_append, read, readLast]
    rfl
  · rw [List.length_append, List.length_append, sized, sizedLast]
  · obtain ⟨v, rfl⟩ := List.length_eq_one_iff.mp sizedLast
    rw [List.foldl_cons, List.foldl_nil] at value
    rw [List.foldl_append, List.foldl_cons, List.foldl_nil]
    omega

theorem IsHex.zeros {cs : List Char} {n : Nat} (h : IsHex cs n) (k : Nat) :
    IsHex (List.replicate k '0' ++ cs) n := by
  induction k with
  | zero => exact h
  | succ k ih =>
      obtain ⟨values, read, sized, value⟩ := ih
      refine ⟨0 :: values, ?_, congrArg Nat.succ sized, value⟩
      rw [List.replicate_succ, List.cons_append, List.mapM_cons, read]
      rfl

theorem isHex_toDigits (n : Nat) : IsHex ((Nat.toDigits 16 n).map Char.toUpper) n := by
  induction n using Nat.strongRecOn with
  | ind n ih =>
      by_cases small : n < 16
      · rw [Nat.toDigits_of_lt_base small]
        exact isHex_digit small
      · have next := (ih (n / 16) (by omega)).snoc (Nat.mod_lt n (by decide : 0 < 16))
        rw [Nat.toDigits_of_base_le (by decide) (Nat.le_of_not_lt small), List.map_append]
        rwa [Nat.div_add_mod] at next

theorem isHex_hexText (width n : Nat) : IsHex ((Text.hexText width n).map Char.toUpper) n := by
  rw [Text.hexText, List.map_append, List.map_replicate]
  exact (isHex_toDigits n).zeros _

section Short

variable {width : Nat}

theorem length_hexText {n : Nat} (short : (Nat.toDigits 16 n).length ≤ width) :
    (Text.hexText width n).length = width := by
  rw [Text.hexText, List.length_append, List.length_replicate]
  exact Nat.sub_add_cancel short

variable {code : Code} (short : (Nat.toDigits 16 code.toNat).length ≤ width) (cs : List Char)

include short

theorem readCode_hexText :
    readCode width ((Text.hexText width code.toNat).map Char.toUpper ++ cs) = .ok (code, cs) := by
  obtain ⟨values, read, length, value⟩ := isHex_hexText width code.toNat
  have sized : ((Text.hexText width code.toNat).map Char.toUpper).length = width := by
    rw [List.length_map, length_hexText short]
  generalize (Text.hexText width code.toNat).map Char.toUpper = digits at sized read length
  rw [← sized, readCode, List.take_left, List.drop_left]
  simp only [read, length, value, codeOf, Code.ofNat?_toNat]
  rw [if_neg (Nat.lt_irrefl _)]
  rfl

theorem readEscape_code {mark : Char} (plain : (escapes ++ readOnlyEscapes).lookup mark = none)
    (marked : codeEscapes.lookup mark = some width) :
    readEscape (mark :: (Text.hexText width code.toNat).map Char.toUpper ++ cs) = .ok ([code], cs) := by
  rw [List.cons_append, readEscape]
  simp only [plain, marked, readCode_hexText short]
  rfl

end Short

/-- A backslash and what reads as a code point after it. -/
theorem escapeOf_spec {code : Code} {e : List Char} (h : escapeOf? code = some e) :
    ∃ es, e = '\x5C' :: es ∧ ∀ cs, readEscape (es ++ cs) = .ok ([code], cs) := by
  unfold escapeOf? at h
  split at h
  · rename_i entry found
    cases h
    have known : ∀ entry ∈ escapes, (escapes ++ readOnlyEscapes).lookup entry.1 = some entry.2 := by decide
    have same := List.find?_some found
    rw [decide_eq_true_eq] at same
    refine ⟨[entry.1], rfl, fun cs => ?_⟩
    rw [List.singleton_append, readEscape]
    simp only [known entry (List.mem_of_find?_eq_some found), same]
  · split at h
    · cases h
    · cases h
      refine ⟨_, rfl, fun cs => ?_⟩
      have small := code.toNat_lt
      split
      · exact readEscape_code ((Nat.length_toDigits_le_iff (by decide) (by decide)).mpr (by omega)) cs (by decide) rfl
      · split
        · exact readEscape_code ((Nat.length_toDigits_le_iff (by decide) (by decide)).mpr (by omega)) cs (by decide) rfl
        · exact readEscape_code ((Nat.length_toDigits_le_iff (by decide) (by decide)).mpr (by omega)) cs (by decide) rfl

/-- A code point that stands for itself. -/
theorem shown_of_escapeOf {code : Code} (h : escapeOf? code = none) :
    ∃ c, code = .char c ∧ (0x20 ≤ c.toNat ∧ c.toNat ≤ 0x7E) ∧ c ≠ '"' ∧ c ≠ '\x5C' := by
  unfold escapeOf? at h
  split at h
  · cases h
  · rename_i absent
    split at h
    · rename_i range
      have free := List.find?_eq_none.mp absent
      cases code with
      | char c =>
          refine ⟨c, rfl, range, ?_, ?_⟩
          · intro same
            exact free ('"', '"') (by decide) (decide_eq_true (by rw [same]))
          · intro same
            exact free ('\x5C', '\x5C') (by decide) (decide_eq_true (by rw [same]))
      | surrogate offset =>
          rw [Code.toNat, Code.firstSurrogate] at range
          omega
    · cases h

/-! The relation of what is written and what it stands for. -/

/-- How code points and their end, before some tail, may be written between double quotes. -/
inductive Written (indent : Nat) (tail : List Char) : List Code → List Char → Prop
  | done : Written indent tail [] ('"' :: tail)
  | shown {c : Char} {codes : List Code} {cs : List Char} (range : 0x20 ≤ c.toNat ∧ c.toNat ≤ 0x7E)
      (quote : c ≠ '"') (backslash : c ≠ '\x5C') (next : Written indent tail codes cs) :
      Written indent tail (.char c :: codes) (c :: cs)
  | escape {code : Code} {codes : List Code} {e cs : List Char} (same : escapeOf? code = some e)
      (next : Written indent tail codes cs) : Written indent tail (code :: codes) (e ++ cs)
  | lineBreak {codes : List Code} {cs : List Char} (other : codes.head? ≠ some (.char ' '))
      (next : Written indent tail codes cs) :
      Written indent tail codes ('\x5C' :: '\n' :: (indentation indent ++ cs))
  | spaceBreak {codes : List Code} {cs : List Char} (next : Written indent tail codes cs) :
      Written indent tail (.char ' ' :: codes) ('\x5C' :: '\n' :: (indentation indent ++ '\x5C' :: ' ' :: cs))

/-- What is written goes on visibly, after spaces at most. -/
def LeadsToInk (cs : List Char) : Prop := ∃ n rest, cs = List.replicate n ' ' ++ rest ∧ StartsInk rest

theorem StartsInk.leadsToInk {cs : List Char} (h : StartsInk cs) : LeadsToInk cs := ⟨0, cs, rfl, h⟩

namespace Written

variable {indent : Nat} {tail : List Char} {codes : List Code} {cs : List Char}

theorem startsInk (h : Written indent tail codes cs) (other : codes.head? ≠ some (.char ' ')) : StartsInk cs := by
  cases h with
  | done => exact ⟨_, _, rfl, rfl⟩
  | shown range =>
      refine ⟨_, _, rfl, isInk_of_range range fun space => ?_⟩
      rw [space] at other
      exact other rfl
  | escape same =>
      obtain ⟨es, rfl, -⟩ := escapeOf_spec same
      exact ⟨_, _, rfl, rfl⟩
  | lineBreak | spaceBreak => exact ⟨_, _, rfl, rfl⟩

theorem leadsToInk (h : Written indent tail codes cs) : LeadsToInk cs := by
  induction h with
  | done | lineBreak | spaceBreak => exact StartsInk.leadsToInk ⟨_, _, rfl, rfl⟩
  | shown range quote backslash next ih =>
      rename_i c _ _
      by_cases space : c = ' '
      · obtain ⟨n, rest, rfl, ink⟩ := ih
        exact ⟨n + 1, rest, by rw [space, List.replicate_succ, List.cons_append], ink⟩
      · exact StartsInk.leadsToInk ⟨_, _, rfl, isInk_of_range range space⟩
  | escape same =>
      obtain ⟨es, rfl, -⟩ := escapeOf_spec same
      exact StartsInk.leadsToInk ⟨_, _, rfl, rfl⟩

/-- A space that is written first stands for itself. -/
theorem of_space (h : Written indent tail (.char ' ' :: codes) (' ' :: cs)) : Written indent tail codes cs := by
  generalize hc : Code.char ' ' :: codes = codes' at h
  generalize hs : ' ' :: cs = cs' at h
  cases h with
  | done | lineBreak | spaceBreak => cases hs
  | shown _ _ _ next =>
      cases hc
      cases hs
      exact next
  | escape same =>
      obtain ⟨es, rfl, -⟩ := escapeOf_spec same
      cases hs

end Written

/-! The writer. -/

theorem doubleBody_written {indent : Nat} (narrow : indent < lineWidth) (folds : Bool) (tail : List Char)
    (codes : List Code) (isFirst : Bool) (pending : List Char) (column : Nat) :
    ∃ cs, doubleBody indent folds isFirst pending column codes ++ '"' :: tail = pending ++ cs ∧
      Written indent tail codes cs ∧
      (column + pending.length ≤ lineWidth → codes.head? = some (.char ' ') → cs.head? = some ' ') := by
  induction codes generalizing isFirst pending column with
  | nil => exact ⟨'"' :: tail, rfl, .done, nofun⟩
  | cons code codes ih =>
      rw [doubleBody]
      split
      · rename_i e same
        have notSpace (space : (code :: codes).head? = some (.char ' ')) : False := by
          cases space
          cases same
        dsimp only
        split
        · split
          · rename_i space
            obtain ⟨cs, eq, written, head⟩ := ih false [] (indent + 1)
            obtain ⟨codes, rfl⟩ := List.head?_eq_some_iff.mp space
            obtain ⟨cs, rfl⟩ := List.head?_eq_some_iff.mp (head narrow rfl)
            refine ⟨_, ?_, .escape same written.of_space.spaceBreak, fun _ space => (notSpace space).elim⟩
            simp only [List.append_assoc, List.cons_append, eq, List.nil_append]
          · rename_i other
            obtain ⟨cs, eq, written, -⟩ := ih false [] indent
            refine ⟨_, ?_, .escape same (written.lineBreak other), fun _ space => (notSpace space).elim⟩
            simp only [List.append_assoc, List.cons_append, eq, List.nil_append]
        · obtain ⟨cs, eq, written, -⟩ := ih false [] (column + (pending ++ e).length)
          refine ⟨e ++ cs, ?_, .escape same written, fun _ space => (notSpace space).elim⟩
          rw [List.append_assoc, eq, List.nil_append, List.append_assoc]
      · rename_i same
        obtain ⟨c, rfl, range, quote, backslash⟩ := shown_of_escapeOf same
        dsimp only [Code.toChar]
        split
        · rename_i fold
          have wide (fits : column + pending.length ≤ lineWidth) : False := by
            simp only [Bool.and_eq_true, decide_eq_true_eq] at fold
            exact absurd fits (Nat.not_le_of_lt fold.2)
          split
          · rename_i space
            obtain ⟨cs, eq, written, -⟩ := ih false [c] (indent + 1)
            cases space
            refine ⟨_, ?_, .spaceBreak written, fun fits => (wide fits).elim⟩
            simp only [List.append_assoc, List.cons_append, eq, List.nil_append]
          · rename_i other
            obtain ⟨cs, eq, written, -⟩ := ih false [c] indent
            refine ⟨_, ?_, .lineBreak ?_ (.shown range quote backslash written), fun fits => (wide fits).elim⟩
            · simp only [List.append_assoc, List.cons_append, eq, List.nil_append]
            · intro space
              cases space
              exact other rfl
        · obtain ⟨cs, eq, written, -⟩ := ih false (pending ++ [c]) column
          refine ⟨c :: cs, ?_, .shown range quote backslash written, fun _ space => ?_⟩
          · rw [eq, List.append_assoc, List.singleton_append]
          · cases space
            rfl

/-! The reader. -/

namespace Reads

variable {cs rest : List Char} {v : List Code}

theorem doubleInk {c : Char} (ink : isInk c = true) (quote : c ≠ '"') (backslash : c ≠ '\x5C')
    (h : Reads readDouble cs v rest) : Reads readDouble (c :: cs) (.char c :: v) rest := by
  obtain ⟨space, lineBreak⟩ := isInk_iff.mp ink
  refine .step fun fuel enough => ?_
  have read := h fuel enough
  rw [readDouble]
  · simp only [space, lineBreak, Bool.or_self, Bool.false_eq_true, ite_false, read]
    rfl
  · exact quote
  · exact backslash

theorem doubleSpaces (ink : StartsInk cs) (n fuel : Nat) :
    readDouble (fuel + 1) (List.replicate (n + 1) ' ' ++ cs) =
      readDouble fuel cs >>= fun more => pure (List.replicate (n + 1) (.char ' ') ++ more.1, more.2) := by
  have taken := takeSpaces_spaces ink (n + 1)
  have step (cs : List Char) : readDouble (fuel + 1) (' ' :: cs) = takeSpaces (' ' :: cs) >>= fun gap =>
      readDouble fuel gap.2 >>= fun more => pure (gap.1.map .char ++ more.1, more.2) := rfl
  rw [List.replicate_succ, List.cons_append] at taken ⊢
  rw [step, taken, ok_bind, List.map_cons, List.map_replicate]
  rfl

/-- Spaces are read together, so what comes of those after a space shows what comes of all. -/
theorem doubleSpace (ink : LeadsToInk cs) (h : Reads readDouble cs v rest) :
    Reads readDouble (' ' :: cs) (.char ' ' :: v) rest := by
  obtain ⟨n, cs, rfl, ink⟩ := ink
  refine .step fun fuel enough => ?_
  have spaces := doubleSpaces ink n fuel
  rw [List.replicate_succ, List.cons_append] at spaces
  rw [spaces]
  cases n with
  | zero =>
      have read := h fuel enough
      rw [List.replicate_zero, List.nil_append] at read
      rw [read]
      rfl
  | succ n =>
      have read := h (fuel + 1) (Nat.lt_succ_of_lt enough)
      rw [doubleSpaces ink n fuel] at read
      obtain ⟨more, found, same⟩ := bind_eq_ok read
      cases same
      rw [found]
      rfl

theorem doubleEscape {es : List Char} {value : List Code} (shorter : cs.length ≤ es.length)
    (escape : readEscape es = .ok (value, cs)) (h : Reads readDouble cs v rest) :
    Reads readDouble ('\x5C' :: es) (value ++ v) rest := by
  refine .step fun fuel enough => ?_
  have read := h fuel (Nat.lt_of_le_of_lt shorter enough)
  have step : readDouble (fuel + 1) ('\x5C' :: es) = readEscape es >>= fun found =>
      readDouble fuel found.2 >>= fun more => pure (found.1 ++ more.1, more.2) := rfl
  rw [step, escape, ok_bind, read]
  rfl

end Reads

theorem readEscape_lineBreak {indent : Nat} (indented : 0 < indent) {cs : List Char} (ink : StartsInk cs) :
    readEscape ('\n' :: (indentation indent ++ cs)) = .ok ([], cs) := by
  have breaks := takeBreaks_breaks indented ink 0 ((indentation indent ++ cs).length + 1) (Nat.succ_pos _)
  rw [List.replicate_zero, List.nil_append] at breaks
  have plain : (escapes ++ readOnlyEscapes).lookup '\n' = none := by decide
  have unmarked : codeEscapes.lookup '\n' = none := by decide
  have lineBreak : isBreak '\n' = true := rfl
  rw [readEscape]
  simp only [plain, unmarked, lineBreak, ite_true, breaks]
  rfl

theorem Written.reads {indent : Nat} (indented : 0 < indent) {tail : List Char} {codes : List Code} {cs : List Char}
    (h : Written indent tail codes cs) : Reads readDouble cs codes tail := by
  induction h with
  | done => exact .step fun _ _ => rfl
  | shown range quote backslash next ih =>
      rename_i c _ _
      by_cases space : c = ' '
      · cases space
        exact .doubleSpace next.leadsToInk ih
      · exact .doubleInk (isInk_of_range range space) quote backslash ih
  | escape same next ih =>
      obtain ⟨es, rfl, read⟩ := escapeOf_spec same
      exact .doubleEscape (by rw [List.length_append]; omega) (read _) ih
  | lineBreak other next ih =>
      have read := readEscape_lineBreak indented (next.startsInk other)
      exact .doubleEscape (by simp only [List.length_cons, List.length_append]; omega) read ih
  | spaceBreak next ih =>
      rename_i cs
      have read : readEscape ('\n' :: (indentation indent ++ '\x5C' :: ' ' :: cs)) = .ok ([], '\x5C' :: ' ' :: cs) :=
        readEscape_lineBreak indented ⟨_, _, rfl, rfl⟩
      have space : readEscape (' ' :: cs) = .ok ([.char ' '], cs) := rfl
      exact .doubleEscape (by simp only [List.length_cons, List.length_append]; omega) read
        (.doubleEscape (Nat.le_succ _) space ih)

/-- Code points between double quotes are read back. -/
theorem readDouble_writeDouble {indent : Nat} (indented : 0 < indent) (narrow : indent < lineWidth) (folds : Bool)
    (codes : List Code) (column : Nat) (tail : List Char) :
    ∃ body, writeDouble indent folds column codes ++ tail = '"' :: body ∧ Reads readDouble body codes tail := by
  obtain ⟨cs, eq, written, -⟩ := doubleBody_written narrow folds tail codes true [] (column + 1)
  refine ⟨cs, ?_, written.reads indented⟩
  rw [writeDouble, List.append_assoc, List.cons_append, List.singleton_append, eq]
  rfl

end Yaml

end ClauseFeatures
