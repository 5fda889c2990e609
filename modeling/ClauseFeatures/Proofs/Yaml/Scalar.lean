import Mathlib.Tactic.Common
import ClauseFeatures.Proofs.Yaml.Number
import ClauseFeatures.Proofs.Yaml.Section

/-!
What is written in one piece: null, numbers and texts. Each of them is read back, wherever it stands, as a value equal
to the one that was written, with the same type.
-/
namespace ClauseFeatures.Yaml

open Stretch

/-- A value that is written as a scalar, wherever it begins, and is read as another one. -/
structure IsWritten (column : Nat) (v : Value) (t : Token) (found : Value) : Prop where
  flat : (∀ item items, v ≠ .list (item :: items)) ∧ ∀ inner entries, v ≠ .mapping (inner :: entries)
  scalar : ∀ start, IsScalar (column + 1) (writeAt (column + indentStep) start true v) t
  shown : ∀ start, AllShown (writeAt (column + indentStep) start true v)
  token : t.isScalar = true
  value : ∀ depth, (Node.ofScalar t).valueAt depth = .ok found

/-! Words. -/

/-- A single word is a scalar of its own. -/
theorem isScalar_word {w : List Char} (word : IsPlainWord w)
    (begins : ∀ tail, beginsPlain false (w ++ '\n' :: tail) = true) (indent : Nat) : IsScalar indent w (.plain w) :=
  .plain word.nonempty begins fun line less => readPlain_isPlainWord line less word

theorem IsName.isScalar {name : List Char} (h : IsName name) (indent : Nat) : IsScalar indent name (.plain name) := by
  refine isScalar_word h.isPlainWord (fun tail => ?_) indent
  obtain ⟨c, rest, same, begins, -⟩ := h.begins ('\n' :: tail)
  rw [same]
  exact begins

theorem isWritten_null (column : Nat) : IsWritten column .null (.plain "null".toList) .null := by
  have name : IsName "null".toList := by decide +kernel
  have written (indent start : Nat) : writeAt indent start true .null = "null".toList := by rw [writeAt]
  refine ⟨⟨fun _ _ => Value.noConfusion, fun _ _ => Value.noConfusion⟩, fun start => ?_, fun start => ?_, rfl,
    fun _ => rfl⟩
  · rw [written]
    exact name.isScalar _
  · rw [written]
    exact name.shown

/-! Numbers. -/

theorem range_of_isNumeral {c : Char} (h : isNumeral c = true) : 0x2B ≤ c.toNat ∧ c.toNat ≤ 0x65 := by
  simp only [isNumeral, Bool.or_eq_true, beq_iff_eq] at h
  obtain (((digit | rfl) | rfl) | rfl) | rfl := h
  · obtain ⟨low, high⟩ := Bool.and_eq_true_iff.mp digit
    exact ⟨Nat.le_trans (by decide) (of_decide_eq_true low), Nat.le_trans (of_decide_eq_true high) (by decide)⟩
  all_goals decide

section Numeral

variable {cs : List Char} (numeral : ∀ c ∈ cs, isNumeral c = true)

include numeral

theorem isPlainWord_of_isNumeral (nonempty : cs ≠ []) : IsPlainWord cs where
  nonempty := nonempty
  ink c hc := by
    obtain ⟨low, high⟩ := range_of_isNumeral (numeral c hc)
    refine isInk_of_range ⟨Nat.le_trans (by decide) low, Nat.le_trans high (by decide)⟩ ?_
    rintro rfl
    exact notMem_of_isNumeral numeral rfl hc
  comment head := notMem_of_isNumeral numeral rfl (List.mem_of_head? head)
  colon last := notMem_of_isNumeral numeral rfl (List.mem_of_getLast? last)

theorem allShown_of_isNumeral : AllShown cs := by
  intro c hc
  obtain ⟨low, high⟩ := range_of_isNumeral (numeral c hc)
  exact isSpecial_of_range ⟨Nat.le_trans (by decide) low, Nat.le_trans high (by decide)⟩

end Numeral

theorem beginsPlain_digit {c : Char} (digit : c.isDigit = true) (cs : List Char) : beginsPlain false (c :: cs) = true := by
  have first : ∀ c ∈ "0123456789".toList,
      (!(isSpace c || isBreak c || "-?:,[]\x7b\x7d#&*!|>'\"%@\x60".toList.contains c)) = true :=
    List.all_eq_true.mp (by decide +kernel)
  rw [beginsPlain, first c (digit_cases digit)]
  rfl

theorem isWritten_number {n : Number} {found : Value} (word : IsPlainWord (writeNumber n))
    (begins : ∀ tail, beginsPlain false (writeNumber n ++ '\n' :: tail) = true) (shown : AllShown (writeNumber n))
    (resolved : resolve (writeNumber n) = .ok found) (column : Nat) :
    IsWritten column (.number n) (.plain (writeNumber n)) found := by
  have written (indent start : Nat) : writeAt indent start true (.number n) = writeNumber n := by rw [writeAt]
  refine ⟨⟨fun _ _ => Value.noConfusion, fun _ _ => Value.noConfusion⟩, fun start => ?_, fun start => ?_, rfl,
    fun depth => ?_⟩
  · rw [written]
    exact isScalar_word word begins _
  · rwa [written]
  · rw [Node.ofScalar, Node.valueAt, resolved]
    rfl

theorem isWritten_truth (b : Bool) (column : Nat) :
    IsWritten column (.truth b) (.plain (writeNumber (.truth b))) (.truth b) := by
  have name : IsName (writeNumber (.truth b)) := by
    cases b with
    | true => decide +kernel
    | false => decide +kernel
  refine isWritten_number name.isPlainWord (fun tail => ?_) name.shown (resolve_truth b) column
  obtain ⟨c, rest, same, begins, -⟩ := name.begins ('\n' :: tail)
  rw [same]
  exact begins

theorem isWritten_integer {n : ℤ} (nonneg : 0 ≤ n) (fits : Failure.isTooLong n = false) (column : Nat) :
    IsWritten column (.int n) (.plain (writeNumber (.int n))) (.int n) := by
  obtain ⟨digits, resolved⟩ := resolve_integer nonneg fits
  have numeral := isNumeral_of_isDigits digits
  refine isWritten_number (isPlainWord_of_isNumeral numeral digits.ne_nil) (fun tail => ?_)
    (allShown_of_isNumeral numeral) resolved column
  obtain ⟨c, rest, same⟩ := List.exists_cons_of_ne_nil digits.ne_nil
  rw [same]
  exact beginsPlain_digit (digits.digits c (same ▸ List.mem_cons_self)) _

/-- A double that is not negative is read back as a double of its value. -/
theorem isWritten_real {x : Float} (finite : x.isFinite) (nonneg : 0 ≤ Double.value x)
    (le : Double.value x ≤ Double.limit) (column : Nat) :
    ∃ y, IsWritten column (.real x) (.plain (writeNumber (.real x))) (.real y) ∧ y.isFinite ∧
      Double.value y = Double.value x := by
  obtain ⟨written, y, resolved, finite, value⟩ := resolve_real finite nonneg le
  refine ⟨y, ?_, finite, value⟩
  obtain written | ⟨q, front, back, mark, exponent, layout⟩ := written
  · have numeral : ∀ c ∈ writeNumber (.real x), isNumeral c = true := by
      rw [written]
      exact List.all_eq_true.mp (by decide +kernel)
    refine isWritten_number (isPlainWord_of_isNumeral numeral ?_) (fun tail => ?_) (allShown_of_isNumeral numeral)
      resolved column
    · rw [written]
      nofun
    · rw [written]
      rfl
  · obtain ⟨c, rest, same, digit⟩ := layout.exists_cons
    have nonempty : writeNumber (.real x) ≠ [] := same ▸ List.cons_ne_nil _ _
    refine isWritten_number (isPlainWord_of_isNumeral layout.isNumeral nonempty) (fun tail => ?_)
      (allShown_of_isNumeral layout.isNumeral) resolved column
    rw [same]
    exact beginsPlain_digit digit _

/-! Texts. -/

theorem allShown_layOut {word : List Char → List Char} (visible : ∀ w, AllShown w → AllShown (word w)) (indent : Nat)
    (folds : Bool) {st : List Stretch} (shown : AllShown (st.flatMap chars)) (column : Nat) (isFirst : Bool) :
    AllShown (layOut word indent folds column isFirst st) := by
  induction st generalizing column isFirst with
  | nil => exact List.forall_mem_nil _
  | cons s st ih =>
      rw [List.flatMap_cons] at shown
      obtain ⟨first, following⟩ := List.forall_mem_append.mp shown
      have next := ih following
      have margin : AllShown (indentation indent) := allShown_replicate rfl indent
      cases s with
      | word w =>
          rw [layOut]
          exact List.forall_mem_append.mpr ⟨visible w first, next _ _⟩
      | spaces n =>
          obtain ⟨-, -, written⟩ | written := layOut_spaces word indent folds column isFirst n st
          · rw [written]
            exact List.forall_mem_cons.mpr ⟨rfl, List.forall_mem_append.mpr ⟨margin, next _ _⟩⟩
          · rw [written]
            exact List.forall_mem_append.mpr ⟨allShown_replicate rfl n, next _ _⟩
      | breaks n =>
          rw [layOut]
          exact List.forall_mem_append.mpr ⟨List.forall_mem_append.mpr ⟨allShown_replicate rfl (n + 1), margin⟩,
            next _ _⟩

theorem allShown_doubleQuotes (w : List Char) (shown : AllShown w) : AllShown (doubleQuotes w) := by
  intro c hc
  obtain ⟨d, hd, mem⟩ := List.mem_flatMap.mp hc
  split at mem
  · rw [show c = '\x27' from List.eq_of_mem_replicate (n := 2) mem]
    rfl
  · rw [List.mem_singleton.mp mem]
    exact shown d hd

theorem isSpecial_of_hexValue {c : Char} {n : Nat} (h : hexValue? c = some n) : isSpecial c = false := by
  apply isSpecial_of_range
  unfold hexValue? at h
  split at h
  · rename_i digit
    obtain ⟨low, high⟩ := Bool.and_eq_true_iff.mp digit
    exact ⟨Nat.le_trans (by decide) (of_decide_eq_true low), Nat.le_trans (of_decide_eq_true high) (by decide)⟩
  · split at h
    · rename_i range
      exact ⟨Nat.le_trans (by decide) range.1, Nat.le_trans range.2 (by decide)⟩
    · split at h
      · rename_i range
        exact ⟨Nat.le_trans (by decide) range.1, Nat.le_trans range.2 (by decide)⟩
      · cases h

theorem IsHex.allShown {cs : List Char} {n : Nat} (h : IsHex cs n) : AllShown cs := by
  obtain ⟨values, read, -, -⟩ := h
  clear n
  induction cs generalizing values with
  | nil => exact List.forall_mem_nil _
  | cons c cs ih =>
      rw [List.mapM_cons] at read
      obtain ⟨_, first, read⟩ := Option.bind_eq_some_iff.mp read
      obtain ⟨rest, read, -⟩ := Option.bind_eq_some_iff.mp read
      exact List.forall_mem_cons.mpr ⟨isSpecial_of_hexValue first, ih rest read⟩

theorem allShown_escapeOf {code : Text.Code} {e : List Char} (h : escapeOf? code = some e) : AllShown e := by
  have hex (width : Nat) (mark : Char) (shown : isSpecial mark = false) :
      AllShown ('\x5C' :: mark :: (Text.hexText width code.toNat).map Char.toUpper) :=
    List.forall_mem_cons.mpr ⟨rfl, List.forall_mem_cons.mpr ⟨shown, (isHex_hexText width _).allShown⟩⟩
  unfold escapeOf? at h
  split at h
  · rename_i entry found
    cases h
    have known : ∀ entry ∈ escapes, isSpecial entry.1 = false := by decide
    exact List.forall_mem_cons.mpr
      ⟨rfl, List.forall_mem_singleton.mpr (known entry (List.mem_of_find?_eq_some found))⟩
  · split at h
    · cases h
    · cases h
      unfold codeEscape
      dsimp only
      split
      · exact hex 2 'x' rfl
      · split
        · exact hex 4 'u' rfl
        · exact hex 8 'U' rfl

theorem Written.allShown {indent : Nat} {tail : List Char} (shown : AllShown tail) {codes : List Text.Code}
    {cs : List Char} (h : Written indent tail codes cs) : AllShown cs := by
  have line {cs : List Char} (h : AllShown cs) : AllShown ('\x5C' :: '\n' :: (indentation indent ++ cs)) :=
    List.forall_mem_cons.mpr ⟨rfl, List.forall_mem_cons.mpr
      ⟨rfl, List.forall_mem_append.mpr ⟨allShown_replicate rfl indent, h⟩⟩⟩
  induction h with
  | done => exact List.forall_mem_cons.mpr ⟨rfl, shown⟩
  | shown range _ _ _ ih => exact List.forall_mem_cons.mpr ⟨isSpecial_of_range range, ih⟩
  | escape same _ ih => exact List.forall_mem_append.mpr ⟨allShown_escapeOf same, ih⟩
  | lineBreak _ _ ih => exact line ih
  | spaceBreak _ ih => exact line (List.forall_mem_cons.mpr ⟨rfl, List.forall_mem_cons.mpr ⟨rfl, ih⟩⟩)

theorem allShown_writeDouble {indent : Nat} (narrow : indent < lineWidth) (folds : Bool) (column : Nat)
    (codes : List Text.Code) : AllShown (writeDouble indent folds column codes) := by
  obtain ⟨cs, same, written, -⟩ := doubleBody_written narrow folds [] codes true [] (column + 1)
  rw [writeDouble, List.cons_append, same]
  exact List.forall_mem_cons.mpr ⟨rfl, written.allShown (List.forall_mem_nil _)⟩

def textToken (cs : List Char) : Token :=
  match styleOf cs with
  | .plain => .plain cs
  | .single | .double => .quoted (cs.map .char)

/-- A character with which a text in plain style begins can begin a plain scalar. -/
theorem beginsPlain_of_indicated {c : Char} {text written : List Char} (ink : isInk c = true)
    (h : beginsIndicated (c :: text) = false) (gap : isGap written = true → isGap text = true) :
    beginsPlain false (c :: written) = true := by
  simp only [beginsIndicated, Bool.or_eq_false_iff] at h
  obtain ⟨⟨⟨indicator, mark⟩, -⟩, -⟩ := h
  have all : ∀ d ∈ "-?:,[]\x7b\x7d#&*!|>'\"%@\x60".toList,
      ("#,[]\x7b\x7d&*!|>'\"%@\x60".toList.contains d || "?:-".toList.contains d) = true :=
    List.all_eq_true.mp (by decide +kernel)
  cases marked : "?:-".toList.contains c with
  | true =>
      have goesOn : isGap written = false := by
        rw [marked, Bool.true_and] at mark
        exact Bool.eq_false_iff.mpr fun ends => Bool.eq_false_iff.mp mark (gap ends)
      have begins : ∀ c ∈ "?:-".toList, (c == '-' || (!false && (c == '?' || c == ':'))) = true :=
        List.all_eq_true.mp (by decide +kernel)
      rw [beginsPlain, goesOn, begins c (List.contains_iff_mem.mp marked)]
      exact Bool.or_true _
  | false =>
      have plain : "-?:,[]\x7b\x7d#&*!|>'\"%@\x60".toList.contains c = false := by
        refine Bool.eq_false_iff.mpr fun among => ?_
        have either := all c (List.contains_iff_mem.mp among)
        rw [indicator, marked] at either
        cases either
      rw [beginsPlain, plain]
      simp only [isInk_iff.mp ink]
      rfl

theorem IsPhrase.first {st : List Stretch} (h : IsPhrase st) :
    ∃ w rest, st = .word w :: rest ∧ IsPlainWord w ∧ isGap (rest.flatMap chars) = true := by
  cases h with
  | last word => exact ⟨_, [], rfl, word, rfl⟩
  | more word some next =>
      rename_i w n rest
      refine ⟨w, _, rfl, word, ?_⟩
      obtain ⟨k, rfl⟩ := Nat.exists_eq_succ_of_ne_zero (Nat.ne_of_gt some)
      rfl

theorem isScalar_plain {cs : List Char} (h : IsPlain cs) {indent margin : Nat} (within : indent ≤ margin) (folds : Bool)
    (column : Nat) : IsScalar indent (writePlain margin folds column cs) (.plain cs) := by
  obtain ⟨w, rest, same, word, gap⟩ := h.isPhrase.first
  obtain ⟨c, w, rfl⟩ := List.exists_cons_of_ne_nil word.nonempty
  have text : c :: (w ++ rest.flatMap chars) = cs := by
    rw [← chars_stretches cs, same]
    rfl
  have written : writePlain margin folds column cs =
      c :: (w ++ layOut id margin folds (column + (c :: w).length) false rest) := by
    rw [writePlain, same]
    rfl
  refine .plain (by rw [written]; nofun) (fun tail => ?_) fun line less => readPlain_writePlain line less within h folds column
  rw [written, List.cons_append]
  refine beginsPlain_of_indicated (word.ink c List.mem_cons_self) (text ▸ h.begins) fun ends => ?_
  cases w with
  | nil => exact gap
  | cons d w => exact ends

theorem isScalar_single {cs : List Char} (shown : AllShown cs) (before : hasPair ' ' '\n' cs = false)
    (after : hasPair '\n' ' ' cs = false) {margin : Nat} (indented : 0 < margin) (indent : Nat) (folds : Bool)
    (column : Nat) :
    IsScalar indent (writeSingle margin folds column cs) (.quoted (cs.map .char)) := by
  refine .single fun tail => ?_
  have ends : ('\n' :: tail).head? ≠ some '\x27' := by
    rw [List.head?_cons]
    decide
  obtain ⟨body, same, reads⟩ := readSingle_writeSingle indented folds ends shown before after column
  cases same
  exact reads

theorem isScalar_double (codes : List Text.Code) {margin : Nat} (indented : 0 < margin) (narrow : margin < lineWidth)
    (indent : Nat) (folds : Bool) (column : Nat) :
    IsScalar indent (writeDouble margin folds column codes) (.quoted codes) := by
  refine .double fun tail => ?_
  obtain ⟨body, same, reads⟩ := readDouble_writeDouble indented narrow folds codes column ('\n' :: tail)
  cases same
  exact reads

theorem ofCodes_chars (cs : List Char) : Value.ofCodes (cs.map .char) = .text (String.ofList cs) := by
  have all : (cs.map Text.Code.char).mapM Text.Code.char? = some cs := by
    induction cs with
    | nil => rfl
    | cons c cs ih =>
        rw [List.map_cons, List.mapM_cons, ih]
        rfl
  rw [Value.ofCodes, all]

theorem isWritten_text (s : String) {column : Nat} (narrow : column + indentStep < lineWidth) :
    IsWritten column (.text s) (textToken s.toList) (.text s) := by
  have written (indent start : Nat) : writeAt indent start true (.text s) = writeText indent true start s.toList := by
    rw [writeAt]
  have flat : (∀ item items, Value.text s ≠ .list (item :: items)) ∧
      ∀ inner entries, Value.text s ≠ .mapping (inner :: entries) :=
    ⟨fun _ _ => Value.noConfusion, fun _ _ => Value.noConfusion⟩
  have indented : 0 < column + indentStep := Nat.succ_pos _
  have quoted (depth : Nat) : (Node.ofScalar (.quoted (s.toList.map .char))).valueAt depth = .ok (.text s) := by
    rw [Node.ofScalar, Node.valueAt, ofCodes_chars, String.ofList_toList]
  obtain ⟨style, plain⟩ | style | ⟨style, shown, before, after⟩ := styleOf_spec s.toList
  · refine ⟨flat, fun start => ?_, fun start => ?_, ?_, fun depth => ?_⟩
    · rw [written, writeText, textToken, style]
      exact isScalar_plain plain (Nat.le_succ _) true start
    · rw [written, writeText, style]
      exact allShown_layOut (fun _ shown => shown) _ true (by rw [chars_stretches]; exact plain.shown) start true
    · rw [textToken, style]
      rfl
    · rw [textToken, style, Node.ofScalar, Node.valueAt, resolve, plain.form]
      exact congrArg (Except.ok ∘ Value.text) s.ofList_toList
  · refine ⟨flat, fun start => ?_, fun start => ?_, ?_, ?_⟩
    · rw [written, writeText, textToken, style]
      exact isScalar_double _ indented narrow _ true start
    · rw [written, writeText, style]
      exact allShown_writeDouble narrow true start _
    · rw [textToken, style]
      rfl
    · rw [textToken, style]
      exact quoted
  · refine ⟨flat, fun start => ?_, fun start => ?_, ?_, ?_⟩
    · rw [written, writeText, textToken, style]
      exact isScalar_single shown before after indented _ true start
    · rw [written, writeText, style]
      refine List.forall_mem_cons.mpr ⟨rfl, List.forall_mem_append.mpr ⟨?_, List.forall_mem_singleton.mpr rfl⟩⟩
      exact allShown_layOut allShown_doubleQuotes _ true (by rwa [chars_stretches]) _ true
    · rw [textToken, style]
      rfl
    · rw [textToken, style]
      exact quoted

end ClauseFeatures.Yaml
