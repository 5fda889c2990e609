import Mathlib.Tactic.Common
import ClauseFeatures.Proofs.Yaml.Escaped
import ClauseFeatures.Proofs.Yaml.Place
import ClauseFeatures.Proofs.Yaml.Words

/-!
The tokens of block mappings. The scanner takes an entry in three steps: its key, the colon, at which the mark of the
key is put before it, and its value. Between two entries nothing may still become a key.
-/
namespace ClauseFeatures.Yaml

/-! Names. -/

/-- Characters with which a line may begin something else than a plain scalar. -/
def Scan.isLineMark (c : Char) : Bool := c == '%' || c == '-' || c == '.'


/-- A key that is written as it is: its characters are small letters and low lines. -/
structure IsName (name : List Char) : Prop where
  nonempty : name ≠ []
  letters : ∀ c ∈ name, (c.isLower || c == '_') = true
  short : name.length ≤ 1024

instance (name : List Char) : Decidable (IsName name) :=
  decidable_of_iff (name ≠ [] ∧ name.all (fun c => c.isLower || c == '_') = true ∧ name.length ≤ 1024)
    ⟨fun h => ⟨h.1, List.all_eq_true.mp h.2.1, h.2.2⟩,
      fun h => ⟨h.nonempty, List.all_eq_true.mpr h.letters, h.short⟩⟩

namespace IsName

variable {name : List Char} (h : IsName name)

include h

theorem ne_of_mem {c d : Char} (hc : c ∈ name) (other : (d.isLower || d == '_') = false) : c ≠ d := by
  rintro rfl
  rw [h.letters c hc] at other
  cases other

theorem range {c : Char} (hc : c ∈ name) : 0x5F ≤ c.toNat ∧ c.toNat ≤ 0x7A := by
  have letter := h.letters c hc
  rw [Bool.or_eq_true, beq_iff_eq] at letter
  obtain letter | rfl := letter
  · obtain ⟨low, high⟩ := Bool.and_eq_true_iff.mp letter
    exact ⟨Nat.le_trans (by decide) (of_decide_eq_true low), of_decide_eq_true high⟩
  · decide

theorem isPlainWord : IsPlainWord name where
  nonempty := h.nonempty
  ink c hc := isInk_of_range (by have := h.range hc; omega) (h.ne_of_mem hc (by decide))
  comment head := h.ne_of_mem (List.mem_of_head? head) (by decide) rfl
  colon last := h.ne_of_mem (List.mem_of_getLast? last) (by decide) rfl

theorem shown : AllShown name := by
  intro c hc
  obtain ⟨low, high⟩ := h.range hc
  exact isSpecial_of_range ⟨Nat.le_trans (by decide) low, Nat.le_trans high (by decide)⟩

theorem oneLine : '\n' ∉ name := fun mem => h.ne_of_mem mem (by decide) rfl

theorem begins (tail : List Char) : ∃ c rest, name ++ tail = c :: rest ∧
    beginsPlain false (c :: rest) = true ∧ Scan.isLineMark c = false := by
  obtain ⟨c, rest, rfl⟩ := List.exists_cons_of_ne_nil h.nonempty
  have mem : c ∈ c :: rest := List.mem_cons_self
  refine ⟨c, _, rfl, ?_, ?_⟩
  · have none : ∀ d ∈ "-?:,[]\x7b\x7d#&*!|>'\"%@\x60".toList, (!(d.isLower || d == '_')) = true :=
      List.all_eq_true.mp (by decide)
    have plain : "-?:,[]\x7b\x7d#&*!|>'\"%@\x60".toList.contains c = false := by
      refine Bool.eq_false_iff.mpr fun among => h.ne_of_mem mem ?_ rfl
      have other := none c (List.contains_iff_mem.mp among)
      rwa [Bool.not_eq_true'] at other
    rw [beginsPlain, plain]
    simp only [isInk_iff.mp (h.isPlainWord.ink c mem)]
    rfl
  · simp only [Scan.isLineMark, beq_eq_false_iff_ne.mpr (h.ne_of_mem mem (d := '%') (by decide)),
      beq_eq_false_iff_ne.mpr (h.ne_of_mem mem (d := '-') (by decide)),
      beq_eq_false_iff_ne.mpr (h.ne_of_mem mem (d := '.') (by decide)), Bool.or_self]

theorem takePlain_colon {tail : List Char} (gap : isGap tail = true) :
    takePlain false (name ++ ':' :: tail) = (name, ':' :: tail) := by
  apply takePlain_append
  · intro c rest suffix
    have mem := suffix.mem List.mem_cons_self
    have colon : (c == ':') = false := beq_eq_false_iff_ne.mpr (h.ne_of_mem mem (by decide))
    rw [endsPlain]
    simp only [isInk_iff.mp (h.isPlainWord.ink c mem), colon, Bool.false_or, Bool.false_and]
  · rw [endsPlain, gap]
    rfl

/-- A key ends at its colon. -/
theorem readPlain_colon {tail : List Char} (gap : isGap tail = true) (indent : Int) (fuel : Nat) :
    readPlain false indent (fuel + 1) [] false (name ++ ':' :: tail) = ⟨name, false, ':' :: tail⟩ :=
  readPlain_last h.isPlainWord (h.takePlain_colon gap) fuel [] false rfl (.inl rfl)

end IsName

/-! Scalars. -/

/-- No plain scalar begins with a bracket, a comma, a quote or the mark of a comment. -/
theorem beginsPlain_indicator : ∀ c ∈ "[]\x7b\x7d,'\"#".toList, ∀ rest, beginsPlain false (c :: rest) = false := by
  intro c hc rest
  have listed : ∀ c ∈ "[]\x7b\x7d,'\"#".toList, ("-?:,[]\x7b\x7d#&*!|>'\"%@\x60".toList.contains c &&
      !(c == '-' || (!false && (c == '?' || c == ':')))) = true :=
    List.all_eq_true.mp (by decide)
  obtain ⟨mark, other⟩ := Bool.and_eq_true_iff.mp (listed c hc)
  rw [Bool.not_eq_true'] at other
  rw [beginsPlain, mark, other, Bool.or_true, Bool.and_false]
  rfl

/-- What a plain scalar may begin with before no gap is none of its own before a gap. -/
theorem beginsPlain_gap : ∀ c ∈ ['-', '?', ':'], ∀ rest, isGap rest = true → beginsPlain false (c :: rest) = false := by
  intro c hc rest gap
  have listed : ∀ c ∈ ['-', '?', ':'], "-?:,[]\x7b\x7d#&*!|>'\"%@\x60".toList.contains c = true :=
    List.all_eq_true.mp (by decide)
  rw [beginsPlain, listed c hc, gap, Bool.or_true]
  rfl

theorem startsToken_of_beginsPlain {cs : List Char} (begins : beginsPlain false cs = true) : StartsToken cs := by
  cases cs with
  | nil => nofun
  | cons c rest =>
      intro d hd
      cases hd
      refine ⟨?_, ?_⟩
      · rw [beginsPlain, Bool.or_eq_true] at begins
        obtain begins | begins := begins
        · rw [Bool.not_eq_true', Bool.or_eq_false_iff] at begins
          rw [isInk, begins.1]
          rfl
        · simp only [Bool.and_eq_true, Bool.or_eq_true, beq_iff_eq, Bool.not_false] at begins
          obtain rfl | ⟨-, rfl | rfl⟩ := begins.2 <;> rfl
      · rintro rfl
        rw [beginsPlain_indicator '#' (by decide)] at begins
        cases begins

/-- A scalar that is read from some characters whatever line follows, if that line is indented by less than
`indent`. -/
inductive IsScalar (indent : Nat) : List Char → Token → Prop
  | plain {cs text : List Char} (nonempty : cs ≠ []) (begins : ∀ tail, beginsPlain false (cs ++ '\n' :: tail) = true)
      (reads : ∀ {tail column rest}, StartsLine tail column rest → column < indent →
        readPlain false indent ((cs ++ '\n' :: tail).length + 1) [] false (cs ++ '\n' :: tail) =
          ⟨text, true, rest⟩) : IsScalar indent cs (.plain text)
  | single {cs text : List Char}
      (reads : ∀ tail, Reads readSingle (cs ++ '\n' :: tail) text ('\n' :: tail)) :
      IsScalar indent ('\x27' :: cs) (.quoted (text.map .char))
  | double {cs : List Char} {text : List Text.Code}
      (reads : ∀ tail, Reads readDouble (cs ++ '\n' :: tail) text ('\n' :: tail)) :
      IsScalar indent ('"' :: cs) (.quoted text)

theorem IsScalar.startsToken {indent : Nat} {cs : List Char} {t : Token} (h : IsScalar indent cs t) (tail : List Char) :
    StartsToken (cs ++ '\n' :: tail) := by
  intro d hd
  cases h with
  | plain nonempty begins => exact startsToken_of_beginsPlain (begins tail) d hd
  | single | double =>
      cases hd
      exact ⟨rfl, by decide⟩

/-! Steps. -/

namespace Scan

theorem eq_of_isMarker {c d : Char} {rest : List Char} (h : isMarker d (c :: rest) = true) : c = d := by
  unfold isMarker at h
  split at h
  · rename_i same
    cases same
    simp only [Bool.and_eq_true, beq_iff_eq] at h
    exact h.1.1.1
  · cases h

theorem takeToken_plain {s : Scan} {c : Char} {rest : List Char} (block : s.depth = 0)
    (mark : s.place.column ≠ 0 ∨ isLineMark c = false) (begins : beginsPlain false (c :: rest) = true) :
    s.takeToken c rest = s.plainScalar := by
  have begun : beginsPlain (decide (s.depth ≠ 0)) (c :: rest) = true := by
    rwa [decide_eq_false (not_not_intro block)]
  have percent : ¬ (c = '%' ∧ s.place.column = 0) := by
    rintro ⟨rfl, first⟩
    obtain mark | mark := mark
    · exact mark first
    · cases mark
  have marker {d : Char} (isMark : isLineMark d = true) : ¬ (s.place.column = 0 ∧ isMarker d (c :: rest) = true) := by
    rintro ⟨first, marks⟩
    rw [eq_of_isMarker marks, isMark] at mark
    exact mark.elim (fun other => other first) nofun
  have other {d : Char} (indicator : d ∈ "[]\x7b\x7d,'\"#".toList) : c ≠ d := by
    rintro rfl
    rw [beginsPlain_indicator c indicator] at begins
    cases begins
  have inside {d : Char} (gap : d ∈ ['-', '?', ':']) : ¬ (c = d ∧ isGap rest = true) := by
    rintro ⟨rfl, after⟩
    rw [beginsPlain_gap c gap rest after] at begins
    cases begins
  have inBlock {d : Char} (gap : d ∈ ['-', '?', ':']) : ¬ (c = d ∧ (s.depth ≠ 0 ∨ isGap rest = true)) :=
    fun both => inside gap ⟨both.1, both.2.resolve_left (not_not_intro block)⟩
  rw [takeToken, if_neg percent, if_neg (marker (d := '-') rfl), if_neg (marker (d := '.') rfl),
    if_neg (other (d := '[') (by decide)), if_neg (other (d := '\x7b') (by decide)),
    if_neg (other (d := ']') (by decide)), if_neg (other (d := '\x7d') (by decide)),
    if_neg (other (d := ',') (by decide)), if_neg (inside (d := '-') (by decide)),
    if_neg (inBlock (d := '?') (by decide)), if_neg (inBlock (d := ':') (by decide)),
    if_neg (other (d := '\x27') (by decide)), if_neg (other (d := '"') (by decide)), if_pos begun]

theorem takeToken_colon {s : Scan} {rest : List Char} (gap : isGap rest = true) :
    s.takeToken ':' rest = s.keyedValue := by
  have marker {d : Char} (other : ':' ≠ d) : ¬ (s.place.column = 0 ∧ isMarker d (':' :: rest) = true) :=
    fun both => other (eq_of_isMarker both.2)
  rw [takeToken, if_neg (fun both => absurd both.1 (by decide)), if_neg (marker (by decide)), if_neg (marker (by decide))]
  simp [gap]

theorem takeToken_quote {s : Scan} (rest : List Char) (first : s.place.column ≠ 0) :
    s.takeToken '\x27' rest = s.quotedScalar readSingleCodes ∧ s.takeToken '"' rest = s.quotedScalar readDouble := by
  constructor <;> simp [takeToken, first]

theorem saveKey_none {s : Scan} (no : s.allowsKey = false) : s.saveKey = .ok s := by
  rw [saveKey, no]
  rfl

theorem saveKey_first {s : Scan} (allowed : s.allowsKey = true) (none : s.keys = []) :
    s.saveKey = .ok { s with
      keys := [(s.depth, ⟨s.tokens.length, s.depth == 0 && s.indent == s.place.column, s.place.index, s.place.line,
        s.place.column⟩)] } := by
  unfold saveKey dropKey
  rw [if_pos allowed, none]
  rfl

theorem plainScalar_eq {s s' : Scan} (saved : s.saveKey = .ok s') {found : PlainText}
    (read : readPlain (s'.depth != 0) (s'.indent + 1) (s'.place.rest.length + 1) [] false s'.place.rest = found) :
    s.plainScalar = .ok { s' with
      place := s'.place.skipTo found.rest
      tokens := s'.tokens ++ [.plain found.text]
      allowsKey := found.brokeLine } := by
  rw [plainScalar, saved, ok_bind]
  simp only [read]
  rfl

theorem quotedScalar_eq {s : Scan} (no : s.allowsKey = false)
    {read : Nat → List Char → Except Fault (List Text.Code × List Char)} {quote : Char} {body rest : List Char}
    {text : List Text.Code} (h : s.place.rest = quote :: body) (reads : Reads read body text rest) :
    s.quotedScalar read = .ok { s with
      place := s.place.skipTo rest
      tokens := s.tokens ++ [.quoted text]
      allowsKey := false } := by
  have found := reads (body.length + 1) (Nat.lt_succ_self _)
  rw [quotedScalar, saveKey_none no, ok_bind, h, List.drop_one, List.tail_cons]
  simp only [found, ok_bind]
  rfl

theorem reads_singleCodes {cs text rest : List Char} (h : Reads readSingle cs text rest) :
    Reads readSingleCodes cs (text.map .char) rest := by
  intro fuel enough
  rw [readSingleCodes, h fuel enough]
  rfl

section Advance

variable {s : Scan} (indented : s.indent ≤ s.place.column)

include indented

theorem unwind_eq : s.unwind s.place.column = s := by
  have closed : closing s.place.column s.indent s.outer = ([], s.indent, s.outer) := by
    cases s.outer with
    | nil => rfl
    | cons out outer =>
        rw [closing, if_neg]
        omega
  unfold unwind
  split
  · simp only [closed, List.append_nil]
  · rfl

theorem advance_token (fresh : ∀ k ∈ s.keys, s.isStale k.2 = false) {c : Char} {rest : List Char}
    (h : s.place.rest = c :: rest) : s.advance = s.takeToken c rest := by
  have living : s.livingKeys = s.keys :=
    List.filter_eq_self.mpr fun k hk => by
      simp only [fresh k hk, Bool.not_false]
  have kept : s.dropStale = .ok s := by
    unfold dropStale
    rw [if_neg, living]
    rw [List.any_eq_true]
    rintro ⟨k, hk, stale⟩
    obtain ⟨old, -⟩ := Bool.and_eq_true_iff.mp stale
    exact Bool.noConfusion ((fresh k hk).symm.trans old)
  rw [advance, kept, ok_bind, unwind_eq indented]
  simp only [h]

end Advance

/-! States. -/

/-- The scanner outside of brackets where nothing may still become a key, before some characters at a column. -/
def Stands (s : Scan) (cs : List Char) (column : Nat) (ts : List Token) (indent : Int) (outer : List Int)
    (allowsKey : Bool) : Prop :=
  ∃ index line, s = { place := ⟨cs, index, line, column⟩, tokens := ts, indent, outer, allowsKey }

/-- What a key at a column begins: the mark of a block mapping if it is indented more than what is around it, and the
indentation from there on. -/
def opening (column : Nat) (indent : Int) (outer : List Int) : List Token × Int × List Int :=
  if indent < column then ([.blockMappingStart], column, indent :: outer) else ([], indent, outer)

theorem insertIdx_append (ts us : List Token) (t : Token) : (ts ++ us).insertIdx ts.length t = ts ++ t :: us := by
  induction ts with
  | nil => exact List.insertIdx_zero
  | cons first ts ih =>
      rw [List.cons_append, List.length_cons, List.insertIdx_succ_cons, ih]
      rfl

theorem keyedValue_eq {s : Scan} {k : PossibleKey} (block : s.depth = 0) (known : s.keys = [(0, k)]) :
    s.keyedValue = .ok { (indentTo { s with keys := [], tokens := s.tokens.insertIdx k.tokenCount .key } k.column
      .blockMappingStart k.tokenCount).take 1 .value with allowsKey := false } := by
  unfold keyedValue
  rw [known, block]
  rfl

section Key

variable {name : List Char} (h : IsName name) {more : List Char} (gap : isGap more = true) {column : Nat}
  {ts : List Token} {indent : Int} {outer : List Int} (indented : indent ≤ column) (index line : Nat)

def afterKey (name more : List Char) (column : Nat) (ts : List Token) (indent : Int) (outer : List Int)
    (index line : Nat) : Scan where
  place := ⟨':' :: more, index + name.length, line, column + name.length⟩
  tokens := ts ++ [.plain name]
  indent := indent
  outer := outer
  allowsKey := false
  keys := [(0, ⟨ts.length, indent == column, index, line, column⟩)]

include h gap indented

theorem advance_key :
    advance { place := ⟨name ++ ':' :: more, index, line, column⟩, tokens := ts, indent, outer } =
      .ok (afterKey name more column ts indent outer index line) := by
  have found := h.readPlain_colon gap (indent + 1) (name ++ ':' :: more).length
  have there := Place.skipTo_shown (p := ⟨name ++ ':' :: more, index, line, column⟩) rfl h.shown
  rw [columnAfter_line column h.oneLine, List.count_eq_zero_of_not_mem h.oneLine] at there
  obtain ⟨c, rest, same, begins, mark⟩ := h.begins (':' :: more)
  have scalar := plainScalar_eq (saveKey_first (s := {
    place := ⟨name ++ ':' :: more, index, line, column⟩, tokens := ts, indent, outer }) rfl rfl) found
  rw [there] at scalar
  rw [advance_token indented (List.forall_mem_nil _) same, takeToken_plain rfl (.inr mark) begins, scalar]
  rfl

theorem advance_colon : (afterKey name more column ts indent outer index line).advance =
    .ok {
      place := ⟨more, index + name.length + 1, line, column + name.length + 1⟩
      tokens := ts ++ (opening column indent outer).1 ++ [.key, .plain name, .value]
      indent := (opening column indent outer).2.1
      outer := (opening column indent outer).2.2
      allowsKey := false } := by
  have before : indent ≤ ((afterKey name more column ts indent outer index line).place.column : Int) := by
    exact Int.le_trans indented (Int.ofNat_le.mpr (Nat.le_add_right _ _))
  have fresh : ∀ k ∈ (afterKey name more column ts indent outer index line).keys,
      (afterKey name more column ts indent outer index line).isStale k.2 = false := by
    intro k hk
    have short := h.short
    rw [List.mem_singleton.mp hk]
    simp [isStale, afterKey]
    omega
  have place : (afterKey name more column ts indent outer index line).place.forward 1 =
      ⟨more, index + name.length + 1, line, column + name.length + 1⟩ :=
    Place.forward_shown (show _ = [':'] ++ more from rfl) (allShown_replicate rfl 1)
  have key := insertIdx_append ts [.plain name] .key
  have opened := insertIdx_append ts [.key, .plain name] .blockMappingStart
  rw [advance_token before fresh rfl, takeToken_colon gap, keyedValue_eq rfl rfl]
  by_cases less : indent < column
  · simp only [indentTo, opening, afterKey, less, ite_true, key, opened, take, emit]
    rw [afterKey] at place
    simp only [place, List.append_assoc, List.cons_append, List.nil_append]
  · simp only [indentTo, opening, afterKey, less, ite_false, key, take, emit]
    rw [afterKey] at place
    simp only [place, List.append_assoc, List.cons_append, List.nil_append]

end Key

/-! Values. -/

section Value

variable {tail rest : List Char} {lineColumn : Nat} (line : StartsLine tail lineColumn rest) (starts : StartsToken rest)
  {column : Nat} {ts : List Token} {indent : Nat} {outer : List Int}

include line starts

theorem stands_line {s : Scan} (h : s.place.rest = '\n' :: tail) (block : s.depth = 0) (none : s.keys = []) :
    Stands s.toNextToken rest lineColumn s.tokens s.indent s.outer true := by
  rw [line.eq] at h
  obtain ⟨index, lines, there⟩ := toNextToken_line starts h block
  rw [there, none, block]
  exact ⟨index, lines, rfl⟩

section Scalar

variable {cs : List Char} (shown : AllShown cs) (inner : indent < column) {s : Scan}

include shown inner

theorem advance_quoted {quote : Char} (visible : isSpecial quote = false)
    {read : Nat → List Char → Except Fault (List Text.Code × List Char)}
    (taken : ∀ s : Scan, s.place.column ≠ 0 → ∀ rest, s.takeToken quote rest = s.quotedScalar read)
    {text : List Text.Code} (reads : Reads read (cs ++ '\n' :: tail) text ('\n' :: tail))
    (stands : Stands s (quote :: cs ++ '\n' :: tail) column ts indent outer false) :
    ∃ s', s.advance = .ok s' ∧ Stands s'.toNextToken rest lineColumn (ts ++ [.quoted text]) indent outer true := by
  obtain ⟨index, lines, rfl⟩ := stands
  have indented : (indent : Int) ≤ column := Int.ofNat_le.mpr (Nat.le_of_lt inner)
  have there := Place.skipTo_shown (p := ⟨quote :: cs ++ '\n' :: tail, index, lines, column⟩) rfl
    (List.forall_mem_cons.mpr ⟨visible, shown⟩)
  have scalar := quotedScalar_eq (s := {
    place := ⟨quote :: cs ++ '\n' :: tail, index, lines, column⟩
    tokens := ts, indent, outer, allowsKey := false }) rfl rfl reads
  rw [there] at scalar
  rw [← taken _ (Nat.ne_of_gt (Nat.zero_lt_of_lt inner))] at scalar
  exact ⟨_, (advance_token indented (List.forall_mem_nil _) rfl).trans scalar, stands_line line starts rfl rfl rfl⟩

theorem advance_plain {c : Char} {text : List Char} (visible : isSpecial c = false)
    (begins : beginsPlain false (c :: (cs ++ '\n' :: tail)) = true)
    (reads : readPlain false (indent + 1 : Nat) ((c :: cs ++ '\n' :: tail).length + 1) [] false
      (c :: cs ++ '\n' :: tail) = ⟨text, true, rest⟩)
    (stands : Stands s (c :: cs ++ '\n' :: tail) column ts indent outer false) :
    ∃ s', s.advance = .ok s' ∧ Stands s'.toNextToken rest lineColumn (ts ++ [.plain text]) indent outer true := by
  obtain ⟨index, lines, rfl⟩ := stands
  have indented : (indent : Int) ≤ column := Int.ofNat_le.mpr (Nat.le_of_lt inner)
  have all : c :: cs ++ '\n' :: tail = (c :: cs ++ '\n' :: indentation lineColumn) ++ rest := by
    rw [line.eq, List.append_assoc, List.cons_append (a := '\n')]
  have visibleAll : AllShown (c :: cs ++ '\n' :: indentation lineColumn) :=
    List.forall_mem_append.mpr ⟨List.forall_mem_cons.mpr ⟨visible, shown⟩,
      List.forall_mem_cons.mpr ⟨rfl, allShown_replicate rfl lineColumn⟩⟩
  have there := Place.skipTo_shown (p := ⟨c :: cs ++ '\n' :: tail, index, lines, column⟩) all visibleAll
  rw [columnAfter_indentation] at there
  have scalar := plainScalar_eq (saveKey_none (s := {
    place := ⟨c :: cs ++ '\n' :: tail, index, lines, column⟩
    tokens := ts, indent, outer, allowsKey := false }) rfl) reads
  rw [there] at scalar
  rw [← takeToken_plain rfl (.inl (Nat.ne_of_gt (Nat.zero_lt_of_lt inner))) begins] at scalar
  refine ⟨_, (advance_token indented (List.forall_mem_nil _) rfl).trans scalar, ?_⟩
  rw [toNextToken_token starts rfl]
  exact ⟨_, _, rfl⟩

end Scalar

theorem advance_value {cs : List Char} {t : Token} (h : IsScalar (indent + 1) cs t) (shown : AllShown cs)
    (less : lineColumn ≤ indent) (inner : indent < column) {s : Scan}
    (stands : Stands s (cs ++ '\n' :: tail) column ts indent outer false) :
    ∃ s', s.advance = .ok s' ∧ Stands s'.toNextToken rest lineColumn (ts ++ [t]) indent outer true := by
  cases h with
  | plain nonempty begins reads =>
      obtain ⟨c, cs, rfl⟩ := List.exists_cons_of_ne_nil nonempty
      obtain ⟨visible, shown⟩ := List.forall_mem_cons.mp shown
      exact advance_plain line starts shown inner visible (begins tail) (reads line (Nat.lt_succ_of_le less)) stands
  | single reads =>
      obtain ⟨visible, shown⟩ := List.forall_mem_cons.mp shown
      exact advance_quoted line starts shown inner visible (fun _ first rest => (takeToken_quote rest first).1)
        (reads_singleCodes (reads tail)) stands
  | double reads =>
      obtain ⟨visible, shown⟩ := List.forall_mem_cons.mp shown
      exact advance_quoted line starts shown inner visible (fun _ first rest => (takeToken_quote rest first).2)
        (reads tail) stands

end Value

/-! Runs. -/

theorem run_advance {s s' : Scan} (advanced : s.toNextToken.advance = .ok s') (some : s.toNextToken.place.rest ≠ [])
    (fuel : Nat) : run (fuel + 1) s = run fuel s' := by
  have more : s.toNextToken.place.rest.isEmpty = false := List.isEmpty_eq_false_iff.mpr some
  rw [run]
  simp only [advanced, more, Bool.false_eq_true, ite_false]

theorem opening_indent {column : Nat} {indent : Int} (indented : indent ≤ column) (outer : List Int) :
    (opening column indent outer).2.1 = column := by
  unfold opening
  split
  · rfl
  · rename_i notLess
    exact Int.le_antisymm indented (Int.not_lt.mp notLess)

section Entry

variable {name : List Char} (h : IsName name) {column : Nat} {ts : List Token} {indent : Int} {outer : List Int}
  (indented : indent ≤ column) {s : Scan}

include h indented

theorem run_key {more : List Char} (gap : isGap more = true)
    (stands : Stands s.toNextToken (name ++ ':' :: more) column ts indent outer true) :
    ∃ s', (∀ fuel, run (fuel + 2) s = run fuel s') ∧ Stands s' more (column + name.length + 1)
      (ts ++ (opening column indent outer).1 ++ [.key, .plain name, .value]) column (opening column indent outer).2.2
      false := by
  obtain ⟨index, lines, same⟩ := stands
  have starts : StartsToken (':' :: more) := by
    intro d hd
    cases hd
    exact ⟨rfl, by decide⟩
  have key : s.toNextToken.advance = _ := same ▸ advance_key h gap indented index lines
  have colon : (afterKey name more column ts indent outer index lines).advance = _ :=
    advance_colon h gap indented index lines
  have still := toNextToken_token (s := afterKey name more column ts indent outer index lines) starts rfl
  rw [← still, opening_indent indented] at colon
  refine ⟨_, fun fuel => (run_advance key ?_ _).trans (run_advance colon ?_ fuel), _, _, rfl⟩
  · rw [same]
    exact List.append_ne_nil_of_left_ne_nil h.nonempty _
  · rw [still]
    nofun

theorem run_entry {cs : List Char} {t : Token} (scalar : IsScalar (column + 1) cs t) (shown : AllShown cs)
    {tail rest : List Char} {lineColumn : Nat} (line : StartsLine tail lineColumn rest) (less : lineColumn ≤ column)
    (starts : StartsToken rest)
    (stands : Stands s.toNextToken (name ++ ':' :: ' ' :: (cs ++ '\n' :: tail)) column ts indent outer true) :
    ∃ s', (∀ fuel, run (fuel + 3) s = run fuel s') ∧ Stands s'.toNextToken rest lineColumn
      (ts ++ (opening column indent outer).1 ++ [.key, .plain name, .value, t]) column
      (opening column indent outer).2.2 true := by
  obtain ⟨s₁, runs, index, lines, rfl⟩ := run_key h indented rfl stands
  have begun := toNextToken_space (scalar.startsToken tail) (s := {
    place := ⟨' ' :: (cs ++ '\n' :: tail), index, lines, column + name.length + 1⟩
    tokens := ts ++ (opening column indent outer).1 ++ [.key, .plain name, .value]
    indent := column
    outer := (opening column indent outer).2.2
    allowsKey := false }) rfl
  have inner : column < column + name.length + 1 + 1 := by omega
  obtain ⟨s₂, value, stands⟩ := advance_value line starts scalar shown less inner ⟨_, _, begun⟩
  have some : cs ++ '\n' :: tail ≠ [] := List.append_ne_nil_of_right_ne_nil _ (List.cons_ne_nil _ _)
  refine ⟨s₂, fun fuel => (runs (fuel + 1)).trans (run_advance value ?_ fuel), ?_⟩
  · rw [begun]
    exact some
  · rwa [List.append_assoc] at stands

end Entry

end Scan

end ClauseFeatures.Yaml
