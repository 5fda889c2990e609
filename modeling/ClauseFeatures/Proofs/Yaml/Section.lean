import Mathlib.Data.List.Forall2
import ClauseFeatures.Proofs.Yaml.Tokens
import ClauseFeatures.Yaml.Block
import ClauseFeatures.Yaml.Node

/-!
Documents with one section: a mapping of names to scalars under a single name. Such a document is written line by
line, and its tokens and its node are read back entry by entry.
-/
namespace ClauseFeatures.Yaml

/-! Entries. -/

/-- An entry that is written in one piece: its key as a name, its value as a scalar that is read as a token. -/
structure IsSetting (column : Nat) (entry : Value × Value) (read : List Char × Token) : Prop where
  name : IsName read.1
  simple : isSimpleKey entry.1 = true
  key : writeAt (column + indentStep) column false entry.1 = read.1
  flat : (∀ item items, entry.2 ≠ .list (item :: items)) ∧ ∀ inner entries, entry.2 ≠ .mapping (inner :: entries)
  scalar : ∀ start, IsScalar (column + 1) (writeAt (column + indentStep) start true entry.2) read.2
  shown : ∀ start, AllShown (writeAt (column + indentStep) start true entry.2)

def entryTokens (read : List Char × Token) : List Token := [.key, .plain read.1, .value, read.2]

def sectionTokens (name : List Char) (reads : List (List Char × Token)) : List Token :=
  .blockMappingStart :: .key :: .plain name :: .value :: .blockMappingStart ::
    (reads.flatMap entryTokens ++ [.blockEnd, .blockEnd, .streamEnd])

theorem length_sectionTokens (name : List Char) (reads : List (List Char × Token)) :
    (sectionTokens name reads).length = 4 * reads.length + 8 := by
  have length : (reads.flatMap entryTokens).length = 4 * reads.length := by
    induction reads with
    | nil => rfl
    | cons read reads ih =>
        rw [List.flatMap_cons, List.length_append, ih, entryTokens, List.length_cons]
        simp only [List.length_cons, List.length_nil]
        omega
  simp only [sectionTokens, List.length_cons, List.length_append, length, List.length_nil]

theorem writeEntries_setting {column : Nat} {entry : Value × Value} {read : List Char × Token}
    (h : IsSetting column entry read) (entries : List (Value × Value)) :
    ∃ start, writeEntries column (entry :: entries) =
      read.1 ++ ':' :: ' ' :: (writeAt (column + indentStep) start true entry.2 ++
        if entries.isEmpty then [] else newLine column ++ writeEntries column entries) := by
  obtain ⟨key, value⟩ := entry
  refine ⟨column + (read.1 ++ [':']).length + 1, ?_⟩
  rw [writeEntries]
  simp only [h.simple, ite_true, h.key]
  split
  · exact absurd rfl (h.flat.1 _ _)
  · exact absurd rfl (h.flat.2 _ _)
  · simp only [List.append_assoc, List.cons_append, List.nil_append]

theorem IsName.startsToken {name : List Char} (h : IsName name) (tail : List Char) : StartsToken (name ++ tail) := by
  intro c hc
  have head : (name ++ tail).head? ≠ some '#' := h.isPlainWord.head_append
  obtain ⟨d, rest, same, ink⟩ : StartsInk (name ++ tail) := h.isPlainWord.startsInk
  rw [same] at hc head
  cases hc
  exact ⟨ink, fun comment => head (congrArg some comment)⟩

theorem startsLine_entries {column : Nat} (inner : 0 < column) {entry : Value × Value} {read : List Char × Token}
    (h : IsSetting column entry read) (entries : List (Value × Value)) (tail : List Char) :
    StartsLine (indentation column ++ (writeEntries column (entry :: entries) ++ tail)) column
        (writeEntries column (entry :: entries) ++ tail) ∧
      StartsToken (writeEntries column (entry :: entries) ++ tail) := by
  obtain ⟨start, written⟩ := writeEntries_setting h entries
  rw [written, List.append_assoc]
  exact ⟨⟨rfl, .inr h.name.isPlainWord.startsInk, .inl inner⟩, h.name.startsToken _⟩

namespace Scan

theorem run_entries {column : Nat} (inner : 0 < column) {entries : List (Value × Value)}
    {reads : List (List Char × Token)} (h : List.Forall₂ (IsSetting column) entries reads) (some : entries ≠ [])
    {s : Scan} {ts : List Token} {indent : Int} {outer : List Int} (indented : indent ≤ column)
    (stands : Stands s.toNextToken (writeEntries column entries ++ ['\n']) column ts indent outer true) :
    ∃ s', (∀ fuel, run (fuel + 3 * reads.length) s = run fuel s') ∧ Stands s'.toNextToken [] 0
      (ts ++ (opening column indent outer).1 ++ reads.flatMap entryTokens) column (opening column indent outer).2.2
      true := by
  induction h generalizing s ts indent outer with
  | nil => exact absurd rfl some
  | cons setting next ih =>
      rename_i entry read entries reads
      obtain ⟨start, written⟩ := writeEntries_setting setting entries
      rw [written] at stands
      cases next with
      | nil =>
          simp only [List.isEmpty_nil, ite_true, List.append_nil, List.append_assoc,
            List.cons_append] at stands
          have line : StartsLine [] 0 [] := ⟨rfl, .inl rfl, .inr rfl⟩
          obtain ⟨s', runs, after⟩ := run_entry setting.name indented (setting.scalar start) (setting.shown start) line
            (Nat.zero_le _) nofun stands
          exact ⟨s', runs, after⟩
      | cons following next =>
          rename_i entry₂ read₂ entries reads
          simp only [List.isEmpty_cons, Bool.false_eq_true, ite_false, newLine, List.append_assoc,
            List.cons_append] at stands
          obtain ⟨line, starts⟩ := startsLine_entries inner following entries ['\n']
          obtain ⟨s₁, runs, stands⟩ := run_entry setting.name indented (setting.scalar start) (setting.shown start) line
            (Nat.le_refl _) starts stands
          obtain ⟨s₂, more, after⟩ := ih (List.cons_ne_nil _ _) (Int.le_refl _) stands
          have none : opening column (column : Int) (opening column indent outer).2.2 =
              ([], (column : Int), (opening column indent outer).2.2) := if_neg (Int.lt_irrefl _)
          rw [none] at after
          have steps (fuel : Nat) : fuel + 3 * (read :: read₂ :: reads).length =
              fuel + 3 * (read₂ :: reads).length + 3 := by
            simp only [List.length_cons]
            omega
          refine ⟨s₂, fun fuel => ?_, ?_⟩
          · rw [steps, runs, more]
          · rw [List.flatMap_cons, ← List.append_assoc]
            rwa [List.append_nil] at after

theorem run_end {s : Scan} {ts : List Token} {column : Nat} (inner : 0 < column)
    (stands : Stands s.toNextToken [] 0 ts column [0, -1] true) (fuel : Nat) :
    run (fuel + 1) s = ts ++ [.blockEnd, .blockEnd, .streamEnd] := by
  obtain ⟨index, line, same⟩ := stands
  have deeper : (0 : Int) < column := Int.natCast_pos.mpr inner
  have ended : s.toNextToken.advance = .ok {
      place := ⟨[], index, line, 0⟩, tokens := ts ++ [.blockEnd, .blockEnd, .streamEnd], indent := -1 } := by
    have closed : closing (0 : Nat) column [0, -1] = ([.blockEnd], 0, [-1]) := by
      rw [closing, Int.natCast_zero, if_pos deeper]
      rfl
    rw [same, advance]
    change (do
      let s ← (unwind (unwind { place := ⟨[], index, line, 0⟩, tokens := ts, indent := column, outer := [0, -1] }
        (0 : Nat)) (-1)).dropKey
      pure (s.emit .streamEnd)) = _
    have first : unwind { place := ⟨[], index, line, 0⟩, tokens := ts, indent := column, outer := [0, -1] } (0 : Nat) =
        { place := ⟨[], index, line, 0⟩, tokens := ts ++ [.blockEnd], indent := 0, outer := [-1] } := by
      simp only [unwind, ite_true, closed]
    have second : unwind { place := ⟨[], index, line, 0⟩, tokens := ts ++ [.blockEnd], indent := 0, outer := [-1] } (-1) =
        { place := ⟨[], index, line, 0⟩, tokens := ts ++ [.blockEnd] ++ [.blockEnd], indent := -1 } := rfl
    have all : ts ++ [.blockEnd, .blockEnd, .streamEnd] = ts ++ [.blockEnd] ++ [.blockEnd] ++ [.streamEnd] := by
      simp only [List.append_assoc, List.cons_append, List.nil_append]
    rw [first, second, all]
    rfl
  rw [run]
  simp only [ended]
  rw [same]
  rfl

end Scan

theorem length_writeEntries {column : Nat} {entries : List (Value × Value)} {reads : List (List Char × Token)}
    (h : List.Forall₂ (IsSetting column) entries reads) : 3 * reads.length ≤ (writeEntries column entries).length := by
  induction h with
  | nil => exact Nat.zero_le _
  | cons setting next ih =>
      rename_i entry read entries reads
      obtain ⟨start, written⟩ := writeEntries_setting setting entries
      have some := List.length_pos_of_ne_nil setting.name.nonempty
      rw [written]
      cases next with
      | nil =>
          simp only [List.length_append, List.length_cons, List.length_nil]
          omega
      | cons =>
          simp only [List.isEmpty_cons, Bool.false_eq_true, ite_false, List.length_append, List.length_cons] at ih ⊢
          omega

theorem tokens_section {name : List Char} (h : IsName name) {column : Nat} (inner : 0 < column)
    {entries : List (Value × Value)} {reads : List (List Char × Token)}
    (settings : List.Forall₂ (IsSetting column) entries reads) (some : entries ≠ []) :
    tokens (name ++ ':' :: (newLine column ++ (writeEntries column entries ++ ['\n']))) =
      sectionTokens name reads := by
  have sized := length_writeEntries settings
  obtain ⟨line, starts⟩ : StartsLine (indentation column ++ (writeEntries column entries ++ ['\n'])) column
      (writeEntries column entries ++ ['\n']) ∧ StartsToken (writeEntries column entries ++ ['\n']) := by
    cases settings with
    | nil => exact absurd rfl some
    | cons setting next => exact startsLine_entries inner setting _ _
  generalize ht : newLine column ++ (writeEntries column entries ++ ['\n']) = body
  have begun := Scan.toNextToken_token (h.startsToken (':' :: body)) (s := { place := ⟨name ++ ':' :: body, 0, 0, 0⟩ }) rfl
  have gap : isGap body = true := by
    rw [← ht]
    rfl
  obtain ⟨s₁, key, index, lines, rfl⟩ := Scan.run_key h (by decide : (-1 : Int) ≤ (0 : Nat)) gap ⟨0, 0, begun⟩
  have below := Scan.stands_line line starts (s := {
    place := ⟨body, index, lines, 0 + name.length + 1⟩
    tokens := [] ++ (Scan.opening 0 (-1) []).1 ++ [.key, .plain name, .value]
    indent := (0 : Nat)
    outer := (Scan.opening 0 (-1) []).2.2
    allowsKey := false }) ht.symm rfl rfl
  obtain ⟨s₂, entriesRun, stands⟩ := Scan.run_entries inner settings some (Int.ofNat_le.mpr (Nat.zero_le column)) below
  have opened : Scan.opening column (0 : Nat) (Scan.opening 0 (-1) []).2.2 =
      ([Token.blockMappingStart], (column : Int), [0, -1]) := if_pos (Int.ofNat_lt.mpr inner)
  rw [opened] at stands
  have long : 3 * reads.length ≤ body.length := by
    rw [← ht, List.length_append, List.length_append]
    omega
  obtain ⟨k, enough⟩ : ∃ k, (name ++ ':' :: body).length + 1 = k + 1 + 3 * reads.length + 2 := by
    have := List.length_pos_of_ne_nil h.nonempty
    refine ⟨(name ++ ':' :: body).length - 3 * reads.length - 2, ?_⟩
    rw [List.length_append, List.length_cons]
    omega
  have mark : (name ++ ':' :: body).head? ≠ Option.some byteOrderMark := by
    obtain ⟨c, rest, rfl⟩ := List.exists_cons_of_ne_nil h.nonempty
    intro head
    exact h.ne_of_mem List.mem_cons_self (by decide) (Option.some.inj head)
  unfold tokens
  simp only [if_neg mark]
  rw [enough, key, entriesRun, Scan.run_end inner stands]
  simp only [List.append_assoc]
  rfl

/-! Nodes. -/

def Token.isScalar : Token → Bool
  | plain _ | quoted _ => true
  | _ => false

namespace Node

def ofScalar : Token → Node
  | .plain text => .plain text
  | .quoted text => .quoted text
  | _ => missing

def ofEntry (read : List Char × Token) : Node × Node := (.plain read.1, ofScalar read.2)

/-- The entry of a block mapping whose key and value are scalars. -/
theorem readEntries_entry {read : List Char × Token} (h : read.2.isScalar = true) (fuel : Nat) (rest : List Token) :
    readEntries (fuel + 2) (entryTokens read ++ rest) =
      readEntries (fuel + 1) rest >>= fun more => .ok (ofEntry read :: more.1, more.2) := by
  obtain ⟨name, t⟩ := read
  cases t with
  | plain | quoted => rfl
  | _ => cases h

theorem readEntries_settings {reads : List (List Char × Token)} (h : ∀ read ∈ reads, read.2.isScalar = true)
    (rest : List Token) (fuel : Nat) (enough : reads.length < fuel) :
    readEntries fuel (reads.flatMap entryTokens ++ .blockEnd :: rest) = .ok (reads.map ofEntry, rest) := by
  induction reads generalizing fuel with
  | nil =>
      obtain ⟨fuel, rfl⟩ := Nat.exists_eq_succ_of_ne_zero (Nat.ne_of_gt enough)
      rfl
  | cons read reads ih =>
      obtain ⟨scalar, scalars⟩ := List.forall_mem_cons.mp h
      rw [List.length_cons] at enough
      obtain ⟨fuel, rfl⟩ : ∃ k, fuel = k + 2 := ⟨fuel - 2, by omega⟩
      have more := ih scalars (fuel + 1) (by omega)
      rw [List.flatMap_cons, List.append_assoc, readEntries_entry scalar, more, ok_bind, List.map_cons]

theorem read_section (name : List Char) (rest : List Token) (fuel : Nat) :
    read (fuel + 3) .block (.blockMappingStart :: .key :: .plain name :: .value :: .blockMappingStart :: rest) =
      readEntries fuel rest >>= fun inner => readEntries (fuel + 1) inner.2 >>= fun more =>
        .ok (.mapping ((.plain name, .mapping inner.1) :: more.1), more.2) := by
  have outer : read (fuel + 3) .block
      (.blockMappingStart :: .key :: .plain name :: .value :: .blockMappingStart :: rest) =
      ((readEntries fuel rest >>= fun inner => .ok (.mapping inner.1, inner.2)) >>= fun value =>
        readEntries (fuel + 1) value.2 >>= fun more => .ok ((.plain name, value.1) :: more.1, more.2)) >>=
          fun entries => .ok (.mapping entries.1, entries.2) := rfl
  rw [outer]
  cases readEntries fuel rest with
  | error => rfl
  | ok inner =>
      simp only [ok_bind]
      cases readEntries (fuel + 1) inner.2 with
      | error => rfl
      | ok more => rfl

/-- The node of a document with one section. -/
theorem ofTokens_section (name : List Char) {reads : List (List Char × Token)}
    (h : ∀ read ∈ reads, read.2.isScalar = true) :
    ofTokens (sectionTokens name reads) = .ok (.mapping [(.plain name, .mapping (reads.map ofEntry))]) := by
  obtain ⟨fuel, sized, enough⟩ : ∃ fuel, 4 * (sectionTokens name reads).length + 4 = fuel + 3 ∧
      reads.length < fuel := by
    rw [length_sectionTokens]
    exact ⟨16 * reads.length + 33, by omega, by omega⟩
  have inner := readEntries_settings h [.blockEnd, .streamEnd] fuel enough
  have last : readEntries (fuel + 1) [.blockEnd, .streamEnd] = .ok ([], [.streamEnd]) := rfl
  have whole := read_section name (reads.flatMap entryTokens ++ .blockEnd :: [.blockEnd, .streamEnd]) fuel
  rw [inner, ok_bind, last, ok_bind, ← sectionTokens] at whole
  have document : readDocument (sectionTokens name reads) =
      read (4 * (sectionTokens name reads).length + 4) .block (sectionTokens name reads) := rfl
  rw [ofTokens, if_neg nofun, document, sized, whole, ok_bind]
  rfl

/-! Values. -/

/-- How an entry is read: the name stands for itself, and the token for a value. -/
structure IsFound (read : List Char × Token) (found : String × Value) : Prop where
  name : form read.1 = .text
  same : found.1 = String.ofList read.1
  scalar : read.2.isScalar = true
  value : ∀ depth, (ofScalar read.2).valueAt depth = .ok found.2

/-- Entries with texts as keys. -/
def named (found : List (String × Value)) : List (Value × Value) := found.map fun entry => (.text entry.1, entry.2)

theorem keyValue_text {name : List Char} (h : form name = .text) (depth : Nat) :
    keyValue depth (.plain name) = .ok (.text (String.ofList name)) := by
  have other : (Node.plain name).isOwnKey = false := by
    rw [isOwnKey, h]
    rfl
  rw [keyValue, other, resolve, h]
  rfl

theorem entriesAt_found {reads : List (List Char × Token)} {found : List (String × Value)}
    (h : List.Forall₂ IsFound reads found) (depth : Nat) :
    entriesAt depth (reads.map ofEntry) = .ok (named found) := by
  induction h with
  | nil => rfl
  | cons entry next ih =>
      rw [List.map_cons, ofEntry, entriesAt, keyValue_text entry.name, entry.value, ih, ← entry.same]
      rfl

theorem insertEntry_fresh {key : String} {known : List (String × Value)} (fresh : key ∉ known.map Prod.fst) (v : Value) :
    Value.insertEntry (.text key) v (named known) = named (known ++ [(key, v)]) := by
  induction known with
  | nil => rfl
  | cons entry known ih =>
      obtain ⟨other, fresh⟩ := List.ne_and_not_mem_of_not_mem_cons fresh
      have differs : (Value.text entry.1).isSameKey (.text key) = false := by
        rw [Value.isSameKey, Value.equal, beq_eq_false_iff_ne.mpr (Ne.symm other)]
        rfl
      have next := ih fresh
      rw [named, named, List.map_append] at next
      rw [named, named, List.map_cons, Value.insertEntry, differs, List.cons_append, List.map_cons, List.map_append,
        ← next]
      rfl

theorem foldl_insertEntry {known found : List (String × Value)} (distinct : ((known ++ found).map Prod.fst).Nodup) :
    (named found).foldl (fun known pair => Value.insertEntry pair.1 pair.2 known) (named known) =
      named (known ++ found) := by
  induction found generalizing known with
  | nil => rw [List.append_nil]; rfl
  | cons entry found ih =>
      have fresh : entry.1 ∉ known.map Prod.fst := by
        rw [List.map_append, List.map_cons] at distinct
        exact fun mem => (List.nodup_append.mp distinct).2.2 _ mem _ List.mem_cons_self rfl
      have cons : named (entry :: found) = (.text entry.1, entry.2) :: named found := rfl
      rw [List.append_cons] at distinct
      rw [cons, List.foldl_cons, insertEntry_fresh fresh, ih distinct, List.append_assoc, List.singleton_append]

/-- The value of a document with one section. -/
theorem value_section {name : List Char} (h : form name = .text) {reads : List (List Char × Token)}
    {found : List (String × Value)} (entries : List.Forall₂ IsFound reads found)
    (distinct : (found.map Prod.fst).Nodup) :
    value (.mapping [(.plain name, .mapping (reads.map ofEntry))]) =
      .ok (.mapping [(.text (String.ofList name), .mapping (named found))]) := by
  have inner : valueAt 1 (.mapping (reads.map ofEntry)) = .ok (.mapping (named found)) := by
    have all : (named found).foldl (fun known pair => Value.insertEntry pair.1 pair.2 known) (named []) = named found :=
      foldl_insertEntry distinct
    rw [valueAt, entriesAt_found entries, ok_bind]
    exact congrArg (fun entries => Except.ok (Value.mapping entries)) all
  have outer : entriesAt 1 [(.plain name, .mapping (reads.map ofEntry))] =
      .ok [(.text (String.ofList name), .mapping (named found))] := by
    rw [entriesAt, keyValue_text h, inner, entriesAt]
    rfl
  rw [value, valueAt, outer]
  rfl

end Node

/-! Documents. -/

theorem isAllowed_of_shown {c : Char} (shown : isSpecial c = false) : isAllowed c = true := by
  obtain rfl | range := shown_cases shown
  · rfl
  · simp only [isAllowed, range, decide_true, Bool.and_self, Bool.true_or, Bool.or_true]

theorem unifyLines_shown {cs : List Char} (shown : AllShown cs) : unifyLines cs = cs := by
  induction cs with
  | nil => rfl
  | cons c cs ih =>
      obtain ⟨first, shown⟩ := List.forall_mem_cons.mp shown
      have other : c ≠ '\r' := ne_of_shown first (by decide)
      rw [unifyLines.eq_3 c cs (fun _ same _ => other same) fun same => other same, ih shown]

theorem ofChars_shown {cs : List Char} (shown : AllShown cs) : Node.ofChars cs = Node.ofTokens (tokens cs) := by
  have none : cs.findIdx? (fun c => !isAllowed c) = none := by
    rw [List.findIdx?_eq_none_iff]
    intro c hc
    rw [isAllowed_of_shown (shown c hc)]
    rfl
  rw [Node.ofChars, unifyLines_shown shown]
  simp only [none]

theorem allShown_writeEntries {column : Nat} {entries : List (Value × Value)} {reads : List (List Char × Token)}
    (h : List.Forall₂ (IsSetting column) entries reads) : AllShown (writeEntries column entries) := by
  induction h with
  | nil => exact List.forall_mem_nil _
  | cons setting next ih =>
      rename_i entry read entries reads
      obtain ⟨start, written⟩ := writeEntries_setting setting entries
      rw [written]
      refine List.forall_mem_append.mpr ⟨setting.name.shown, List.forall_mem_cons.mpr ⟨rfl, List.forall_mem_cons.mpr
        ⟨rfl, List.forall_mem_append.mpr ⟨setting.shown start, ?_⟩⟩⟩⟩
      split
      · exact List.forall_mem_nil _
      · exact List.forall_mem_append.mpr ⟨List.forall_mem_cons.mpr ⟨rfl, allShown_replicate rfl column⟩, ih⟩

section Document

variable {key : Value} {name : List Char} {entries : List (Value × Value)} {reads : List (List Char × Token)}
  {found : List (String × Value)}

/-- A section is written under its name, indented by one step. -/
theorem writeAt_section (simple : isSimpleKey key = true) (written : writeAt indentStep 0 false key = name)
    (some : entries ≠ []) : writeAt indentStep 0 true (.mapping [(key, .mapping entries)]) ++ ['\n'] =
      name ++ ':' :: (newLine indentStep ++ (writeEntries indentStep entries ++ ['\n'])) := by
  obtain ⟨entry, entries, rfl⟩ := List.exists_cons_of_ne_nil some
  have inner : writeAt indentStep indentStep true (.mapping (entry :: entries)) =
      writeEntries indentStep (entry :: entries) := by
    rw [writeAt]
    rfl
  have outer : writeAt indentStep 0 true (.mapping [(key, .mapping (entry :: entries))]) =
      writeEntries 0 [(key, .mapping (entry :: entries))] := by
    rw [writeAt]
    rfl
  rw [outer, writeEntries]
  simp only [simple, ite_true, Nat.zero_add, written, inner, List.isEmpty_nil, List.append_nil, List.append_assoc,
    List.cons_append, List.nil_append]

/-- A document with one section is read back as the values of its entries. -/
theorem read_write (h : IsName name) (text : form name = .text) (simple : isSimpleKey key = true)
    (written : writeAt indentStep 0 false key = name)
    (settings : List.Forall₂ (IsSetting indentStep) entries reads) (some : entries ≠ [])
    (values : List.Forall₂ Node.IsFound reads found) (distinct : (found.map Prod.fst).Nodup) :
    read (write (.mapping [(key, .mapping entries)])) =
      .ok (.mapping [(.text (String.ofList name), .mapping (Node.named found))]) := by
  have shown : AllShown (name ++ ':' :: (newLine indentStep ++ (writeEntries indentStep entries ++ ['\n']))) := by
    refine List.forall_mem_append.mpr ⟨h.shown, List.forall_mem_cons.mpr ⟨rfl, List.forall_mem_cons.mpr ⟨rfl, ?_⟩⟩⟩
    exact List.forall_mem_append.mpr ⟨allShown_replicate rfl indentStep, List.forall_mem_append.mpr
      ⟨allShown_writeEntries settings, List.forall_mem_singleton.mpr rfl⟩⟩
  have scalars : ∀ read ∈ reads, read.2.isScalar = true := by
    clear settings
    induction values with
    | nil => exact List.forall_mem_nil _
    | cons entry next ih => exact List.forall_mem_cons.mpr ⟨entry.scalar, ih (List.nodup_cons.mp distinct).2⟩
  rw [write, writeAt_section simple written some, read, String.toList_ofList, ofChars_shown shown,
    tokens_section h (by decide) settings some, Node.ofTokens_section name scalars, ok_bind,
    Node.value_section text values distinct]

end Document

end ClauseFeatures.Yaml
