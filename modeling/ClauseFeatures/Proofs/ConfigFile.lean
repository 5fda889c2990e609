import ClauseFeatures.Config.File
import ClauseFeatures.Proofs.ConfigMapping
import ClauseFeatures.Proofs.Yaml.Scalar

/-!
Saving and loading. A configuration is written as a document with one section, and what is read from the document is a
configuration equal to it: its threshold as a double of the same value, its tier and verbosity as the same integers,
and its file as the same text. A tier or a verbosity with too many digits cannot be written; then an empty file stays
behind, which is read as the default configuration.
-/
namespace ClauseFeatures.Config

open Yaml

/-! Settings. -/

/-- A value that is written in the section of a document and is read as another one. -/
def Loads (v found : Value) : Prop := ∃ t, IsWritten indentStep v t found

theorem int_of_threshold {n : ℤ} (h : Number.IsThreshold (.int n)) : n = 0 := by
  obtain ⟨low, high⟩ := h
  change (some (compare 0 n) == some .lt || some (compare 0 n) == some .eq) = true at low
  rw [Bool.or_eq_true, beq_iff_eq, beq_iff_eq, Option.some.injEq, Option.some.injEq, compare_lt_iff_lt,
    compare_eq_iff_eq] at low
  change (some (compare n 1) == some .lt) = true at high
  rw [beq_iff_eq, Option.some.injEq, compare_lt_iff_lt] at high
  omega

theorem loads_threshold {eps : Number} (threshold : eps.IsThreshold) :
    ∃ found y, Loads (.number eps) found ∧ decimalOf found = .ok y ∧ Number.IsThreshold (.real y) ∧
      (Number.real y).equal eps = true := by
  cases eps with
  | real x =>
      obtain ⟨finite, low, high⟩ := isThreshold_real.mp threshold
      obtain ⟨y, written, finite', same⟩ := isWritten_real finite low (high.le.trans Double.one_le_limit) indentStep
      refine ⟨.real y, y, ⟨_, written⟩, rfl, isThreshold_real.mpr ⟨finite', same ▸ low, same ▸ high⟩, ?_⟩
      have notLess : ¬ y < x := by
        rw [Double.lt_iff finite' finite, same]
        exact lt_irrefl _
      have equal := (Double.beq_iff finite' finite).mpr same
      change (Number.compareDoubles y x == some .eq) = true
      rw [Number.compareDoubles, if_neg notLess, if_pos equal]
      rfl
  | int n =>
      obtain rfl := int_of_threshold threshold
      exact ⟨.int 0, 0, ⟨_, isWritten_integer (Int.le_refl 0) (by decide +kernel) indentStep⟩, by decide +kernel,
        ⟨by decide +kernel, by decide +kernel⟩, by decide +kernel⟩
  | truth b =>
      cases b with
      | false =>
          exact ⟨.truth false, 0, ⟨_, isWritten_truth false indentStep⟩, rfl, ⟨by decide +kernel, by decide +kernel⟩,
            by decide +kernel⟩
      | true => exact absurd threshold.2 (by decide)

theorem loads_index {a : Number} {n : ℤ} (index : a.int? = some n) (nonneg : a.lt 0 = false)
    (fits : a.isTooLong = false) :
    ∃ found, Loads (.number a) found ∧ integerOf found = .ok n ∧ (Number.int n).lt 0 = false ∧
      (Number.int n).equal a = true := by
  cases a with
  | real x => cases index
  | int m =>
      cases index
      refine ⟨.int n, ⟨_, isWritten_integer (nonneg_of_int nonneg) fits indentStep⟩, rfl, nonneg, ?_⟩
      change (some (compare n n) == some .eq) = true
      rw [beq_iff_eq, Option.some.injEq, compare_eq_iff_eq]
  | truth b =>
      cases index
      refine ⟨.truth b, ⟨_, isWritten_truth b indentStep⟩, rfl, ?_, ?_⟩
      · cases b with
        | true | false => rfl
      · cases b with
        | true | false => rfl

theorem loads_file {file : Value} (h : file = .null ∨ ∃ s, file = .text s) :
    Loads file file ∧ file.equal file = true := by
  obtain rfl | ⟨s, rfl⟩ := h
  · exact ⟨⟨_, isWritten_null _⟩, rfl⟩
  · refine ⟨⟨_, isWritten_text s (by decide)⟩, ?_⟩
    rw [Value.equal]
    exact beq_self_eq_true s

/-! Documents. -/

/-- A text that is written as a key at a column, as it is. -/
structure IsKeyAt (column : Nat) (key : String) : Prop where
  name : IsName key.toList
  form : form key.toList = .text
  simple : isSimpleKey (.text key) = true
  written : writeAt (column + indentStep) column false (.text key) = key.toList

instance (column : Nat) (key : String) : Decidable (IsKeyAt column key) :=
  decidable_of_iff (IsName key.toList ∧ Yaml.form key.toList = .text ∧ isSimpleKey (.text key) = true ∧
    writeAt (column + indentStep) column false (.text key) = key.toList)
    ⟨fun h => ⟨h.1, h.2.1, h.2.2.1, h.2.2.2⟩, fun h => ⟨h.name, h.form, h.simple, h.written⟩⟩

def settings (eps redTier verbosity file : Value) : List (String × Value) :=
  [("eps", eps), ("red_tier", redTier), ("verbosity", verbosity), ("log_file", file)]

theorem setting_of_loads {key : String} (h : IsKeyAt indentStep key) {v found : Value} (loads : Loads v found) :
    ∃ t, IsSetting indentStep (.text key, v) (key.toList, t) ∧ Node.IsFound (key.toList, t) (key, found) := by
  obtain ⟨t, written⟩ := loads
  exact ⟨t, ⟨h.name, h.simple, h.written, written.flat, written.scalar, written.shown⟩,
    ⟨h.form, String.ofList_toList.symm, written.token, written.value⟩⟩

theorem read_toText {c : Config} {eps redTier verbosity file : Value} (first : Loads (.number c.eps) eps)
    (second : Loads (.number c.redTier) redTier) (third : Loads (.number c.verbosity) verbosity)
    (fourth : Loads c.logFile file) :
    Yaml.read c.toText =
      .ok (.mapping [(.text "features", .mapping (Node.named (settings eps redTier verbosity file)))]) := by
  have title : IsKeyAt 0 "features" := by decide +kernel
  obtain ⟨t₁, setting₁, found₁⟩ := setting_of_loads (by decide +kernel : IsKeyAt indentStep "eps") first
  obtain ⟨t₂, setting₂, found₂⟩ := setting_of_loads (by decide +kernel : IsKeyAt indentStep "red_tier") second
  obtain ⟨t₃, setting₃, found₃⟩ := setting_of_loads (by decide +kernel : IsKeyAt indentStep "verbosity") third
  obtain ⟨t₄, setting₄, found₄⟩ := setting_of_loads (by decide +kernel : IsKeyAt indentStep "log_file") fourth
  have document := read_write title.name title.form title.simple title.written
    (.cons setting₁ (.cons setting₂ (.cons setting₃ (.cons setting₄ .nil)))) (List.cons_ne_nil _ _)
    (.cons found₁ (.cons found₂ (.cons found₃ (.cons found₄ .nil))))
    (show ["eps", "red_tier", "verbosity", "log_file"].Nodup by decide)
  rwa [String.ofList_toList] at document

/-! Configurations. -/

theorem lookup_named (key : String) (found : List (String × Value)) :
    Value.lookup key (Node.named found) = found.lookup key := by
  induction found with
  | nil => rfl
  | cons entry found ih =>
      have same : (Value.text entry.1).equal (.text key) = (key == entry.1) := by
        rw [Value.equal, Bool.beq_comm]
      rw [List.lookup_cons, ← ih, Node.named, List.map_cons, Value.lookup, List.find?_cons, same]
      cases key == entry.1 with
      | true | false => rfl

section Section

variable (eps redTier verbosity file : Value)

theorem unknownKeys_settings : unknownKeys (Node.named (settings eps redTier verbosity file)) = [] := by
  change List.filter _ [Value.text "eps", .text "red_tier", .text "verbosity", .text "log_file"] = []
  decide +kernel

theorem lookup_settings :
    (settings eps redTier verbosity file).lookup "eps" = some eps ∧
      (settings eps redTier verbosity file).lookup "red_tier" = some redTier ∧
      (settings eps redTier verbosity file).lookup "verbosity" = some verbosity ∧
      (settings eps redTier verbosity file).lookup "log_file" = some file :=
  ⟨rfl, rfl, rfl, rfl⟩

end Section

theorem sectionOf_nested (given : List (Value × Value)) :
    sectionOf [(.text "features", .mapping given)] = .ok given := by
  have inner : Value.lookup "features" [(.text "features", .mapping given)] = some (.mapping given) :=
    lookup_named "features" [("features", .mapping given)]
  rw [sectionOf, inner]

theorem ofMapping_section {eps redTier verbosity file : Value} {y : Float} {n m : ℤ} (first : decimalOf eps = .ok y)
    (second : integerOf redTier = .ok n) (third : integerOf verbosity = .ok m) :
    ofMapping (.mapping [(.text "features", .mapping (Node.named (settings eps redTier verbosity file)))]) =
      (make (.real y) (.int n) (.int m) file).mapError asInvalid := by
  obtain ⟨eps', tier, level, path⟩ := lookup_settings eps redTier verbosity file
  have made : ofSection (Node.named (settings eps redTier verbosity file)) = make (.real y) (.int n) (.int m) file := by
    unfold ofSection
    simp only [lookup_named, eps', tier, level, path, Option.getD_some, first, second, third, ok_bind]
  rw [ofMapping_eq, sectionOf_nested]
  simp only [ok_bind, checkKeys_of_known (unknownKeys_settings eps redTier verbosity file), made]

theorem fits_of_threshold {eps : Number} (h : eps.IsThreshold) : eps.isTooLong = false := by
  cases eps with
  | real | truth => rfl
  | int n =>
      rw [int_of_threshold h]
      decide +kernel

/-- A configuration has a document unless its tier or its verbosity has too many digits. -/
theorem untold?_toMapping {c : Config} (threshold : c.eps.IsThreshold)
    (file : c.logFile = .null ∨ ∃ s, c.logFile = .text s) :
    c.toMapping.untold? none =
      if c.redTier.isTooLong || c.verbosity.isTooLong then some .integerTooLong else none := by
  have short : c.logFile.untold? none = none := by
    obtain null | ⟨s, text⟩ := file
    · rw [null]
      rfl
    · rw [text]
      rfl
  simp only [toMapping, Value.untold?, Value.untoldPair?, Option.map_none, fits_of_threshold threshold, short]
  cases c.redTier.isTooLong <;> cases c.verbosity.isTooLong <;> rfl

theorem ofText_empty (path : String) : ofText path "" = .ok .default := by
  have read : Yaml.read "" = .ok .null := by decide +kernel
  have made : ofMapping (.mapping []) = .ok .default := by decide +kernel
  rw [ofText, valueOfText, read, ok_bind]
  exact made

theorem load_of_found {files : String → Option String} {path text : String}
    (found : files (Text.tidyPath path) = some text) : load files path = ofText (Text.tidyPath path) text := by
  rw [load]
  simp only [found]

section Saved

variable {c : Config} (files : String → Option String) {path : String} (isPath : Text.isPath path = true)

include isPath

theorem save_fits (fits : c.toMapping.untold? none = none) :
    (c.save files path).2 = .ok () ∧ (c.save files path).1 (Text.tidyPath path) = some c.toText := by
  rw [save, if_pos isPath, fits]
  exact ⟨rfl, if_pos rfl⟩

theorem save_long {e : Failure} (long : c.toMapping.untold? none = some e) :
    (c.save files path).2 = .error e ∧ (c.save files path).1 (Text.tidyPath path) = some "" := by
  rw [save, if_pos isPath, long]
  exact ⟨rfl, if_pos rfl⟩

theorem save_other {other : String} (elsewhere : other ≠ Text.tidyPath path) :
    (c.save files path).1 other = files other := by
  rw [save, if_pos isPath]
  split
  · exact if_neg elsewhere
  · exact if_neg elsewhere

end Saved

/-- What is written is read as an equal configuration. -/
theorem ofText_toText {c : Config} (threshold : c.eps.IsThreshold) (tierRange : c.redTier.lt 0 = false)
    (levelRange : c.verbosity.lt 0 = false) (tier : c.redTier.int?.isSome = true)
    (level : c.verbosity.int?.isSome = true) (file : c.logFile = .null ∨ ∃ s, c.logFile = .text s)
    (tierFits : c.redTier.isTooLong = false) (levelFits : c.verbosity.isTooLong = false) (path : String) :
    ∃ y n m, ofText path c.toText = .ok ⟨.real y, .int n, .int m, c.logFile⟩ ∧
      equal ⟨.real y, .int n, .int m, c.logFile⟩ c = true := by
  obtain ⟨n, tier⟩ := Option.isSome_iff_exists.mp tier
  obtain ⟨m, level⟩ := Option.isSome_iff_exists.mp level
  obtain ⟨eps, y, first, decimal, threshold', sameEps⟩ := loads_threshold threshold
  obtain ⟨redTier, second, index, tierRange, sameTier⟩ := loads_index tier tierRange tierFits
  obtain ⟨verbosity, third, index', levelRange, sameLevel⟩ := loads_index level levelRange levelFits
  obtain ⟨fourth, sameFile⟩ := loads_file file
  have read := read_toText first second third fourth
  have made : make (.number (.real y)) (.number (.int n)) (.number (.int m)) c.logFile =
      .ok ⟨.real y, .int n, .int m, c.logFile⟩ := make_eq_ok.mpr ⟨threshold', tierRange, levelRange, rfl⟩
  refine ⟨y, n, m, ?_, ?_⟩
  · rw [ofText, valueOfText, read, ok_bind]
    exact (ofMapping_section decimal index index').trans (congrArg (Except.mapError asInvalid) made)
  · rw [equal, sameEps, sameTier, sameLevel, sameFile]
    rfl

/-- What is saved is loaded as an equal configuration, its threshold as a double. With a tier or a verbosity of too many
digits saving fails, and leaves an empty file that is loaded as the default. No other file is touched. -/
theorem load_save {c : Config}
    (accepted : make (.number c.eps) (.number c.redTier) (.number c.verbosity) c.logFile = .ok c)
    (tier : c.redTier.int?.isSome = true) (level : c.verbosity.int?.isSome = true)
    (file : c.logFile = .null ∨ ∃ s, c.logFile = .text s) (files : String → Option String) {path : String}
    (isPath : Text.isPath path = true) :
    let saved := c.save files path
    (c.redTier.isTooLong = false → c.verbosity.isTooLong = false → saved.2 = .ok () ∧
      ∃ y n m, load saved.1 path = .ok ⟨.real y, .int n, .int m, c.logFile⟩ ∧
        equal ⟨.real y, .int n, .int m, c.logFile⟩ c = true) ∧
    (c.redTier.isTooLong = true ∨ c.verbosity.isTooLong = true →
      (∃ e, saved.2 = .error e ∧ e.kind = .value) ∧ saved.1 (Text.tidyPath path) = some "" ∧
        load saved.1 path = .ok .default) ∧
    ∀ other, other ≠ Text.tidyPath path → saved.1 other = files other := by
  intro saved
  obtain ⟨threshold, tierRange, levelRange, -⟩ := make_eq_ok.mp accepted
  have untold := untold?_toMapping threshold file
  refine ⟨fun tierFits levelFits => ?_, fun long => ?_, fun other => save_other files isPath⟩
  · rw [tierFits, levelFits] at untold
    obtain ⟨succeeded, stored⟩ := save_fits files isPath untold
    rw [load_of_found stored]
    exact ⟨succeeded, ofText_toText threshold tierRange levelRange tier level file tierFits levelFits _⟩
  · rw [if_pos (Bool.or_eq_true_iff.mpr long)] at untold
    obtain ⟨failed, emptied⟩ := save_long files isPath untold
    refine ⟨⟨_, failed, rfl⟩, emptied, ?_⟩
    rw [load_of_found emptied]
    exact ofText_empty _

/-- A file name that is a word for a truth value is written between quotes. -/
theorem load_save_reserved :
    let c : Config := ⟨defaultEps, 1, 0, .text "yes"⟩
    (c.save (fun _ => none) "conf.yaml").1 "conf.yaml" =
        some "features:\n  eps: 1.0e-05\n  red_tier: 1\n  verbosity: 0\n  log_file: 'yes'\n" ∧
      (c.save (fun _ => none) "conf.yaml").2 = .ok () ∧
      ∃ y n m, load (c.save (fun _ => none) "conf.yaml").1 "conf.yaml" = .ok ⟨.real y, .int n, .int m, .text "yes"⟩ ∧
        equal ⟨.real y, .int n, .int m, .text "yes"⟩ c = true := by
  intro c
  have accepted : make (.number defaultEps) (.number 1) (.number 0) (.text "yes") = .ok c := by decide +kernel
  have isPath : Text.isPath "conf.yaml" = true := by decide
  obtain ⟨fits, -⟩ := load_save (c := c) accepted rfl rfl (.inr ⟨"yes", rfl⟩) (fun _ => none) isPath
  exact ⟨by decide +kernel, fits (by decide +kernel) (by decide +kernel)⟩

/-- A tier that is accepted but has too many digits is lost when it is saved, together with what the file held before;
and a threshold that is an integer does not stay one. -/
theorem save_loses :
    let long : Config := ⟨defaultEps, .int (Nat.pow 10 4300), 0, .null⟩
    let whole : Config := ⟨0, 0, 0, .null⟩
    make (.number long.eps) (.number long.redTier) (.number 0) .null = .ok long ∧
      (long.save (fun _ => some "eps: 0.5") "a.yaml").2 = .error .integerTooLong ∧
      (long.save (fun _ => some "eps: 0.5") "a.yaml").1 "a.yaml" = some "" ∧
      load (long.save (fun _ => some "eps: 0.5") "a.yaml").1 "a.yaml" = .ok .default ∧
      make (.number 0) (.number 0) (.number 0) .null = .ok whole ∧
      load (whole.save (fun _ => none) "a.yaml").1 "a.yaml" = .ok ⟨.real 0, 0, 0, .null⟩ := by
  exact ⟨by decide +kernel, by decide +kernel, by decide +kernel, by decide +kernel, by decide +kernel,
    by decide +kernel⟩

end ClauseFeatures.Config
