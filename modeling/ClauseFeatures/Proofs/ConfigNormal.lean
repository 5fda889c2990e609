import ClauseFeatures.Proofs.ConfigFile
import ClauseFeatures.Proofs.NumberOrder

/-!
Normal form of configurations. Reading a mapping converts each setting on its own, from the value given for its key or
from its default, and what comes out of the conversions is left alone by them. So the mapping of a configuration that
was read is read as the same configuration, and equal to it, unless a NaN stands in its file.
-/
namespace ClauseFeatures

/-! Values that are equal to themselves. -/

theorem Number.place_isSome {a : Number} (number : a.isNaN = false) : a.place.isSome = true := by
  cases a with
  | truth | int => rfl
  | real x =>
      rcases Double.canonical_or (Double.stored x) with finite | nan | ⟨s, infinite⟩
      · rw [place, Double.place_finite (Double.isFinite_iff.mpr finite)]
        rfl
      · change (x.toModel.unpack matches .notANumber) = false at number
        rw [nan] at number
        cases number
      · rw [place, Double.place, infinite]
        cases s with
        | positive | negative => rfl

theorem Number.equal_self {a : Number} (number : a.isNaN = false) : a.equal a = true := by
  obtain ⟨x, placed⟩ := Option.isSome_iff_exists.mp (place_isSome number)
  exact equal_iff.mpr ⟨x, placed, placed⟩

namespace Value

mutual

/-- Whether no number in a value, at any depth, is a NaN. -/
def isNaNFree : Value → Bool
  | number n => !n.isNaN
  | list items => areNaNFree items
  | mapping entries => areNaNFreeEntries entries
  | _ => true

def areNaNFree : List Value → Bool
  | [] => true
  | item :: items => item.isNaNFree && areNaNFree items

def areNaNFreeEntries : List (Value × Value) → Bool
  | [] => true
  | (key, value) :: entries => key.isNaNFree && value.isNaNFree && areNaNFreeEntries entries

end

mutual

theorem equal_self : ∀ {v : Value}, v.isNaNFree = true → v.equal v = true
  | .null, _ => by rw [equal]
  | .number n, free => by
      rw [isNaNFree, Bool.not_eq_true'] at free
      rw [equal, Number.equal_self free]
  | .text s, _ => by rw [equal, beq_self_eq_true]
  | .rawText cs, _ => by rw [equal, beq_self_eq_true]
  | .list items, free => by
      rw [isNaNFree] at free
      rw [equal, equalItems_self free]
  | .mapping entries, free => by
      rw [isNaNFree] at free
      rw [equal, beq_self_eq_true, Bool.true_and]
      exact entriesWithin_of_subset free fun _ => id

theorem equalItems_self : ∀ {items : List Value}, areNaNFree items = true → equalItems items items = true
  | [], _ => by rw [equalItems]
  | item :: items, free => by
      rw [areNaNFree, Bool.and_eq_true] at free
      rw [equalItems, equal_self free.1, equalItems_self free.2, Bool.and_self]

/-- Entries find themselves among all entries. -/
theorem entriesWithin_of_subset : ∀ {entries others : List (Value × Value)}, areNaNFreeEntries entries = true →
    (∀ entry ∈ entries, entry ∈ others) → entriesWithin entries others = true
  | [], _, _, _ => by rw [entriesWithin]
  | (key, value) :: entries, others, free, within => by
      rw [areNaNFreeEntries, Bool.and_eq_true, Bool.and_eq_true] at free
      have first : (others.any fun other => key.equal other.1 && value.equal other.2) = true :=
        List.any_eq_true.mpr ⟨(key, value), within _ List.mem_cons_self,
          by rw [equal_self free.1.1, equal_self free.1.2, Bool.and_self]⟩
      rw [entriesWithin, first, Bool.true_and]
      exact entriesWithin_of_subset free.2 fun entry he => within entry (List.mem_cons_of_mem _ he)

end

end Value

namespace Config

open Yaml

def setting (c : Config) (key : String) : Option Value :=
  (settings (.number c.eps) (.number c.redTier) (.number c.verbosity) c.logFile).lookup key

theorem setting_eq_none {c : Config} {key : String} (none : key ∉ keys) : c.setting key = .none := by
  simp only [keys, List.mem_cons, List.not_mem_nil, or_false, not_or] at none
  obtain ⟨eps, redTier, verbosity, logFile⟩ := none
  simp only [setting, settings, List.lookup_cons, List.lookup_nil, beq_eq_false_iff_ne.mpr eps,
    beq_eq_false_iff_ne.mpr redTier, beq_eq_false_iff_ne.mpr verbosity, beq_eq_false_iff_ne.mpr logFile]

/-- A number that a value is converted to. -/
def Converted {α : Type} (convert : Value → Except Failure α) (wrap : α → Number) (v : Value) (a : Number) : Prop :=
  ∃ x, convert v = .ok x ∧ a = wrap x

/-- What a configuration has from the settings of a section, each from the value given for its key. -/
structure ReadsFrom (c : Config) (given : List (Value × Value)) : Prop where
  known : unknownKeys given = []
  eps : Converted decimalOf .real ((Value.lookup "eps" given).getD (.number defaultEps)) c.eps
  redTier : Converted integerOf .int ((Value.lookup "red_tier" given).getD (.int 0)) c.redTier
  verbosity : Converted integerOf .int ((Value.lookup "verbosity" given).getD (.int 0)) c.verbosity
  logFile : (Value.lookup "log_file" given).getD .null = c.logFile
  accepted : make (.number c.eps) (.number c.redTier) (.number c.verbosity) c.logFile = .ok c

/-! Conversions. -/

theorem Converted.unique {α : Type} {convert : Value → Except Failure α} {wrap : α → Number} {v : Value} {a b : Number}
    (h : Converted convert wrap v a) (h' : Converted convert wrap v b) : b = a := by
  obtain ⟨x, converted, rfl⟩ := h
  obtain ⟨y, converted', rfl⟩ := h'
  rw [Except.ok.inj (converted'.symm.trans converted)]

/-- The double that a value was converted to is converted to itself. -/
theorem Converted.decimal {v : Value} {a : Number} (h : Converted decimalOf .real v a) :
    Converted decimalOf .real (.number a) a := by
  obtain ⟨x, -, rfl⟩ := h
  exact ⟨x, rfl, rfl⟩

/-- The integer that a value was converted to is converted to itself. -/
theorem Converted.integer {v : Value} {a : Number} (h : Converted integerOf .int v a) :
    Converted integerOf .int (.number a) a := by
  obtain ⟨n, -, rfl⟩ := h
  exact ⟨n, rfl, rfl⟩

/-! Sections. -/

variable {c c' : Config} {given given' entries : List (Value × Value)}

theorem ofSection_eq_ok (known : unknownKeys given = []) : ofSection given = .ok c ↔ c.ReadsFrom given := by
  constructor
  · intro h
    obtain ⟨x, eps, h⟩ := bind_eq_ok h
    obtain ⟨n, redTier, h⟩ := bind_eq_ok h
    obtain ⟨m, verbosity, made⟩ := bind_eq_ok h
    obtain ⟨-, -, -, rfl⟩ := make_eq_ok.mp made
    exact ⟨known, ⟨x, eps, rfl⟩, ⟨n, redTier, rfl⟩, ⟨m, verbosity, rfl⟩, rfl, made⟩
  · rintro ⟨-, ⟨x, eps, isEps⟩, ⟨n, redTier, isTier⟩, ⟨m, verbosity, isLevel⟩, logFile, accepted⟩
    rw [isEps, isTier, isLevel, ← logFile] at accepted
    simp only [ofSection, eps, redTier, verbosity, ok_bind, accepted]

theorem mapError_eq_ok {f : Failure → Failure} {x : Except Failure Config} : x.mapError f = .ok c ↔ x = .ok c := by
  cases x with
  | error e => exact ⟨nofun, nofun⟩
  | ok d => exact Iff.rfl

theorem ofMapping_eq_ok : ofMapping (.mapping entries) = .ok c ↔
    ∃ given, sectionOf entries = .ok given ∧ c.ReadsFrom given := by
  rw [ofMapping_eq]
  constructor
  · intro h
    obtain ⟨given, found, h⟩ := bind_eq_ok h
    obtain ⟨_, checked, h⟩ := bind_eq_ok h
    have known : unknownKeys given = [] := by
      by_contra unknown
      rw [checkKeys_of_unknown unknown] at checked
      obtain ⟨ordered, -, checked⟩ := bind_eq_ok checked
      split at checked <;> cases checked
    exact ⟨given, found, (ofSection_eq_ok known).mp (mapError_eq_ok.mp h)⟩
  · rintro ⟨given, found, reads⟩
    rw [found, ok_bind, checkKeys_of_known reads.known, ok_bind]
    exact mapError_eq_ok.mpr ((ofSection_eq_ok reads.known).mpr reads)

namespace ReadsFrom

theorem isSound (h : c.ReadsFrom given) : c.IsSound := by
  obtain ⟨x, -, eps⟩ := h.eps
  obtain ⟨n, -, redTier⟩ := h.redTier
  obtain ⟨m, -, verbosity⟩ := h.verbosity
  have accepted := h.accepted
  rw [eps, redTier, verbosity] at accepted
  exact isSound_of_make accepted

/-- A configuration that was read is read from its own settings. -/
theorem own (h : c.ReadsFrom given) :
    c.ReadsFrom (Node.named (settings (.number c.eps) (.number c.redTier) (.number c.verbosity) c.logFile)) := by
  obtain ⟨eps, redTier, verbosity, logFile⟩ :=
    lookup_settings (.number c.eps) (.number c.redTier) (.number c.verbosity) c.logFile
  exact {
    known := unknownKeys_settings _ _ _ _
    eps := by
      rw [lookup_named, eps]
      exact h.eps.decimal
    redTier := by
      rw [lookup_named, redTier]
      exact h.redTier.integer
    verbosity := by
      rw [lookup_named, verbosity]
      exact h.verbosity.integer
    logFile := by
      rw [lookup_named, logFile]
      rfl
    accepted := h.accepted }

theorem normal (h : c.ReadsFrom given) : ofMapping c.toMapping = .ok c :=
  ofMapping_eq_ok.mpr ⟨_, sectionOf_nested _, h.own⟩

theorem equal_self (h : c.ReadsFrom given) (free : c.logFile.isNaNFree = true) : c.equal c = true := by
  obtain ⟨⟨x, eps, finite, -⟩, ⟨n, redTier, -⟩, ⟨m, verbosity, -⟩⟩ := h.isSound
  have threshold : c.eps.isNaN = false := eps ▸ Double.isNaN_of_isFinite finite
  have tier : c.redTier.isNaN = false := redTier ▸ rfl
  have level : c.verbosity.isNaN = false := verbosity ▸ rfl
  rw [equal, Number.equal_self threshold, Number.equal_self tier, Number.equal_self level, Value.equal_self free]
  rfl

/-- A setting depends on the value that is given for its key, and on nothing else. -/
theorem setting_eq (h : c.ReadsFrom given) (h' : c'.ReadsFrom given') {key : String}
    (same : Value.lookup key given' = Value.lookup key given) : c'.setting key = c.setting key := by
  by_cases setting : key ∈ keys
  · simp only [keys, List.mem_cons, List.not_mem_nil, or_false] at setting
    obtain rfl | rfl | rfl | rfl := setting
    · have eps : c'.eps = c.eps := h.eps.unique (same ▸ h'.eps)
      exact congrArg (fun a => some (Value.number a)) eps
    · have redTier : c'.redTier = c.redTier := h.redTier.unique (same ▸ h'.redTier)
      exact congrArg (fun a => some (Value.number a)) redTier
    · have verbosity : c'.verbosity = c.verbosity := h.verbosity.unique (same ▸ h'.verbosity)
      exact congrArg (fun a => some (Value.number a)) verbosity
    · have logFile : c'.logFile = c.logFile := by rw [← h.logFile, ← h'.logFile, same]
      exact congrArg some logFile
  · rw [setting_eq_none setting, setting_eq_none setting]

/-- Without settings there are the defaults. -/
theorem nil : Config.default.ReadsFrom [] where
  known := rfl
  eps := ⟨_, rfl, rfl⟩
  redTier := ⟨0, rfl, rfl⟩
  verbosity := ⟨0, rfl, rfl⟩
  logFile := rfl
  accepted := by decide +kernel

end ReadsFrom

/-- A configuration that is read from a mapping is in range, and is read again from its own mapping. Each of its
settings is told by the value given for the key alone, and is the default if there is none. -/
theorem ofMapping_normal (read : ofMapping (.mapping entries) = .ok c) :
    ∃ given, sectionOf entries = .ok given ∧ c.IsSound ∧ ofMapping c.toMapping = .ok c ∧
      ((∀ file, Value.lookup "log_file" given = some file → file.isNaNFree = true) → c.equal c = true) ∧
      (∀ key, Value.lookup key given = none → c.setting key = Config.default.setting key) ∧
      ∀ entries' given' c', sectionOf entries' = .ok given' → ofMapping (.mapping entries') = .ok c' →
        ∀ key, Value.lookup key given' = Value.lookup key given → c'.setting key = c.setting key := by
  obtain ⟨given, found, reads⟩ := ofMapping_eq_ok.mp read
  refine ⟨given, found, reads.isSound, reads.normal, fun free => reads.equal_self ?_,
    fun key absent => ReadsFrom.nil.setting_eq reads absent, fun entries' given' c' found' read' key same => ?_⟩
  · rw [← reads.logFile]
    cases stands : Value.lookup "log_file" given with
    | none => rfl
    | some file => exact free file stands
  · obtain ⟨other, opened, reads'⟩ := ofMapping_eq_ok.mp read'
    cases found'.symm.trans opened
    exact reads.setting_eq reads' same

/-- Numbers in texts with blanks, a sign, underscores and digits of another script, and a threshold outside the section
that has no effect. -/
theorem ofMapping_normal_texts :
    let entries : List (Value × Value) := [(.text "eps", .int 7), (.text "features", .mapping
      [(.text "red_tier", .text " +1_0\n"), (.text "eps", .text "٠.٢_٥e0\u2003"),
        (.text "log_file", .list [.real 0.5])])]
    ∃ c, ofMapping (.mapping entries) = .ok c ∧ c.redTier = 10 ∧ ofMapping c.toMapping = .ok c ∧ c.equal c = true ∧
      c.setting "verbosity" = some (.int 0) := by
  intro entries
  have read : ofMapping (.mapping entries) = .ok ⟨.real 0.25, 10, 0, .list [.real 0.5]⟩ := by decide +kernel
  obtain ⟨given, found, -, normal, equal, fallback, -⟩ := ofMapping_normal read
  cases (show sectionOf entries = _ from rfl).symm.trans found
  refine ⟨_, read, rfl, normal, equal ?_, fallback "verbosity" rfl⟩
  intro file stands
  cases stands
  decide +kernel

end Config

end ClauseFeatures
