import ClauseFeatures.Config.Mapping
import ClauseFeatures.Proofs.Extraction
import ClauseFeatures.Proofs.Refusal

/-!
What becomes of a mapping that is read as a configuration. It gives a configuration whose settings are in
range, or is refused as a malformed configuration, with a few ways out: keys that have no order, a key too
long to be told, and numbers too large for the conversion asked of them. The ways out are listed here as
conditions of the entries, and every mapping takes the one that its entries tell.
-/
namespace ClauseFeatures

/-! Mappings and lists whose keys can be keys. -/

namespace Value

mutual

/-- Whether all keys inside a value, at any depth, can be keys. -/
def isKeyed : Value → Bool
  | list items => areKeyed items
  | mapping entries => areKeyedEntries entries
  | _ => true

def areKeyed : List Value → Bool
  | [] => true
  | item :: items => item.isKeyed && areKeyed items

def areKeyedEntries : List (Value × Value) → Bool
  | [] => true
  | (key, value) :: entries => key.isKey && value.isKeyed && areKeyedEntries entries

end

theorem areKeyedEntries_iff {entries : List (Value × Value)} :
    areKeyedEntries entries = true ↔ ∀ entry ∈ entries, entry.1.isKey = true ∧ entry.2.isKeyed = true := by
  induction entries with
  | nil => exact ⟨nofun, fun _ => rfl⟩
  | cons entry entries ih =>
      rw [areKeyedEntries, Bool.and_eq_true, Bool.and_eq_true, ih, List.forall_mem_cons]

theorem isKeyed_of_lookup {key : String} {entries : List (Value × Value)} {v : Value}
    (keyed : areKeyedEntries entries = true) (h : lookup key entries = some v) : v.isKeyed = true := by
  obtain ⟨entry, found, rfl⟩ := Option.map_eq_some_iff.mp h
  exact (areKeyedEntries_iff.mp keyed entry (List.mem_of_find?_eq_some found)).2

/-! Sorting keys. -/

/-- Whether two values are both numbers or both texts. -/
def sameSort (v w : Value) : Bool :=
  (v.number?.isSome && w.number?.isSome) || (v.codes?.isSome && w.codes?.isSome)

theorem sameSort_symm {v w : Value} (h : sameSort v w = true) : sameSort w v = true := by
  rw [sameSort, Bool.and_comm, Bool.and_comm (w.codes?.isSome)]
  exact h

theorem sameSort_trans {u v w : Value} (h : sameSort u v = true) (h' : sameSort v w = true) :
    sameSort u w = true := by
  cases v with
  | null | list _ | mapping _ => cases u <;> cases h
  | number _ | text _ | rawText _ =>
      cases u <;> first | (cases h; done) | (cases w <;> first | (cases h'; done) | rfl)

theorem lt_ok_iff {v w : Value} (hv : v.isKey = true) : (∃ b, lt v w = .ok b) ↔ sameSort v w = true := by
  cases v with
  | list _ | mapping _ => cases hv
  | null | number _ | text _ | rawText _ =>
      cases w <;> first
        | exact ⟨fun _ => rfl, fun _ => ⟨_, rfl⟩⟩
        | exact ⟨(nomatch ·), (nomatch ·)⟩

theorem exists_insertSorted {v : Value} {ws : List Value} (h : ∀ w ∈ ws, ∃ b, lt w v = .ok b) :
    ∃ us, insertSorted v ws = .ok us := by
  induction ws with
  | nil => exact ⟨_, rfl⟩
  | cons w ws ih =>
      obtain ⟨⟨below, compared⟩, rest⟩ := List.forall_mem_cons.mp h
      obtain ⟨us, inserted⟩ := ih rest
      rw [insertSorted, compared, ok_bind]
      cases below with
      | true => exact ⟨w :: us, by simp only [ite_true, inserted]; rfl⟩
      | false => exact ⟨_, rfl⟩

theorem perm_of_insertSorted {v : Value} {ws us : List Value} (h : insertSorted v ws = .ok us) :
    us.Perm (v :: ws) := by
  induction ws generalizing us with
  | nil =>
      cases h
      exact .refl _
  | cons w ws ih =>
      obtain ⟨below, -, h⟩ := bind_eq_ok h
      cases below with
      | true =>
          obtain ⟨rest, inserted, h⟩ := bind_eq_ok h
          cases h
          exact ((ih inserted).cons w).trans (.swap v w ws)
      | false =>
          cases h
          exact .refl _

theorem perm_of_sorted {vs ws : List Value} (h : sorted vs = .ok ws) : ws.Perm vs := by
  induction vs generalizing ws with
  | nil =>
      cases h
      exact .nil
  | cons v vs ih =>
      obtain ⟨rest, sorted, h⟩ := bind_eq_ok h
      exact (perm_of_insertSorted h).trans ((ih sorted).cons v)

theorem sorted_fails (vs : List Value) : FailsOnly (· = .wrongType) (sorted vs) := by
  have insert (v : Value) (ws : List Value) : FailsOnly (· = .wrongType) (insertSorted v ws) := by
    induction ws with
    | nil => exact .ok _
    | cons w ws ih => exact (isBelow_fails _ _ _).bind fun _ => .ite (ih.bind fun _ => .ok _) (.ok _)
  induction vs with
  | nil => exact .ok _
  | cons v vs ih => exact ih.bind fun _ => insert _ _

/-- Keys can be sorted exactly if any two of them are of one sort. -/
theorem exists_sorted_iff {vs : List Value} (keys : ∀ v ∈ vs, v.isKey = true) :
    (∃ ws, sorted vs = .ok ws) ↔ vs.Pairwise fun v w => sameSort v w = true := by
  induction vs with
  | nil => exact ⟨fun _ => .nil, fun _ => ⟨[], rfl⟩⟩
  | cons v vs ih =>
      obtain ⟨key, keys⟩ := List.forall_mem_cons.mp keys
      rw [List.pairwise_cons, ← ih keys]
      constructor
      · rintro ⟨us, h⟩
        obtain ⟨ws, rest, h⟩ := bind_eq_ok h
        refine ⟨fun u hu => ?_, ws, rest⟩
        have perm := perm_of_sorted rest
        cases ws with
        | nil => exact absurd (perm.mem_iff.mpr hu) List.not_mem_nil
        | cons w ws =>
            -- The insertion compares `v` with the first of the others, and this one is of the sort of all.
            obtain ⟨below, compared, -⟩ := bind_eq_ok h
            have hw : w ∈ vs := perm.mem_iff.mp List.mem_cons_self
            have first := sameSort_symm ((lt_ok_iff (keys w hw)).mp ⟨below, compared⟩)
            by_cases same : w = u
            · exact same ▸ first
            · have pairs := (ih keys).mp ⟨_, rest⟩
              have symm : Std.Symm fun v w : Value => sameSort v w = true := ⟨fun _ _ => sameSort_symm⟩
              exact sameSort_trans first (pairs.forall hw hu same)
      · rintro ⟨first, ws, rest⟩
        have perm := perm_of_sorted rest
        obtain ⟨us, inserted⟩ := exists_insertSorted (v := v) fun w (hw : w ∈ ws) =>
          (lt_ok_iff (keys w (perm.mem_iff.mp hw))).mpr (sameSort_symm (first w (perm.mem_iff.mp hw)))
        exact ⟨us, by rw [sorted, rest, ok_bind, inserted]⟩

end Value

namespace Config

/-! Unknown keys. -/

def unknownKeys (entries : List (Value × Value)) : List Value :=
  (entries.map Prod.fst).filter fun key => !keys.any fun k => key.equal (.text k)

/-- Whether a key has no text: it is an integer with too many digits. -/
def isUntold (key : Value) : Bool := (key.untold? none).isSome

theorem unknownKeys_keyed {entries : List (Value × Value)} (keyed : Value.areKeyedEntries entries = true) :
    ∀ key ∈ unknownKeys entries, key.isKey = true := by
  intro key hk
  obtain ⟨entry, he, rfl⟩ := List.mem_map.mp (List.mem_of_mem_filter hk)
  exact (Value.areKeyedEntries_iff.mp keyed entry he).1

theorem checkKeys_of_known {entries : List (Value × Value)} (known : unknownKeys entries = []) :
    checkKeys entries = .ok () := by
  unfold unknownKeys at known
  rw [checkKeys, known]
  rfl

/-- What is done with unknown keys: they are sorted, and told in a message. -/
theorem checkKeys_of_unknown {entries : List (Value × Value)} (unknown : unknownKeys entries ≠ []) :
    checkKeys entries = (do
      let ordered ← Value.sorted (unknownKeys entries)
      if ordered.any isUntold then throw .integerTooLong
      else throw (.unknownKeys (Value.list ordered).shown)) := by
  unfold unknownKeys at unknown
  rw [checkKeys, if_neg (by rwa [List.isEmpty_iff])]
  refine bind_congr fun ordered => ?_
  rw [Value.quoted_list]
  change _ = if (ordered.any fun v => (v.untold? none).isSome) = true then _ else _
  cases ordered.any fun v => (v.untold? none).isSome <;> rfl

/-- How a section gets out of being refused as malformed, and with what sort of failure: by unknown keys of
different sorts, by one that is too long to be told, or by a number that is too large for the conversion asked
of it, if the settings before it are converted. -/
inductive Escapes (settings : List (Value × Value)) : Failure.Kind → Prop
  | unordered (mixed : ¬ (unknownKeys settings).Pairwise fun v w => Value.sameSort v w = true) :
      Escapes settings .type
  | untold (ordered : (unknownKeys settings).Pairwise fun v w => Value.sameSort v w = true)
      (long : ∃ key ∈ unknownKeys settings, isUntold key = true) : Escapes settings .value
  | eps (known : unknownKeys settings = []) {n : ℤ} (given : Value.lookup "eps" settings = some (.int n))
      (large : Double.ofInt? n = none) : Escapes settings .overflow
  | redTier (known : unknownKeys settings = []) {x y : Float}
      (eps : decimalOf ((Value.lookup "eps" settings).getD (.number defaultEps)) = .ok y)
      (given : Value.lookup "red_tier" settings = some (.real x)) (infinite : x.isInf = true) :
      Escapes settings .overflow
  | verbosity (known : unknownKeys settings = []) {x y : Float} {n : ℤ}
      (eps : decimalOf ((Value.lookup "eps" settings).getD (.number defaultEps)) = .ok y)
      (redTier : integerOf ((Value.lookup "red_tier" settings).getD (.int 0)) = .ok n)
      (given : Value.lookup "verbosity" settings = some (.real x)) (infinite : x.isInf = true) :
      Escapes settings .overflow

theorem checkKeys_spec {entries : List (Value × Value)} (keyed : Value.areKeyedEntries entries = true) :
    (unknownKeys entries = [] ∧ checkKeys entries = .ok ()) ∨
      ∃ e, checkKeys entries = .error e ∧ (e.kind = .config ∨ Escapes entries e.kind) := by
  by_cases known : unknownKeys entries = []
  · exact .inl ⟨known, checkKeys_of_known known⟩
  · right
    have sortable := Value.exists_sorted_iff (unknownKeys_keyed keyed)
    rw [checkKeys_of_unknown known]
    cases sorted : Value.sorted (unknownKeys entries) with
    | error e =>
        obtain rfl := Value.sorted_fails _ e sorted
        refine ⟨_, rfl, .inr (.unordered fun ordered => ?_)⟩
        obtain ⟨ws, h⟩ := sortable.mpr ordered
        rw [sorted] at h
        cases h
    | ok ws =>
        have perm := Value.perm_of_sorted sorted
        rw [ok_bind]
        by_cases long : ws.any isUntold = true
        · obtain ⟨key, hk, untold⟩ := List.any_eq_true.mp long
          have escapes : Escapes entries .value :=
            .untold (sortable.mp ⟨ws, sorted⟩) ⟨key, perm.mem_iff.mp hk, untold⟩
          exact ⟨.integerTooLong, by rw [if_pos long]; rfl, .inr escapes⟩
        · exact ⟨.unknownKeys _, by rw [if_neg long]; rfl, .inl rfl⟩

/-! Conversions. -/

theorem kind_asInvalid {e : Failure} (h : e.kind = .type ∨ e.kind = .value) :
    (asInvalid e).kind = .config := by
  cases h with
  | inl type => rw [asInvalid, type]; rfl
  | inr value => rw [asInvalid, value]; rfl

theorem decimalOf_fails (v : Value) : FailsOnly (fun e => (e.kind = .type ∨ e.kind = .value) ∨
    e = .overflow ∧ ∃ n, v = .int n ∧ Double.ofInt? n = none) (decimalOf v) := by
  have text (cs : List Text.Code) : FailsOnly (fun e => e.kind = .value) (Text.readDecimal cs) := by
    unfold Text.readDecimal
    split
    · exact .ok _
    · exact .error rfl
  cases v with
  | number n =>
      cases n with
      | truth _ | real _ => exact .ok _
      | int n =>
          change FailsOnly _ (Number.toDouble (.int n))
          rw [Number.toDouble_int]
          cases large : Double.ofInt? n with
          | none => exact .error (.inr ⟨rfl, n, rfl, large⟩)
          | some _ => exact .ok _
  | text _ | rawText _ => exact (text _).imp fun e h => .inl (.inr h)
  | null | list _ | mapping _ => exact .error (.inl (.inl rfl))

theorem decimalOf_large {n : ℤ} (large : Double.ofInt? n = none) :
    decimalOf (.int n) = .error .overflow := by
  change Number.toDouble (.int n) = _
  rw [Number.toDouble_int, large]
  rfl

theorem truncate?_of_isInf {x : Float} (infinite : x.isInf = true) :
    Double.truncate? x = none ∧ x.isNaN = false := by
  unfold Float.isInf Float.Model.isInf at infinite
  unfold Double.truncate? Float.isNaN Float.Model.isNaN
  rw [Double.parts_eq]
  generalize x.toModel.unpack = u at infinite ⊢
  cases u with
  | infinity _ => exact ⟨rfl, rfl⟩
  | notANumber | zero _ | finite _ _ _ _ => cases infinite

theorem isInf_of_truncate? {x : Float} (whole : Double.truncate? x = none) (number : x.isNaN = false) :
    x.isInf = true := by
  unfold Double.truncate? at whole
  unfold Float.isNaN Float.Model.isNaN at number
  unfold Float.isInf Float.Model.isInf
  rw [Double.parts_eq] at whole
  generalize x.toModel.unpack = u at whole number ⊢
  cases u with
  | infinity _ => rfl
  | notANumber => cases number
  | zero _ | finite _ _ _ _ => cases whole

theorem integerOf_fails (v : Value) : FailsOnly (fun e => (e.kind = .type ∨ e.kind = .value) ∨
    e = .infinityToInteger ∧ ∃ x, v = .real x ∧ x.isInf = true) (integerOf v) := by
  have text (cs : List Text.Code) : FailsOnly (fun e => e.kind = .value) (Text.readInteger cs) := by
    unfold Text.readInteger
    simp only
    split
    · exact .error rfl
    · exact .ite (.error rfl) (.ite (.error rfl) (.ok _))
  cases v with
  | number n =>
      cases n with
      | truth _ | int _ => exact .ok _
      | real x =>
          cases whole : Double.truncate? x with
          | some n =>
              have step : integerOf (.real x) = .ok n := by simp only [integerOf, whole]
              exact step ▸ .ok _
          | none =>
              cases number : x.isNaN with
              | true =>
                  have step : integerOf (.real x) = .error .nanToInteger := by
                    simp only [integerOf, whole, number, ite_true]
                  exact step ▸ .error (.inl (.inr rfl))
              | false =>
                  have step : integerOf (.real x) = .error .infinityToInteger := by
                    simp only [integerOf, whole, number, Bool.false_eq_true, ite_false]
                  exact step ▸ .error (.inr ⟨rfl, x, rfl, isInf_of_truncate? whole number⟩)
  | text _ | rawText _ => exact (text _).imp fun e h => .inl (.inr h)
  | null | list _ | mapping _ => exact .error (.inl (.inl rfl))

theorem integerOf_infinite {x : Float} (infinite : x.isInf = true) :
    integerOf (.real x) = .error .infinityToInteger := by
  obtain ⟨whole, number⟩ := truncate?_of_isInf infinite
  simp only [integerOf, whole, number, Bool.false_eq_true, ite_false]

theorem make_fails (eps redTier verbosity logFile : Value) :
    FailsOnly (fun e => e.kind = .type ∨ e.kind = .value) (make eps redTier verbosity logFile) := by
  have number (v : Value) : FailsOnly (fun e => e.kind = .type ∨ e.kind = .value) (numberOf v) := by
    unfold numberOf
    split
    · exact .ok _
    · exact .error (.inl rfl)
  have told {α : Type} (n : Number) {f : String → Failure} (h : ∀ shown, (f shown).kind = .value) :
      FailsOnly (fun e => e.kind = .type ∨ e.kind = .value)
        (do throw (f (← n.checkedText)) : Except Failure α) := by
    exact .telling (.inr rfl) n.checkedText_fails fun shown => .error (.inr (h shown))
  unfold make
  refine (number eps).bind fun e => .ite (told _ fun _ => rfl) ?_
  refine (number redTier).bind fun t => .ite (told _ fun _ => rfl) ?_
  exact (number verbosity).bind fun v => .ite (told _ fun _ => rfl) (.ok _)

theorem make_eq_ok {eps redTier verbosity : Number} {logFile : Value} {c : Config} :
    make (.number eps) (.number redTier) (.number verbosity) logFile = .ok c ↔
      eps.IsThreshold ∧ redTier.lt 0 = false ∧ verbosity.lt 0 = false ∧
        c = ⟨eps, redTier, verbosity, logFile⟩ := by
  constructor
  · intro h
    have threshold := threshold_of_make h
    obtain ⟨_, given, h⟩ := bind_eq_ok h
    cases given
    split at h
    · obtain ⟨_, -, h⟩ := bind_eq_ok h
      cases h
    · obtain ⟨_, given, h⟩ := bind_eq_ok h
      cases given
      split at h
      · obtain ⟨_, -, h⟩ := bind_eq_ok h
        cases h
      · rename_i tier
        obtain ⟨_, given, h⟩ := bind_eq_ok h
        cases given
        split at h
        · obtain ⟨_, -, h⟩ := bind_eq_ok h
          cases h
        · rename_i level
          cases h
          exact ⟨threshold, Bool.eq_false_iff.mpr tier, Bool.eq_false_iff.mpr level, rfl⟩
  · rintro ⟨⟨low, high⟩, tier, level, rfl⟩
    simp only [make, numberOf, Value.number?, ok_bind, low, high, tier, level, Bool.and_self, Bool.not_true,
      Bool.false_eq_true, ite_false]
    rfl

theorem isThreshold_real {x : Float} :
    Number.IsThreshold (.real x) ↔ x.isFinite = true ∧ 0 ≤ Double.value x ∧ Double.value x < 1 := by
  have least : Number.le 0 (.real x) = true ↔
      Double.compareInt x 0 = some .gt ∨ Double.compareInt x 0 = some .eq := by
    change ((Double.compareInt x 0).map Ordering.swap == some .lt ||
      (Double.compareInt x 0).map Ordering.swap == some .eq) = true ↔ _
    cases Double.compareInt x 0 with
    | none => decide
    | some o => cases o <;> decide
  have most : (Number.real x).lt 1 = true ↔ Double.compareInt x 1 = some .lt := beq_iff_eq
  rw [Number.IsThreshold, least, most]
  constructor
  · rintro ⟨low, high⟩
    have finite : x.isFinite = true := Double.isFinite_of_compareInt (by
      intro below
      rw [below] at low
      rcases low with h | h <;> cases h) high
    rw [Double.compareInt_eq finite, Option.some.injEq, Option.some.injEq, compare_gt_iff_gt,
      compare_eq_iff_eq, Int.cast_zero] at low
    rw [Double.compareInt_eq finite, Option.some.injEq, compare_lt_iff_lt, Int.cast_one] at high
    exact ⟨finite, low.elim le_of_lt Eq.ge, high⟩
  · rintro ⟨finite, low, high⟩
    rw [Double.compareInt_eq finite, Double.compareInt_eq finite, Option.some.injEq, Option.some.injEq,
      Option.some.injEq, compare_gt_iff_gt, compare_eq_iff_eq, compare_lt_iff_lt, Int.cast_zero,
      Int.cast_one]
    exact ⟨low.lt_or_eq.imp_right Eq.symm, high⟩

/-- A configuration whose settings are of the right sort and in range. -/
structure IsSound (c : Config) : Prop where
  eps : ∃ x, c.eps = .real x ∧ x.isFinite = true ∧ 0 ≤ Double.value x ∧ Double.value x < 1
  redTier : ∃ n : ℤ, c.redTier = .int n ∧ 0 ≤ n
  verbosity : ∃ n : ℤ, c.verbosity = .int n ∧ 0 ≤ n

theorem nonneg_of_int {n : ℤ} (h : (Number.int n).lt 0 = false) : 0 ≤ n := by
  change (some (compare n 0) == some .lt) = false at h
  rw [beq_eq_false_iff_ne, Ne, Option.some.injEq, compare_lt_iff_lt] at h
  exact not_lt.mp h

theorem isSound_of_make {x : Float} {n m : ℤ} {file : Value} {c : Config}
    (h : make (.real x) (.int n) (.int m) file = .ok c) : c.IsSound := by
  obtain ⟨threshold, tier, level, rfl⟩ := make_eq_ok.mp h
  exact ⟨⟨x, rfl, isThreshold_real.mp threshold⟩, ⟨n, rfl, nonneg_of_int tier⟩, ⟨m, rfl, nonneg_of_int level⟩⟩

/-! Sections and mappings. -/

variable {settings : List (Value × Value)}

theorem given_of_getD {key : String} {fallback v : Value}
    (h : (Value.lookup key settings).getD fallback = v) (other : fallback ≠ v) :
    Value.lookup key settings = some v := by
  cases found : Value.lookup key settings with
  | none =>
      rw [found] at h
      exact absurd h other
  | some w =>
      rw [found] at h
      exact congrArg some h

/-- The outcome of converting the settings of a section and checking them. -/
theorem ofSection_spec (known : unknownKeys settings = []) :
    (∃ c, ofSection settings = .ok c ∧ c.IsSound) ∨
      ∃ e, ofSection settings = .error e ∧
        ((asInvalid e).kind = .config ∨ Escapes settings (asInvalid e).kind) := by
  unfold ofSection
  simp only
  cases eps : decimalOf ((Value.lookup "eps" settings).getD (.number defaultEps)) with
  | error e =>
      right
      refine ⟨e, rfl, ?_⟩
      cases decimalOf_fails _ e eps with
      | inl invalid => exact .inl (kind_asInvalid invalid)
      | inr large =>
          obtain ⟨rfl, n, given, large⟩ := large
          exact .inr (.eps known (given_of_getD given nofun) large)
  | ok y =>
      cases redTier : integerOf ((Value.lookup "red_tier" settings).getD (.int 0)) with
      | error e =>
          right
          refine ⟨e, rfl, ?_⟩
          cases integerOf_fails _ e redTier with
          | inl invalid => exact .inl (kind_asInvalid invalid)
          | inr infinite =>
              obtain ⟨rfl, x, given, infinite⟩ := infinite
              exact .inr (.redTier known eps (given_of_getD given nofun) infinite)
      | ok n =>
          cases verbosity : integerOf ((Value.lookup "verbosity" settings).getD (.int 0)) with
          | error e =>
              right
              refine ⟨e, rfl, ?_⟩
              cases integerOf_fails _ e verbosity with
              | inl invalid => exact .inl (kind_asInvalid invalid)
              | inr infinite =>
                  obtain ⟨rfl, x, given, infinite⟩ := infinite
                  exact .inr (.verbosity known eps redTier (given_of_getD given nofun) infinite)
          | ok m =>
              simp only [ok_bind]
              cases made : make (.real y) (.int n) (.int m) ((Value.lookup "log_file" settings).getD .null) with
              | error e => exact .inr ⟨e, rfl, .inl (kind_asInvalid (make_fails _ _ _ _ e made))⟩
              | ok c => exact .inl ⟨c, rfl, isSound_of_make made⟩

/-- A section that escapes fails with a failure of the sort that is told, which is no malformed
configuration. -/
theorem Escapes.fails {kind : Failure.Kind} (h : Escapes settings kind)
    (keyed : Value.areKeyedEntries settings = true) :
    kind ≠ .config ∧ ∃ e, e.kind = kind ∧
      (checkKeys settings >>= fun _ => (ofSection settings).mapError asInvalid) = .error e := by
  have sortable := Value.exists_sorted_iff (unknownKeys_keyed keyed)
  cases h with
  | unordered mixed =>
      have some : unknownKeys settings ≠ [] := fun none => mixed (none ▸ .nil)
      refine ⟨nofun, .wrongType, rfl, ?_⟩
      cases sorted : Value.sorted (unknownKeys settings) with
      | ok ws => exact absurd (sortable.mp ⟨ws, sorted⟩) mixed
      | error e =>
          obtain rfl := Value.sorted_fails _ e sorted
          rw [checkKeys_of_unknown some, sorted]
          rfl
  | untold ordered long =>
      obtain ⟨key, hk, untold⟩ := long
      obtain ⟨ws, sorted⟩ := sortable.mpr ordered
      have any : ws.any isUntold = true :=
        List.any_eq_true.mpr ⟨key, (Value.perm_of_sorted sorted).mem_iff.mpr hk, untold⟩
      refine ⟨nofun, .integerTooLong, rfl, ?_⟩
      rw [checkKeys_of_unknown (List.ne_nil_of_mem hk), sorted, ok_bind, if_pos any]
      rfl
  | eps known given large =>
      refine ⟨nofun, .overflow, rfl, ?_⟩
      rw [checkKeys_of_known known, ok_bind, ofSection]
      simp only [given, Option.getD_some, decimalOf_large large]
      rfl
  | redTier known eps given infinite =>
      refine ⟨nofun, .infinityToInteger, rfl, ?_⟩
      rw [checkKeys_of_known known, ok_bind, ofSection]
      simp only [eps, given, Option.getD_some, ok_bind, integerOf_infinite infinite]
      rfl
  | verbosity known eps redTier given infinite =>
      refine ⟨nofun, .infinityToInteger, rfl, ?_⟩
      rw [checkKeys_of_known known, ok_bind, ofSection]
      simp only [eps, redTier, given, Option.getD_some, ok_bind, integerOf_infinite infinite]
      rfl

/-- How a value gets out of being refused: it is a mapping whose section does. -/
def ValueEscapes (v : Value) (kind : Failure.Kind) : Prop :=
  ∃ entries settings, v = .mapping entries ∧ sectionOf entries = .ok settings ∧ Escapes settings kind

theorem keyed_of_sectionOf {entries : List (Value × Value)} (keyed : (Value.mapping entries).isKeyed = true)
    (h : sectionOf entries = .ok settings) : Value.areKeyedEntries settings = true := by
  have outer : Value.areKeyedEntries entries = true := keyed
  unfold sectionOf at h
  split at h
  · cases h
    exact outer
  · rename_i inner found
    cases h
    exact Value.isKeyed_of_lookup outer found
  · cases h

/-- What an outcome is: a configuration in range, a refusal as malformed, or a failure of a sort for which
there is a way out; and with a way out it is a failure of that sort, which is not the one of refusals. -/
structure Outcome (escapes : Failure.Kind → Prop) (x : Except Failure Config) : Prop where
  total : (∃ c, x = .ok c ∧ c.IsSound) ∨ ∃ e, x = .error e ∧ (e.kind = .config ∨ escapes e.kind)
  exact : ∀ kind, escapes kind → kind ≠ .config ∧ ∃ e, x = .error e ∧ e.kind = kind

theorem Outcome.congr {escapes escapes' : Failure.Kind → Prop} {x : Except Failure Config} (h : Outcome escapes x)
    (same : ∀ kind, escapes' kind ↔ escapes kind) : Outcome escapes' x where
  total := h.total.imp_right fun ⟨e, failed, kind⟩ => ⟨e, failed, kind.imp_right (same _).mpr⟩
  exact kind out := h.exact kind ((same kind).mp out)

theorem Outcome.refused {escapes : Failure.Kind → Prop} {x : Except Failure Config} (e : Failure)
    (failed : x = .error e) (refusal : e.kind = .config) (closed : ∀ kind, ¬ escapes kind) : Outcome escapes x where
  total := .inr ⟨e, failed, .inl refusal⟩
  exact kind out := absurd out (closed kind)

theorem ofMapping_eq (entries : List (Value × Value)) :
    ofMapping (.mapping entries) = (sectionOf entries >>= fun settings =>
      checkKeys settings >>= fun _ => (ofSection settings).mapError asInvalid) := rfl

/-- A mapping gives a configuration in range, is refused, or takes the way out that it has. -/
theorem ofMapping_spec {entries : List (Value × Value)} (keyed : (Value.mapping entries).isKeyed = true) :
    Outcome (ValueEscapes (.mapping entries)) (ofMapping (.mapping entries)) := by
  rw [ofMapping_eq]
  constructor
  · cases section_ : sectionOf entries with
    | error e =>
        refine .inr ⟨e, rfl, .inl ?_⟩
        unfold sectionOf at section_
        split at section_ <;> cases section_
        rfl
    | ok settings =>
        have escapes {kind : Failure.Kind} (h : Escapes settings kind) :
            ValueEscapes (.mapping entries) kind := ⟨entries, settings, rfl, section_, h⟩
        rw [ok_bind]
        rcases checkKeys_spec (keyed_of_sectionOf keyed section_) with ⟨known, checked⟩ | ⟨e, failed, kind⟩
        · rw [checked, ok_bind]
          rcases ofSection_spec known with ⟨c, made, sound⟩ | ⟨e, failed, kind⟩
          · exact .inl ⟨c, by rw [made]; rfl, sound⟩
          · exact .inr ⟨asInvalid e, by rw [failed]; rfl, kind.imp_right escapes⟩
        · exact .inr ⟨e, by rw [failed]; rfl, kind.imp_right escapes⟩
  · rintro kind ⟨_, settings, ⟨⟩, section_, h⟩
    obtain ⟨other, e, kind, failed⟩ := h.fails (keyed_of_sectionOf keyed section_)
    exact ⟨other, e, by rw [section_, ok_bind, failed], kind⟩

end Config

end ClauseFeatures
