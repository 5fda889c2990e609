import ClauseFeatures.Config.File
import ClauseFeatures.Proofs.ConfigMapping
import ClauseFeatures.Proofs.Yaml.Faults

/-!
What becomes of a text that is read as a configuration. The values of documents have proper keys, so what is
known of mappings holds for them; a text has ways out of its own in numbers and codes that cannot be
understood.
-/
namespace ClauseFeatures

/-! Values of documents. -/

namespace Value

theorem isKey_ofCodes (cs : List Text.Code) : (ofCodes cs).isKey = true ∧ (ofCodes cs).isKeyed = true := by
  unfold ofCodes
  split
  · exact ⟨rfl, rfl⟩
  · exact ⟨rfl, rfl⟩

theorem areKeyedEntries_insertEntry {key value : Value} {entries : List (Value × Value)}
    (hk : key.isKey = true) (hv : value.isKeyed = true) (h : areKeyedEntries entries = true) :
    areKeyedEntries (insertEntry key value entries) = true := by
  induction entries with
  | nil => exact areKeyedEntries_iff.mpr (List.forall_mem_singleton.mpr ⟨hk, hv⟩)
  | cons entry entries ih =>
      obtain ⟨head, rest⟩ := List.forall_mem_cons.mp (areKeyedEntries_iff.mp h)
      have tail := areKeyedEntries_iff.mpr rest
      rw [insertEntry]
      split
      · exact areKeyedEntries_iff.mpr (List.forall_mem_cons.mpr ⟨⟨head.1, hv⟩, rest⟩)
      · exact areKeyedEntries_iff.mpr (List.forall_mem_cons.mpr ⟨head, areKeyedEntries_iff.mp (ih tail)⟩)

end Value

namespace Yaml

theorem keyed_of_resolve {cs : List Char} {v : Value} (h : resolve cs = .ok v) :
    v.isKey = true ∧ v.isKeyed = true := by
  have number {A : Type} {x : Except Failure A} {f : A → Number}
      (h : (x.map fun a => Value.number (f a)).mapError Fault.failure = .ok v) :
      v.isKey = true ∧ v.isKeyed = true := by
    cases x with
    | error e => cases h
    | ok a =>
        cases h
        exact ⟨rfl, rfl⟩
  unfold resolve at h
  split at h
  · cases h
    exact ⟨rfl, rfl⟩
  · exact number h
  · exact number h
  · cases h
    exact ⟨rfl, rfl⟩
  · cases h
  · cases h
  · cases h
    exact ⟨rfl, rfl⟩
  · cases h
    exact ⟨rfl, rfl⟩

namespace Node

/-- A part of a document that has a value with a property, or a fault that can be. -/
structure Yields {A : Type} (P : A → Prop) (x : Placed A) : Prop where
  faults : FailsOnly (fun e => e.2.IsNumeric) x
  values : ∀ a, x = .ok a → P a

namespace Yields

variable {A B : Type} {P : A → Prop} {Q : B → Prop} {x : Placed A} {y : Placed B}

theorem ok {a : A} (h : P a) : Yields P (.ok a) := by
  refine ⟨.ok _, ?_⟩
  rintro _ ⟨⟩
  exact h

theorem both (hx : Yields P x) (hy : Yields Q y) : Yields (fun r => P r.1 ∧ Q r.2) (Node.both x y) := by
  cases x with
  | error e =>
      cases y with
      | error e' =>
          refine ⟨.error ?_, nofun⟩
          split
          · exact hy.faults _ rfl
          · exact hx.faults _ rfl
      | ok b => exact ⟨.error (hx.faults _ rfl), nofun⟩
  | ok a =>
      cases y with
      | error e' => exact ⟨.error (hy.faults _ rfl), nofun⟩
      | ok b => exact ok ⟨hx.values _ rfl, hy.values _ rfl⟩

theorem bind {f : A → Placed B} (hx : Yields P x) (hf : ∀ a, P a → Yields Q (f a)) : Yields Q (x >>= f) := by
  cases x with
  | error e => exact ⟨.error (hx.faults _ rfl), nofun⟩
  | ok a => exact hf a (hx.values a rfl)

theorem imp {Q : A → Prop} (hx : Yields P x) (h : ∀ a, P a → Q a) : Yields Q x :=
  ⟨hx.faults, fun a ha => h a (hx.values a ha)⟩

end Yields

theorem yields_resolve (depth : Nat) (cs : List Char) :
    Yields (fun v => v.isKey = true ∧ v.isKeyed = true) ((resolve cs).mapError (depth, ·)) := by
  cases resolved : resolve cs with
  | error f => exact ⟨.error (resolve_faults cs f resolved), nofun⟩
  | ok v => exact .ok (keyed_of_resolve resolved)

theorem yields_keyValue (depth : Nat) (key : Node) :
    Yields (fun v => v.isKey = true ∧ v.isKeyed = true) (key.keyValue depth) := by
  cases key with
  | plain text =>
      rw [keyValue]
      split
      · exact .ok ⟨rfl, rfl⟩
      · exact yields_resolve depth text
  | quoted text => exact .ok (Value.isKey_ofCodes text)
  | sequence _ | mapping _ => exact ⟨.error Fault.isNumeric_malformed, nofun⟩

mutual

theorem yields_valueAt (depth : Nat) : ∀ node : Node, Yields (fun v => v.isKeyed = true) (node.valueAt depth)
  | .plain text => (yields_resolve depth text).imp fun _ => And.right
  | .quoted text => .ok (Value.isKey_ofCodes text).2
  | .sequence items => (yields_valuesAt (depth + 1) items).bind fun _ h => .ok h
  | .mapping entries => by
      refine (yields_entriesAt (depth + 1) entries).bind fun pairs h => .ok ?_
      have folded (known : List (Value × Value)) (hk : Value.areKeyedEntries known = true) :
          Value.areKeyedEntries
            (pairs.foldl (fun known pair => Value.insertEntry pair.1 pair.2 known) known) = true := by
        induction pairs generalizing known with
        | nil => exact hk
        | cons pair pairs ih =>
            obtain ⟨head, rest⟩ := List.forall_mem_cons.mp h
            exact ih rest _ (Value.areKeyedEntries_insertEntry head.1 head.2 hk)
      exact folded [] rfl

theorem yields_valuesAt (depth : Nat) :
    ∀ nodes : List Node, Yields (fun vs => Value.areKeyed vs = true) (valuesAt depth nodes)
  | [] => .ok rfl
  | node :: nodes => ((yields_valueAt depth node).both (yields_valuesAt depth nodes)).bind fun _ h =>
      .ok (Bool.and_eq_true_iff.mpr h)

theorem yields_entriesAt (depth : Nat) : ∀ entries : List (Node × Node),
    Yields (fun pairs => ∀ pair ∈ pairs, pair.1.isKey = true ∧ pair.2.isKeyed = true) (entriesAt depth entries)
  | [] => .ok nofun
  | (key, node) :: entries => by
      refine (((yields_keyValue depth key).both (yields_valueAt depth node)).both
        (yields_entriesAt depth entries)).bind fun r h => .ok ?_
      exact List.forall_mem_cons.mpr ⟨⟨h.1.1.1, h.1.2⟩, h.2⟩

end

end Node

/-- A text has a value with proper keys, or is malformed, or has a number or a code that cannot be
understood. -/
theorem read_spec (text : String) :
    (∃ v, read text = .ok v ∧ v.isKeyed = true) ∨ read text = .error .malformed ∨
      ∃ cause, read text = .error (.failure cause) ∧ (cause.kind = .value ∨ cause.kind = .overflow) := by
  have fails {f : Fault} (failed : read text = .error f) (h : f.IsNumeric) :
      read text = .error .malformed ∨
        ∃ cause, read text = .error (.failure cause) ∧ (cause.kind = .value ∨ cause.kind = .overflow) := by
    cases f with
    | malformed => exact .inl failed
    | failure cause => exact .inr ⟨cause, failed, h cause rfl⟩
  cases parsed : Node.ofChars text.toList with
  | error f =>
      have failed : read text = .error f := by rw [read, parsed, error_bind]
      exact .inr (fails failed (Node.ofChars_faults _ f parsed))
  | ok node =>
      have step : read text = node.value := by rw [read, parsed, ok_bind]
      have yields := Node.yields_valueAt 0 node
      unfold Node.value at step
      cases valued : node.valueAt 0 with
      | ok v =>
          rw [valued] at step
          exact .inl ⟨v, step, yields.values v valued⟩
      | error e =>
          rw [valued] at step
          exact .inr (fails step (yields.faults e valued))

end Yaml

namespace Config

/-- How a text gets out of being refused: a number or a code in it cannot be understood, or its value is a
mapping that gets out. -/
inductive TextEscapes (text : String) : Failure.Kind → Prop
  | unread {cause : Failure} (failed : Yaml.read text = .error (.failure cause)) : TextEscapes text cause.kind
  | value {v : Value} {kind : Failure.Kind} (read : Yaml.read text = .ok v) (escapes : ValueEscapes v kind) :
      TextEscapes text kind

/-! A text is read in one way, so its ways out are those of what is read. -/

theorem textEscapes_of_value {text : String} {v : Value} (read : Yaml.read text = .ok v) (kind : Failure.Kind) :
    TextEscapes text kind ↔ ValueEscapes v kind := by
  constructor
  · intro h
    cases h with
    | unread failed =>
        rw [read] at failed
        cases failed
    | value read' escapes =>
        rw [read] at read'
        cases read'
        exact escapes
  · exact .value read

theorem not_textEscapes_of_malformed {text : String} (malformed : Yaml.read text = .error .malformed)
    (kind : Failure.Kind) : ¬ TextEscapes text kind := by
  intro h
  cases h with
  | unread failed =>
      rw [malformed] at failed
      cases failed
  | value read _ =>
      rw [malformed] at read
      cases read

theorem textEscapes_of_failure {text : String} {cause : Failure} (unread : Yaml.read text = .error (.failure cause))
    (kind : Failure.Kind) : TextEscapes text kind ↔ kind = cause.kind := by
  constructor
  · intro h
    cases h with
    | unread failed =>
        rw [unread] at failed
        cases failed
        rfl
    | value read _ =>
        rw [unread] at read
        cases read
  · rintro rfl
    exact .unread unread

theorem not_valueEscapes_empty (kind : Failure.Kind) : ¬ ValueEscapes (.mapping []) kind := by
  rintro ⟨_, _, ⟨⟩, ⟨⟩, h⟩
  cases h with
  | unordered mixed => exact mixed .nil
  | untold _ long =>
      obtain ⟨_, member, -⟩ := long
      cases member
  | eps _ given _ => cases given
  | redTier _ _ given _ => cases given
  | verbosity _ _ _ given _ => cases given

/-- A value is taken as a mapping, where null stands for the empty one, or it is refused. -/
theorem ofText_value (path : String) {text : String} {v : Value} (read : Yaml.read text = .ok v)
    (keyed : v.isKeyed = true) : Outcome (ValueEscapes v) (ofText path text) := by
  have value : valueOfText path text = .ok v := by rw [valueOfText, read]
  cases v with
  | null =>
      have step : ofText path text = ofMapping (.mapping []) := by rw [ofText, value]; rfl
      have empty : (Value.mapping []).isKeyed = true := rfl
      rw [step]
      refine (ofMapping_spec empty).congr fun kind => iff_of_false ?_ (not_valueEscapes_empty kind)
      rintro ⟨_, _, ⟨⟩, _⟩
  | mapping entries =>
      have step : ofText path text = ofMapping (.mapping entries) := by rw [ofText, value]; rfl
      rw [step]
      exact ofMapping_spec keyed
  | number _ | text _ | rawText _ | list _ =>
      refine .refused (.rootNotMapping path _) (by rw [ofText, value]; rfl) rfl fun kind => ?_
      rintro ⟨_, _, ⟨⟩, _⟩

theorem ofText_spec (path text : String) : Outcome (TextEscapes text) (ofText path text) := by
  rcases Yaml.read_spec text with ⟨v, read, keyed⟩ | malformed | ⟨cause, unread, kind⟩
  · exact (ofText_value path read keyed).congr (textEscapes_of_value read)
  · have step : ofText path text = .error (.invalidFile path) := by
      rw [ofText, valueOfText, malformed]
      rfl
    exact .refused _ step rfl (not_textEscapes_of_malformed malformed)
  · have step : ofText path text = .error cause := by
      rw [ofText, valueOfText, unread]
      rfl
    have other : cause.kind ≠ .config := by
      rcases kind with value | overflow
      · exact value ▸ nofun
      · exact overflow ▸ nofun
    refine ⟨.inr ⟨cause, step, .inr (.unread unread)⟩, fun kind escapes => ?_⟩
    obtain rfl := (textEscapes_of_failure unread kind).mp escapes
    exact ⟨other, cause, step, rfl⟩

/-- Reading a configuration, from a mapping or from the text of a file, gives one in range, refuses what is
malformed, or takes one of the ways out: no other failure is possible, and each of them happens. For a file this is
about the subset of YAML that `Yaml.read` reads: a text with a tag, an anchor, an alias, a block scalar or a merge key
counts as malformed, and a date as text. -/
theorem read_outcome {entries : List (Value × Value)} (keyed : (Value.mapping entries).isKeyed = true)
    (files : String → Option String) (path : String) {text : String} (found : files (Text.tidyPath path) = some text) :
    Outcome (ValueEscapes (.mapping entries)) (ofMapping (.mapping entries)) ∧
      Outcome (TextEscapes text) (load files path) := by
  have step : load files path = ofText (Text.tidyPath path) text := by rw [load, found]
  exact ⟨ofMapping_spec keyed, step ▸ ofText_spec _ _⟩

/-- A tier that is infinite is such a way out, in a mapping and in a text. -/
theorem read_outcome_infinite :
    (∃ e, ofMapping (.mapping [(.text "red_tier", .real (Double.infinity false))]) = .error e ∧
      e.kind = .overflow) ∧
    ∃ e, load (fun _ => some "red_tier: .inf\n") "a.yaml" = .error e ∧ e.kind = .overflow := by
  have infinite : (Double.infinity false).isInf = true := by decide +kernel
  have keyed : (Value.mapping [(.text "red_tier", .real (Double.infinity false))]).isKeyed = true := rfl
  have escapes : ValueEscapes (.mapping [(.text "red_tier", .real (Double.infinity false))]) .overflow :=
    ⟨_, _, rfl, rfl, .redTier rfl (y := Double.ofDecimal false 1 (-5)) rfl rfl infinite⟩
  have read : Yaml.read "red_tier: .inf\n" =
      .ok (.mapping [(.text "red_tier", .real (Double.infinity false))]) := by decide +kernel
  obtain ⟨mapping, text⟩ := read_outcome keyed (fun _ => some "red_tier: .inf\n") "a.yaml" rfl
  exact ⟨(mapping.exact _ escapes).2, (text.exact _ (.value read escapes)).2⟩

/-- So a malformed mapping is not always refused as a malformed configuration. -/
theorem not_refused_infinite : ¬ ∀ entries, (Value.mapping entries).isKeyed = true →
    (∃ c, ofMapping (.mapping entries) = .ok c ∧ c.IsSound) ∨
      ∃ e, ofMapping (.mapping entries) = .error e ∧ e.kind = .config := by
  intro h
  have failed : ofMapping (.mapping [(.text "red_tier", .real (Double.infinity false))]) =
      .error .infinityToInteger := by rfl
  cases h [(.text "red_tier", .real (Double.infinity false))] rfl with
  | inl made =>
      obtain ⟨c, made, -⟩ := made
      rw [failed] at made
      cases made
  | inr refused =>
      obtain ⟨e, refused, kind⟩ := refused
      rw [failed] at refused
      cases refused
      cases kind

end Config

end ClauseFeatures
