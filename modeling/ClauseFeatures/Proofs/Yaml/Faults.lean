import Mathlib.Data.List.InsertIdx
import ClauseFeatures.Proofs.Computation
import ClauseFeatures.Yaml.Node

/-!
What can be wrong with a stream. A fault of the scanner, of the reader of nodes or of a scalar is either
that the stream is malformed, or a number or a code in it that cannot be understood; a number that is not
understood has the wrong value or is too large. No step makes up a fault of another kind.
-/
namespace ClauseFeatures.Yaml

/-- A fault that is no failure, or the failure of a number or a code that cannot be understood. -/
def Fault.IsNumeric (f : Fault) : Prop :=
  ∀ cause, f = .failure cause → cause.kind = .value ∨ cause.kind = .overflow

theorem Fault.isNumeric_malformed : Fault.malformed.IsNumeric := nofun

theorem Fault.isNumeric_failure {cause : Failure} (h : cause.kind = .value ∨ cause.kind = .overflow) :
    (Fault.failure cause).IsNumeric := by
  rintro _ ⟨⟩
  exact h

abbrev FaultsNumerically {A : Type} (x : Except Fault A) : Prop := FailsOnly Fault.IsNumeric x

theorem faultsNumerically_malformed {A : Type} : FaultsNumerically (.error .malformed : Except Fault A) :=
  .error Fault.isNumeric_malformed

/-! Quoted scalars. -/

theorem takeBreaks_faults (fuel : Nat) (cs : List Char) : FaultsNumerically (takeBreaks fuel cs) := by
  induction fuel generalizing cs with
  | zero => exact faultsNumerically_malformed
  | succ fuel ih =>
      unfold takeBreaks
      refine FailsOnly.ite faultsNumerically_malformed ?_
      split
      · exact .ok _
      · exact FailsOnly.ite ((ih _).bind fun _ => .ok _) (.ok _)

theorem takeSpaces_faults (cs : List Char) : FaultsNumerically (takeSpaces cs) := by
  unfold takeSpaces
  split
  · exact faultsNumerically_malformed
  · exact FailsOnly.ite ((takeBreaks_faults _ _).bind fun _ => .ok _) (.ok _)

theorem readSingle_faults (fuel : Nat) (cs : List Char) : FaultsNumerically (readSingle fuel cs) := by
  induction fuel generalizing cs with
  | zero => exact faultsNumerically_malformed
  | succ fuel ih =>
      unfold readSingle
      split
      · exact faultsNumerically_malformed
      · exact (ih _).bind fun _ => .ok _
      · exact .ok _
      · exact FailsOnly.ite ((takeSpaces_faults _).bind fun _ => (ih _).bind fun _ => .ok _)
          ((ih _).bind fun _ => .ok _)

theorem codeOf_faults (n : Nat) : FaultsNumerically (codeOf n) := by
  unfold codeOf
  split
  · exact .ok _
  · refine .error (Fault.isNumeric_failure ?_)
    split
    · exact .inl rfl
    · exact .inr rfl

theorem readEscape_faults (cs : List Char) : FaultsNumerically (readEscape cs) := by
  have code (width : Nat) (cs : List Char) : FaultsNumerically (readCode width cs) := by
    unfold readCode
    simp only
    split
    · exact FailsOnly.ite faultsNumerically_malformed ((codeOf_faults _).bind fun _ => .ok _)
    · exact faultsNumerically_malformed
  unfold readEscape
  split
  · exact faultsNumerically_malformed
  · split
    · exact .ok _
    · exact (code _ _).bind fun _ => .ok _
    · exact FailsOnly.ite ((takeBreaks_faults _ _).bind fun _ => .ok _) faultsNumerically_malformed

theorem readDouble_faults (fuel : Nat) (cs : List Char) : FaultsNumerically (readDouble fuel cs) := by
  induction fuel generalizing cs with
  | zero => exact faultsNumerically_malformed
  | succ fuel ih =>
      unfold readDouble
      split
      · exact faultsNumerically_malformed
      · exact .ok _
      · exact (readEscape_faults _).bind fun _ => (ih _).bind fun _ => .ok _
      · exact FailsOnly.ite ((takeSpaces_faults _).bind fun _ => (ih _).bind fun _ => .ok _)
          ((ih _).bind fun _ => .ok _)

/-! Tokens. -/

/-- Tokens among which every fault is one that can be. -/
def AllNumeric (ts : List Token) : Prop := ∀ f, Token.fault f ∈ ts → f.IsNumeric

namespace AllNumeric

variable {ts us : List Token}

theorem singleton {t : Token} (h : ∀ f, t ≠ .fault f) : AllNumeric [t] :=
  fun f hf => absurd (List.mem_singleton.mp hf).symm (h f)

theorem append (h : AllNumeric ts) (h' : AllNumeric us) : AllNumeric (ts ++ us) :=
  fun f hf => (List.mem_append.mp hf).elim (h f) (h' f)

theorem of_subset (h : AllNumeric ts) (sub : us ⊆ ts) : AllNumeric us := fun f hf => h f (sub hf)

theorem insertIdx (h : AllNumeric ts) {t : Token} (ht : AllNumeric [t]) (n : Nat) :
    AllNumeric (ts.insertIdx n t) := by
  intro f hf
  cases List.eq_or_mem_of_mem_insertIdx hf with
  | inl same => exact ht f (same ▸ List.mem_singleton_self _)
  | inr old => exact h f old

theorem tail (h : AllNumeric ts) : AllNumeric ts.tail := h.of_subset (List.tail_sublist ts).subset

theorem dropWhile (h : AllNumeric ts) (p : Token → Bool) : AllNumeric (ts.dropWhile p) :=
  h.of_subset (List.dropWhile_sublist p).subset

theorem cons_tail {t : Token} (h : AllNumeric (t :: ts)) : AllNumeric ts :=
  h.of_subset (List.subset_cons_self t ts)

end AllNumeric

namespace Scan

/-- A step of the scanner after which every fault is one that can be. -/
structure Steps (x : Except Fault Scan) : Prop where
  faults : FaultsNumerically x
  tokens : ∀ s, x = .ok s → AllNumeric s.tokens

namespace Steps

theorem ok {s : Scan} (h : AllNumeric s.tokens) : Steps (.ok s) := by
  refine ⟨.ok s, ?_⟩
  rintro _ ⟨⟩
  exact h

theorem malformed : Steps (.error .malformed) := ⟨faultsNumerically_malformed, nofun⟩

theorem bind {x : Except Fault Scan} {f : Scan → Except Fault Scan} (hx : Steps x)
    (hf : ∀ s, AllNumeric s.tokens → Steps (f s)) : Steps (x >>= f) := by
  cases x with
  | error e => exact ⟨.error (hx.faults e rfl), nofun⟩
  | ok s => exact hf s (hx.tokens s rfl)

theorem ite {c : Prop} [Decidable c] {x y : Except Fault Scan} (hx : Steps x) (hy : Steps y) :
    Steps (if c then x else y) := by
  split
  · exact hx
  · exact hy

end Steps

variable {s : Scan}

theorem steps_dropKey (h : AllNumeric s.tokens) : Steps s.dropKey := .ite .malformed (.ok h)

theorem steps_dropStale (h : AllNumeric s.tokens) : Steps s.dropStale := .ite .malformed (.ok h)

theorem steps_saveKey (h : AllNumeric s.tokens) : Steps s.saveKey :=
  .ite ((steps_dropKey h).bind fun _ h => .ok h) (.ok h)

theorem tokens_closing (column indent : Int) (outer : List Int) :
    AllNumeric (closing column indent outer).1 := by
  induction outer generalizing indent with
  | nil => nofun
  | cons out outer ih =>
      unfold closing
      split
      · intro f hf
        cases hf with
        | tail _ hf => exact ih out f hf
      · nofun

theorem tokens_unwind (h : AllNumeric s.tokens) (column : Int) : AllNumeric (s.unwind column).tokens := by
  unfold unwind
  split
  · exact h.append (tokens_closing _ _ _)
  · exact h

theorem tokens_indentTo (h : AllNumeric s.tokens) (column : Nat) {t : Token} (ht : AllNumeric [t])
    (position : Nat) : AllNumeric (s.indentTo column t position).tokens := by
  unfold indentTo
  split
  · exact h.insertIdx ht position
  · exact h

theorem steps_quotedScalar (h : AllNumeric s.tokens)
    {read : Nat → List Char → Except Fault (List Text.Code × List Char)}
    (hread : ∀ fuel cs, FaultsNumerically (read fuel cs)) : Steps (s.quotedScalar read) := by
  refine (steps_saveKey h).bind fun s h => ?_
  simp only
  cases found : read ((s.place.rest.drop 1).length + 1) (s.place.rest.drop 1) with
  | error f => exact ⟨.error (hread _ _ f found), nofun⟩
  | ok found => exact .ok (h.append (.singleton nofun))

theorem steps_keyedValue (h : AllNumeric s.tokens) : Steps s.keyedValue := by
  have key : AllNumeric [Token.key] := .singleton nofun
  have value : AllNumeric [Token.value] := .singleton nofun
  have start : AllNumeric [Token.blockMappingStart] := .singleton nofun
  unfold keyedValue
  split
  · rename_i k _
    have marked : AllNumeric (s.tokens.insertIdx k.tokenCount .key) := h.insertIdx key _
    refine .ok (AllNumeric.append ?_ value)
    split
    · exact tokens_indentTo marked _ start _
    · exact marked
  · refine .ite .malformed (Steps.bind (steps_dropKey ?_) fun _ h => .ok (h.append value))
    split
    · exact tokens_indentTo h _ start _
    · exact h

/-- A dash or a question mark, which may begin a collection. -/
theorem steps_indented (h : AllNumeric s.tokens) {start t : Token} (hstart : AllNumeric [start])
    (ht : AllNumeric [t]) {f : Scan → Scan} (hf : ∀ s, (f s).tokens = s.tokens ++ [t]) :
    Steps ((if s.depth = 0 then s.indentTo s.place.column start s.tokens.length else s).dropKey >>=
      fun s => .ok (f s)) := by
  refine Steps.bind (steps_dropKey ?_) fun s h => .ok (hf s ▸ h.append ht)
  split
  · exact tokens_indentTo h _ hstart _
  · exact h

theorem steps_takeToken (h : AllNumeric s.tokens) (c : Char) (rest : List Char) :
    Steps (s.takeToken c rest) := by
  have mark (count : Nat) {t : Token} (ht : ∀ f, t ≠ .fault f) : Steps (s.takeMark count t) :=
    (steps_dropKey (tokens_unwind h _)).bind fun _ h => .ok (h.append (.singleton ht))
  have openFlow {t : Token} (ht : ∀ f, t ≠ .fault f) : Steps (s.openFlow t) :=
    (steps_saveKey h).bind fun _ h => .ok (h.append (.singleton ht))
  have closeFlow {t : Token} (ht : ∀ f, t ≠ .fault f) : Steps (s.closeFlow t) :=
    .ite .malformed ((steps_dropKey h).bind fun _ h => .ok (h.append (.singleton ht)))
  have flowEntry : Steps s.flowEntry :=
    (steps_dropKey h).bind fun _ h => .ok (h.append (.singleton nofun))
  have dash : AllNumeric [Token.blockEntry] := .singleton nofun
  have sequence : AllNumeric [Token.blockSequenceStart] := .singleton nofun
  have blockEntry : Steps s.blockEntry := .ite .malformed (steps_indented h sequence dash fun _ => rfl)
  have question : AllNumeric [Token.key] := .singleton nofun
  have mapping : AllNumeric [Token.blockMappingStart] := .singleton nofun
  have explicitKey : Steps s.explicitKey := .ite .malformed (steps_indented h mapping question fun _ => rfl)
  have plain : Steps s.plainScalar :=
    (steps_saveKey h).bind fun _ h => .ok (h.append (.singleton nofun))
  have single (fuel : Nat) (cs : List Char) : FaultsNumerically (readSingleCodes fuel cs) :=
    (readSingle_faults fuel cs).bind fun _ => .ok _
  unfold takeToken
  refine .ite (mark _ nofun) (.ite (mark _ nofun) (.ite (mark _ nofun) ?_))
  refine .ite (openFlow nofun) (.ite (openFlow nofun) (.ite (closeFlow nofun) (.ite (closeFlow nofun) ?_)))
  refine .ite flowEntry (.ite blockEntry (.ite explicitKey (.ite (steps_keyedValue h) ?_)))
  refine .ite (steps_quotedScalar h single) (.ite (steps_quotedScalar h readDouble_faults) ?_)
  exact .ite plain .malformed

theorem steps_advance (h : AllNumeric s.tokens) : Steps s.advance := by
  refine (steps_dropStale h).bind fun s h => ?_
  simp only
  split
  · exact (steps_dropKey (tokens_unwind (tokens_unwind h _) _)).bind fun _ h => .ok (h.append (.singleton nofun))
  · exact steps_takeToken (tokens_unwind h _) _ _

theorem tokens_run (h : AllNumeric s.tokens) (fuel : Nat) : AllNumeric (run fuel s) := by
  have told {s : Scan} (h : AllNumeric s.tokens) {f : Fault} (hf : f.IsNumeric) :
      AllNumeric (s.toldBefore f) := by
    refine (h.of_subset (List.take_subset _ _)).append fun g hg => ?_
    cases List.mem_singleton.mp hg
    exact hf
  induction fuel generalizing s with
  | zero => exact told h Fault.isNumeric_malformed
  | succ fuel ih =>
      unfold run
      have ahead : AllNumeric s.toNextToken.tokens := h
      simp only
      split
      · rename_i f failed
        exact told h ((steps_advance ahead).faults f failed)
      · rename_i next advanced
        have kept := (steps_advance ahead).tokens next advanced
        split
        · exact kept
        · exact ih kept

end Scan

theorem tokens_numeric (cs : List Char) : AllNumeric (tokens cs) := by
  have none : AllNumeric [] := fun f hf => absurd hf List.not_mem_nil
  exact Scan.tokens_run none _

/-! Nodes. -/

namespace Node

/-- A reader that leaves tokens among which every fault is one that can be. -/
structure Reads {A : Type} (x : Except Fault (A × List Token)) : Prop where
  faults : FaultsNumerically x
  rest : ∀ a ts, x = .ok (a, ts) → AllNumeric ts

namespace Reads

variable {A B : Type}

theorem ok {a : A} {ts : List Token} (h : AllNumeric ts) : Reads (.ok (a, ts)) := by
  refine ⟨.ok _, ?_⟩
  rintro _ _ ⟨⟩
  exact h

theorem malformed : Reads (.error .malformed : Except Fault (A × List Token)) :=
  ⟨faultsNumerically_malformed, nofun⟩

theorem faultAt {ts : List Token} (h : AllNumeric ts) :
    Reads (.error (faultAt ts) : Except Fault (A × List Token)) := by
  refine ⟨.error ?_, nofun⟩
  unfold Node.faultAt
  split
  · exact h _ List.mem_cons_self
  · exact Fault.isNumeric_malformed

theorem bind {x : Except Fault (A × List Token)} {f : A × List Token → Except Fault (B × List Token)}
    (hx : Reads x) (hf : ∀ a ts, AllNumeric ts → Reads (f (a, ts))) : Reads (x >>= f) := by
  cases x with
  | error e => exact ⟨.error (hx.faults e rfl), nofun⟩
  | ok r => exact hf r.1 r.2 (hx.rest _ _ rfl)

theorem ite {c : Prop} [Decidable c] {x y : Except Fault (A × List Token)} (hx : Reads x) (hy : Reads y) :
    Reads (if c then x else y) := by
  split
  · exact hx
  · exact hy

end Reads

theorem reads_orMissing {read : List Token → Except Fault (Node × List Token)} {ts : List Token}
    (h : AllNumeric ts) (hread : Reads (read ts)) (stops : List Token) : Reads (orMissing stops read ts) :=
  .ite (.ok h) hread

theorem reads_after {read : List Token → Except Fault (Node × List Token)} {ts : List Token}
    (h : AllNumeric ts) (hread : ∀ ts, AllNumeric ts → Reads (read ts)) (mark : Token)
    (stops : List Token) : Reads (after mark stops read ts) :=
  .ite (reads_orMissing h.tail (hread _ h.tail) stops) (.ok h)

theorem reads_toFlowItem {A : Type} {ts : List Token} (h : AllNumeric ts) (isFirst : Bool) (close : Token)
    {f : List Token → Except Fault (A × List Token)} (hf : ∀ ts, AllNumeric ts → Reads (f ts)) :
    Reads (toFlowItem isFirst close ts >>= f) := by
  unfold toFlowItem
  split
  · exact hf ts h
  · split
    · exact hf _ h.tail
    · exact ⟨.error ((Reads.faultAt (A := A) h).faults _ rfl), nofun⟩

/-- All readers with some fuel. -/
theorem reads (fuel : Nat) :
    (∀ setting ts, AllNumeric ts → Reads (read fuel setting ts)) ∧
      (∀ stops ts, AllNumeric ts → Reads (readItems fuel stops ts)) ∧
      (∀ ts, AllNumeric ts → Reads (readEntries fuel ts)) ∧
      (∀ isFirst ts, AllNumeric ts → Reads (readFlowItems fuel isFirst ts)) ∧
      (∀ isFirst ts, AllNumeric ts → Reads (readFlowEntries fuel isFirst ts)) := by
  induction fuel with
  | zero => exact ⟨fun _ _ _ => .malformed, fun _ _ _ => .malformed, fun _ _ => .malformed,
      fun _ _ _ => .malformed, fun _ _ _ => .malformed⟩
  | succ fuel ih =>
      obtain ⟨node, items, entries, flowItems, flowEntries⟩ := ih
      refine ⟨fun setting ts h => ?_, fun stops ts h => ?_, fun ts h => ?_, fun isFirst ts h => ?_,
        fun isFirst ts h => ?_⟩
      · unfold read
        split
        · exact .ok h.cons_tail
        · exact .ok h.cons_tail
        · exact (flowItems _ _ h.cons_tail).bind fun _ _ h => .ok h
        · exact (flowEntries _ _ h.cons_tail).bind fun _ _ h => .ok h
        · exact .ite .malformed ((items _ _ h.cons_tail).bind fun _ _ h => .ite (.ok h.tail) (.faultAt h))
        · exact .ite .malformed ((entries _ h.cons_tail).bind fun _ _ h => .ok h)
        · exact .ite ((items _ _ h).bind fun _ _ h => .ok h) .malformed
        · exact .faultAt h
      · unfold readItems
        split
        · exact (reads_orMissing h.cons_tail (node _ _ h.cons_tail) _).bind fun _ _ h =>
            (items _ _ h).bind fun _ _ h => .ok h
        · exact .ok h
      · unfold readEntries
        split
        · exact (reads_after h (node _) _ _).bind fun _ _ h => (reads_after h (node _) _ _).bind
            fun _ _ h => (entries _ h).bind fun _ _ h => .ok h
        · exact .ok h.cons_tail
        · exact .faultAt h
      · unfold readFlowItems
        refine reads_toFlowItem h _ _ fun ts h => ?_
        split
        · exact .ok h.cons_tail
        · exact (reads_after h (node _) _ _).bind fun _ _ h => (reads_after h (node _) _ _).bind
            fun _ _ h => (flowItems _ _ h).bind fun _ _ h => .ok h
        · exact (node _ _ h).bind fun _ _ h => (flowItems _ _ h).bind fun _ _ h => .ok h
      · unfold readFlowEntries
        refine reads_toFlowItem h _ _ fun ts h => ?_
        split
        · exact .ok h.cons_tail
        · exact (reads_after h (node _) _ _).bind fun _ _ h => (reads_after h (node _) _ _).bind
            fun _ _ h => (flowEntries _ _ h).bind fun _ _ h => .ok h
        · exact (node _ _ h).bind fun _ _ h => (flowEntries _ _ h).bind fun _ _ h => .ok h

theorem reads_readDocument {ts : List Token} (h : AllNumeric ts) : Reads (readDocument ts) := by
  have node := (reads (4 * ts.length + 4)).1 .block
  unfold readDocument
  simp only
  split
  · split
    · rename_i rest skipped
      have rest : AllNumeric rest := (skipped ▸ h.dropWhile _ : AllNumeric (.documentStart :: rest)).cons_tail
      exact reads_orMissing rest (node _ rest) _
    · exact .faultAt (h.dropWhile _)
  · split
    · rename_i rest skipped
      have rest : AllNumeric rest := (skipped ▸ h.dropWhile _ : AllNumeric (.documentStart :: rest)).cons_tail
      exact reads_orMissing rest (node _ rest) _
    · exact .faultAt (h.dropWhile _)
  · exact node _ h

theorem ofTokens_faults {ts : List Token} (h : AllNumeric ts) : FaultsNumerically (ofTokens ts) := by
  unfold ofTokens
  refine FailsOnly.ite (.ok _) ?_
  have document := reads_readDocument h
  cases found : readDocument ts with
  | error f => exact .error (document.faults f found)
  | ok r =>
      have rest : AllNumeric r.2 := document.rest _ _ found
      simp only [ok_bind]
      split
      · exact .ok _
      · exact .error ((Reads.faultAt (A := Node) ((rest.dropWhile _).dropWhile _)).faults _ rfl)

theorem ofChars_faults (cs : List Char) : FaultsNumerically (ofChars cs) := by
  unfold ofChars
  simp only
  split
  · exact ofTokens_faults (tokens_numeric _)
  · split
    · rename_i cause failed
      exact .error (ofTokens_faults (tokens_numeric _) _ failed)
    · exact faultsNumerically_malformed

end Node

/-! Plain scalars. -/

/-- A number that cannot be understood has the wrong value or is too large. -/
abbrev FailsAsNumeral {A : Type} (x : Except Failure A) : Prop :=
  FailsOnly (fun e => e.kind = .value ∨ e.kind = .overflow) x

theorem integerValue_fails (cs : List Char) : FailsAsNumeral (integerValue cs) := by
  have digits (base : Nat) (ds : List Char) : FailsAsNumeral (digitsIn base ds) :=
    .ite (.error (.inl rfl)) (.ok _)
  have whole (ds : List Char) : FailsAsNumeral (wholeValue ds) := .ite (.error (.inl rfl)) (.ok _)
  have unsigned (ds : List Char) : FailsAsNumeral (unsignedValue ds) := by
    unfold unsignedValue
    split
    · exact digits _ _
    · exact digits _ _
    · exact digits _ _
    · exact (FailsOnly.mapM fun _ _ => whole _).bind fun _ => .ok _
  exact (unsigned _).bind fun _ => .ok _

theorem decimalValue_fails (cs : List Char) : FailsAsNumeral (decimalValue cs) := by
  have part (cs : List Char) : FailsAsNumeral (readPart cs) := by
    unfold readPart
    split
    · exact .ok _
    · exact .error (.inl rfl)
  have combined (exact : Int → Int → Int) (rounded : Float → Float → Float) (a b : Number) :
      FailsAsNumeral (Number.combine exact rounded a b) :=
    (Number.combine_fails exact rounded a b).imp fun _ h => .inr (h ▸ rfl)
  have sum (base : Nat) (total : Number) (parts : List Float) :
      FailsAsNumeral (sumSixtieths base total parts) := by
    induction parts generalizing base total with
    | nil => exact .ok _
    | cons x parts ih => exact (combined _ _ _ _).bind fun _ => (combined _ _ _ _).bind fun _ => ih _ _
  unfold decimalValue
  refine .ite (.ok _) (.ite (.ok _) ?_)
  split
  · exact (part _).bind fun _ => .ok _
  · exact (FailsOnly.mapM fun _ _ => part _).bind fun _ => (sum _ _ _).bind fun _ => combined _ _ _ _

theorem resolve_faults (cs : List Char) : FaultsNumerically (resolve cs) := by
  have told {A : Type} {x : Except Failure A} (h : FailsAsNumeral x) (f : A → Value) :
      FaultsNumerically ((x.map f).mapError .failure) := by
    cases x with
    | ok _ => exact .ok _
    | error e => exact .error (Fault.isNumeric_failure (h e rfl))
  unfold resolve
  split
  · exact .ok _
  · exact told (decimalValue_fails cs) _
  · exact told (integerValue_fails cs) _
  · exact .ok _
  · exact faultsNumerically_malformed
  · exact faultsNumerically_malformed
  · exact .ok _
  · exact .ok _

end ClauseFeatures.Yaml
