import ClauseFeatures.Extraction
import ClauseFeatures.Proofs.Agreement
import ClauseFeatures.Proofs.Refusal

/-!
Which failures a computation with numbers can have. It overflows, divides by zero or is given something that
is no number, but it looks nothing up: no offset that was never allocated, and no entry that is no clause.
The stages of an extraction that come after the traversal inherit this from the operations on numbers.
-/
namespace ClauseFeatures

variable {K E : Type}

/-- The failures of a lookup: an offset that was never allocated, or an entry that is no clause. -/
def Failure.isLookup : Failure → Bool
  | unallocated _ | markerReached _ _ | unknownWatch _ => true
  | _ => false

/-- What may come of an operation on numbers other than a division: no failure of a lookup, and no
division by zero. -/
def Failure.isNumeric : Failure → Bool
  | unallocated _ | markerReached _ _ | unknownWatch _ | zeroDivision => false
  | _ => true

abbrev FailsNumerically {α : Type} (x : Except Failure α) : Prop :=
  FailsOnly (fun e => e.isNumeric = true) x

theorem Failure.isLookup_of_isNumeric {e : Failure} (h : e.isNumeric = true) : e.isLookup = false := by
  cases e <;> first | (cases h; done) | rfl

theorem Failure.not_contract {e : Failure} (h : e.isLookup = false) : e.kind ≠ .contract := by
  cases e <;> first | (cases h; done) | nofun

/-- The failures that stages have of their own, apart from those of operations on numbers. -/
def Failure.isRefusal : Failure → Bool
  | outsideList | wrongType | notPositive _ _ | nanValues _ _ | infiniteValues _ _ => true
  | _ => false

/-- Numbers whose operations fail, if they do, with failures of some kind only, a division provided that
its divisor is of a kind `D`. Whatever the stages divide by is of this kind: each of them asks whether a
number is zero, positive or above the threshold `eps` before it divides by it, or counts at least one. -/
structure Computes (K : Type) {E : Type} [Arithmetic K E] (P : Failure → Prop) (D : K → Prop) (eps : K) :
    Prop where
  lt : ∀ a b : K, FailsOnly P (Quantity.lt a b)
  text : ∀ a : K, FailsOnly P (Quantity.text a)
  add : ∀ a b : K, FailsOnly P (Arithmetic.add a b)
  sub : ∀ a b : K, FailsOnly P (Arithmetic.sub a b)
  mul : ∀ a b : K, FailsOnly P (Arithmetic.mul a b)
  div : ∀ a b : K, D b → FailsOnly P (Arithmetic.div a b)
  square : ∀ a : K, FailsOnly P (Arithmetic.square a)
  sqrt : ∀ a : K, FailsOnly P (Arithmetic.sqrt a)
  toElement : ∀ a : K, FailsOnly P (Arithmetic.toElement a)
  toArray : ∀ as : List K, FailsOnly P (Arithmetic.toArray as)
  refusal : ∀ e : Failure, e.isRefusal = true → P e
  nonzero : ∀ b : K, Quantity.isZero b = false → D b
  positive : ∀ b : K, Quantity.lt (Quantity.ofInt 0) b = .ok true → D b
  above : ∀ b : K, Quantity.lt eps b = .ok true → D b
  count : ∀ n : Int, 0 < n → D (Quantity.ofInt n)
  twice : ∀ (n : Int) (b : K), 0 < n → Arithmetic.mul Arithmetic.two (Quantity.ofInt n) = .ok b → D b

theorem bothHold_eq_true {a b : Except Failure Bool} (h : bothHold a b = .ok true) :
    a = .ok true ∧ b = .ok true := by
  obtain ⟨first, ha, h⟩ := bind_eq_ok h
  cases first with
  | false => cases h
  | true => exact ⟨ha, h⟩

/-! Dynamic values. -/

namespace Number

/-- The conversion is a parameter here, so that no proof looks into its computation. -/
private theorem match_int (ofInt? : Int → Option Float) (n : Int) :
    (match Number.int n with
      | real x => Except.ok x
      | truth b => .ok (if b then 1 else 0)
      | int n =>
        match ofInt? n with
        | some x => .ok x
        | none => .error Failure.overflow) = (ofInt? n).elim (.error .overflow) .ok := by
  change (match ofInt? n with | some x => Except.ok x | none => Except.error Failure.overflow) = _
  cases ofInt? n <;> rfl

theorem toDouble_int (n : Int) :
    toDouble (.int n) = (Double.ofInt? n).elim (.error .overflow) .ok :=
  (toDouble.eq_def (.int n)).trans (match_int Double.ofInt? n)

theorem toDouble_fails (a : Number) : FailsOnly (· = .overflow) a.toDouble := by
  cases a with
  | real _ | truth _ => exact .ok _
  | int n =>
      rw [toDouble_int]
      cases Double.ofInt? n with
      | none => exact .error rfl
      | some _ => exact .ok _

theorem toDouble_failsNumerically (a : Number) : FailsNumerically a.toDouble :=
  (toDouble_fails a).imp fun _ h => h ▸ rfl

theorem combine_fails (exact : Int → Int → Int) (rounded : Float → Float → Float) (a b : Number) :
    FailsOnly (· = .overflow) (combine exact rounded a b) := by
  unfold combine
  split
  · exact .ok _
  · exact (toDouble_fails a).bind fun _ => (toDouble_fails b).bind fun _ => .ok _

theorem combine_failsNumerically (exact : Int → Int → Int) (rounded : Float → Float → Float)
    (a b : Number) : FailsNumerically (combine exact rounded a b) :=
  (combine_fails exact rounded a b).imp fun _ h => h ▸ rfl

theorem div_fails (a b : Number) : FailsOnly (fun e => e.isNumeric = true ∨ e = .zeroDivision) (a.div b) := by
  unfold div
  split
  · split
    · exact .error (.inr rfl)
    · split
      · exact .ok _
      · exact .error (.inl rfl)
  · have converted (n : Number) : FailsOnly (fun e => e.isNumeric = true ∨ e = .zeroDivision) n.toDouble :=
      (toDouble_failsNumerically n).imp fun _ => .inl
    refine (converted a).bind fun _ => (converted b).bind fun _ => ?_
    split
    · exact .error (.inr rfl)
    · exact .ok _

theorem square_failsNumerically (a : Number) : FailsNumerically a.square := by
  unfold square
  split
  · exact .ok _
  · refine (toDouble_failsNumerically a).bind fun x => ?_
    simp only
    split
    · exact .error rfl
    · exact .ok _

theorem sqrt_failsNumerically (a : Number) : FailsNumerically a.sqrt := by
  refine (toDouble_failsNumerically a).bind fun x => ?_
  split
  · exact .error rfl
  · exact .ok _

end Number

namespace Value

theorem onNumber_failsNumerically {f : Number → Except Failure Number} (h : ∀ a, FailsNumerically (f a))
    (v : Value) : FailsNumerically (onNumber f v) := by
  cases v with
  | number a => exact (h a).map _
  | null | text _ | rawText _ | list _ | mapping _ => exact .error rfl

theorem onNumbers_failsNumerically {f : Number → Number → Except Failure Number}
    (h : ∀ a b, FailsNumerically (f a b)) (v w : Value) : FailsNumerically (onNumbers f v w) := by
  unfold onNumbers
  split
  · exact (h _ _).map _
  · exact .error rfl

theorem toDouble_failsNumerically (v : Value) : FailsNumerically v.toDouble := by
  cases v with
  | number a => exact a.toDouble_failsNumerically
  | null | text _ | rawText _ | list _ | mapping _ => exact .error rfl

theorem toMember_failsNumerically (v : Value) : FailsNumerically v.toMember := by
  have read (cs : List Text.Code) :
      FailsNumerically ((Text.readDecimal cs).mapError asArrayText) := by
    unfold Text.readDecimal
    split
    · exact .ok _
    · exact .error rfl
  unfold toMember
  split
  · exact .ok _
  · split
    · exact read _
    · exact toDouble_failsNumerically v

mutual

theorem leaves_failsNumerically : ∀ v : Value, FailsNumerically v.leaves
  | .list items => leavesOf_failsNumerically items
  | .null | .number _ | .text _ | .rawText _ | .mapping _ =>
    (toMember_failsNumerically _).bind fun _ => .ok _

theorem leavesOf_failsNumerically : ∀ items : List Value, FailsNumerically (leavesOf items)
  | [] => .ok _
  | item :: items =>
    (leaves_failsNumerically item).bind fun _ => (leavesOf_failsNumerically items).bind fun _ => .ok _

end

theorem doubles_failsNumerically (v : Value) : FailsNumerically v.doubles := by
  unfold doubles
  split
  · exact v.leaves_failsNumerically
  · exact .error rfl

/-- Dynamic values compute with any failures that allow for those of numbers, as long as a division does. -/
theorem computes_of {P : Failure → Prop} {D : Value → Prop} {eps : Value}
    (numeric : ∀ e : Failure, e.isNumeric = true → P e)
    (div : ∀ a b : Value, D b → FailsOnly P (Arithmetic.div a b))
    (nonzero : ∀ b : Value, Quantity.isZero b = false → D b)
    (positive : ∀ b : Value, Quantity.lt (Quantity.ofInt 0) b = .ok true → D b)
    (above : ∀ b : Value, Quantity.lt eps b = .ok true → D b)
    (count : ∀ n : Int, 0 < n → D (Quantity.ofInt n))
    (twice : ∀ (n : Int) (b : Value), 0 < n →
      Arithmetic.mul Arithmetic.two (Quantity.ofInt n) = .ok b → D b) : Computes Value P D eps where
  lt a b := (isBelow_fails false a b).imp fun e h => numeric e (h ▸ rfl)
  text a := (told_fails a).imp fun e h => numeric e (h ▸ rfl)
  add a b := (onNumbers_failsNumerically (Number.combine_failsNumerically _ _) a b).imp numeric
  sub a b := (onNumbers_failsNumerically (Number.combine_failsNumerically _ _) a b).imp numeric
  mul a b := (onNumbers_failsNumerically (Number.combine_failsNumerically _ _) a b).imp numeric
  div := div
  square a := (onNumber_failsNumerically Number.square_failsNumerically a).imp numeric
  sqrt a := (onNumber_failsNumerically Number.sqrt_failsNumerically a).imp numeric
  toElement a := a.toDouble_failsNumerically.imp numeric
  toArray vs := (list vs).doubles_failsNumerically.imp numeric
  refusal e he := numeric e (by cases e <;> first | rfl | cases he)
  nonzero := nonzero
  positive := positive
  above := above
  count := count
  twice := twice

/-- No operation on dynamic values looks anything up. -/
theorem computes (eps : Value) : Computes Value (fun e => e.isLookup = false) (fun _ => True) eps := by
  refine computes_of (fun _ => Failure.isLookup_of_isNumeric) ?_ (fun _ _ => trivial)
    (fun _ _ => trivial) (fun _ _ => trivial) (fun _ _ => trivial) (fun _ _ _ _ => trivial)
  rintro (_ | a | _ | _ | _ | _) (_ | b | _ | _ | _ | _) - <;> try exact .error rfl
  refine ((Number.div_fails a b).imp fun e h => ?_).map Value.number
  rcases h with h | rfl
  · exact Failure.isLookup_of_isNumeric h
  · rfl

end Value

/-! The stages of an extraction. -/

section Stages

variable {P : Failure → Prop} {D : K → Prop} {eps : K}

namespace Traversal

theorem fold_fails {S : Type} {t : Traversal} (finished : t.failure = none)
    {step : S → ClauseView → Except Failure S} (h : ∀ s v, FailsOnly P (step s v)) (s : S) :
    FailsOnly P (t.fold step s) := by
  rw [fold, finished]
  exact (FailsOnly.foldlM h s).bind fun _ => .ok _

end Traversal

namespace Computes

section Numbers

variable [Arithmetic K E]

theorem improve_fails {better : K → K → Except Failure Bool}
    (hb : ∀ a b, FailsOnly P (better a b)) (extreme : Option K) (x : K) :
    FailsOnly P (RunningStat.improve better extreme x) := by
  refine (hb _ _).bind fun _ => ?_
  cases extreme <;> exact .ok _

variable (h : Computes K P D eps)

include h

theorem positive_fails (x : K) (name : String) : FailsOnly P (Check.positive x name) := by
  refine (h.lt _ _).bind fun isNegative => ?_
  split
  · exact (h.text x).bind fun _ => .error (h.refusal _ rfl)
  · exact .ok _

theorem merge_fails (s : RunningStat K) (low high sum : K) (count : Nat) :
    FailsOnly P (s.merge low high sum count).2 := by
  have extended : FailsOnly P (s.extend low high) :=
    (improve_fails h.lt _ _).bind fun _ =>
      (improve_fails (fun a b => h.lt b a) _ _).bind fun _ => .ok _
  unfold RunningStat.merge
  split
  · rename_i e he
    exact .error (extended e he)
  · split
    · exact .ok _
    · rename_i e he
      exact .error (h.add _ _ e he)

theorem summary_fails (s : RunningStat K) (population : K) : FailsOnly P (s.summary population) := by
  unfold RunningStat.summary
  split
  · exact .ok _
  · refine (h.sub _ _).bind fun _ => ?_
    have mean : FailsOnly P (s.meanOver population) := by
      refine (bothHold_fails (h.lt _ _) (h.lt _ _)).bind_of_ok fun counts tested => ?_
      cases counts with
      | false => exact .ok _
      | true => exact h.div _ _ (h.positive _ (bothHold_eq_true tested).2)
    exact mean.bind fun _ => .ok _

theorem relativeDeviation_fails (squares population mean : K) :
    FailsOnly P (Ratio.relativeDeviation squares population mean eps) := by
  have compared := bothHold_fails (h.lt eps squares)
    (bothHold_fails (h.lt eps mean) (h.lt (Quantity.ofInt 0) population))
  refine compared.bind_of_ok fun counts tested => ?_
  cases counts with
  | false => exact .ok _
  | true =>
      obtain ⟨above, positive⟩ := bothHold_eq_true (bothHold_eq_true tested).2
      exact (h.div _ _ (h.positive _ positive)).bind fun _ => (h.sqrt _).bind fun _ =>
        h.div _ _ (h.above _ above)

theorem polarity_fails (pos : K) {size : Int} (some : 0 < size) :
    FailsOnly P (Ratio.polarity pos (Quantity.ofInt size)) :=
  (h.mul _ _).bind fun _ => (h.sub _ _).bind fun _ => (h.mul _ _).bind_of_ok fun _ twice =>
    (h.div _ _ (h.twice _ _ some twice)).bind fun _ => h.add _ _

/-! Clauses. -/

theorem addRatios_fails (vars : K) (stats : RunningStat K × RunningStat K) (v : ClauseView) :
    FailsOnly P (ClauseMoments.addRatios vars stats v) := by
  unfold ClauseMoments.addRatios
  split
  · exact .ok _
  · rename_i tested
    simp only [Bool.or_eq_true, decide_eq_true_eq, not_or, Bool.not_eq_true] at tested
    obtain ⟨size, nonzero⟩ := tested
    refine (h.div _ _ (h.nonzero _ nonzero)).bind fun x => ?_
    refine (h.merge_fails stats.1 x x x 1).bind fun _ => ?_
    refine (h.polarity_fails _ (Int.natCast_pos.mpr (Nat.pos_of_ne_zero size))).bind fun y => ?_
    exact (h.merge_fails stats.2 y y y 1).bind fun _ => .ok _

theorem clauseFirst_fails {db : Database K} (finished : db.traversal.failure = none)
    (vars clauses horn : K) : FailsOnly P (ClauseMoments.first db vars clauses horn) := by
  unfold ClauseMoments.first
  split
  · exact .ok _
  · rename_i tested
    have divides : D clauses := h.nonzero _ (Bool.eq_false_iff.mpr tested)
    refine (Traversal.fold_fails finished (h.addRatios_fails vars) _).bind fun _ => ?_
    refine (h.div _ _ divides).bind fun _ => (h.div _ _ divides).bind fun _ => ?_
    refine (h.div _ _ divides).bind fun _ => ?_
    exact (h.summary_fails _ _).bind fun _ => (h.summary_fails _ _).bind fun _ => .ok _

theorem addDeviations_fails (m : ClauseMoments K) {vars : K} (divides : D vars) (sums : K × K)
    (v : ClauseView) : FailsOnly P (m.addDeviations vars sums v) := by
  have squares (mean sum x : K) : FailsOnly P (ClauseMoments.addSquare mean sum x) :=
    (h.sub _ _).bind fun _ => (h.square _).bind fun _ => h.add _ _
  unfold ClauseMoments.addDeviations
  split
  · exact .ok _
  · rename_i size
    refine (h.div _ _ divides).bind fun _ => (squares _ _ _).bind fun _ => ?_
    have some := Int.natCast_pos.mpr (Nat.pos_of_ne_zero size)
    exact (h.polarity_fails _ some).bind fun _ => (squares _ _ _).bind fun _ => .ok _

theorem clauseSecond_fails {db : Database K} (finished : db.traversal.failure = none)
    (m : ClauseMoments K) (vars clauses : K) : FailsOnly P (m.second db vars clauses eps) := by
  unfold ClauseMoments.second
  split
  · exact .ok _
  · rename_i tested
    simp only [Bool.or_eq_true, not_or, Bool.not_eq_true] at tested
    refine (Traversal.fold_fails finished (h.addDeviations_fails m (h.nonzero _ tested.2)) _).bind
      fun _ => ?_
    exact (h.relativeDeviation_fails _ _ _).bind fun _ =>
      (h.relativeDeviation_fails _ _ _).bind fun _ => .ok _

end Numbers

/-! Variables and populations. -/

variable [Element E] [Arithmetic K E] (h : Computes K P D eps)

include h

theorem addArray_fails (s : RunningStat K) (xs : List E) : FailsOnly P (s.addArray xs).2 := by
  cases xs with
  | nil => exact .ok _
  | cons x xs => exact h.merge_fails _ _ _ _ _

theorem ofOccurrences_fails (occ : Occurrences) (clauses : K) :
    FailsOnly P (VariableRatios.ofOccurrences occ clauses) := by
  have selected (flags : List Bool) (counts : List Int) :
      FailsOnly P (VariableRatios.selected (K := K) flags counts) := by
    have selection : FailsOnly P (VariableRatios.select flags counts) := by
      unfold VariableRatios.select
      split
      · exact .ok _
      · exact .error (h.refusal _ rfl)
    exact selection.bind fun _ => .mapM fun _ _ => h.toElement _
  exact (selected _ _).bind fun _ => (selected _ _).bind fun _ => (selected _ _).bind fun _ =>
    (h.toElement _).bind fun _ => .ok _

theorem variableFirst_fails (occ : Occurrences) (vars clauses : K) :
    FailsOnly P (VariableMoments.first occ vars clauses) := by
  have summary (ratios : List E) : FailsOnly P (VariableMoments.summaryOf ratios vars) := by
    have := h.addArray_fails .empty ratios
    unfold VariableMoments.summaryOf
    exact this.bind fun _ => h.summary_fails _ _
  unfold VariableMoments.first
  split
  · exact .ok _
  · refine (h.ofOccurrences_fails occ clauses).bind fun _ => ?_
    exact (summary _).bind fun _ => (summary _).bind fun _ => (summary _).bind fun _ => .ok _

theorem variableSecond_fails (occ : Occurrences) (m : VariableMoments K) (vars clauses : K) :
    FailsOnly P (VariableMoments.second occ m vars clauses eps) := by
  have deviation (s : Summary K) (ratios : List E) :
      FailsOnly P (VariableMoments.withDeviation s ratios vars eps) :=
    (h.toElement _).bind fun _ => (h.relativeDeviation_fails _ _ _).bind fun _ => .ok _
  unfold VariableMoments.second
  split
  · exact .ok _
  · refine (h.ofOccurrences_fails occ clauses).bind fun _ => ?_
    exact (deviation _ _).bind fun _ => (deviation _ _).bind fun _ =>
      (deviation _ _).bind fun _ => .ok _

theorem ofPopulation_fails (bodies : List (Clause K)) (increment : K) :
    FailsOnly P (Distribution.ofPopulation bodies increment) := by
  refine (h.positive_fails _ _).bind fun _ => ?_
  split
  · exact .ok _
  · exact (h.toArray _).bind fun _ => (h.toArray _).bind fun _ => (h.toElement _).bind fun _ => .ok _

end Computes

end Stages

/-! Extraction. -/

section Built

variable [Element E] [Arithmetic K E] {vars : Nat} {es : List (Effect K)} {db : Database K}
  {P : Failure → Prop} {D : K → Prop} {eps : K}

/-- Every list of offsets that a database keeps can be looked up. -/
theorem Built.ofOffsets_fails (h : Built vars es db) (computes : Computes K P D eps)
    {offsets : List Value} (ho : offsets ∈ db.longIrred :: db.longRed) (increment : K) :
    FailsOnly P (Distribution.ofOffsets db.store offsets increment) := by
  have population (bodies : List (Clause K)) : FailsOnly P (Distribution.ofPopulation bodies increment) :=
    computes.ofPopulation_fails bodies increment
  rcases List.mem_cons.mp ho with rfl | ho
  · rw [h.longIrred_eq, Distribution.ofOffsets_eq (h.stored fun _ _ => Effect.eq_long_of_irredLong)]
    exact population _
  · obtain ⟨t, ht⟩ := List.mem_iff_getElem?.mp ho
    have inside : t < tierCount := h.shaped.tiers ▸ (List.getElem?_eq_some_iff.mp ht).1
    rw [h.longRed_eq inside] at ht
    cases ht
    rw [Distribution.ofOffsets_eq (h.stored fun _ _ => Effect.eq_long_of_tierLong)]
    exact population _

theorem Built.tierDistribution_fails (h : Built vars es db) (computes : Computes K P D eps)
    (tier : Number) : FailsOnly P (db.tierDistribution tier) := by
  unfold Database.tierDistribution Database.tierOffsets
  split
  · exact .error (computes.refusal _ rfl)
  · split
    · rename_i offsets found
      obtain ⟨k, -, hk⟩ := Option.bind_eq_some_iff.mp found
      exact h.ofOffsets_fails computes (List.mem_cons_of_mem _ (List.mem_of_getElem? hk)) _
    · exact .error (computes.refusal _ rfl)

/-- An extraction whose traversal goes to the end fails with the failures of operations on numbers and
with refusals only. -/
theorem Built.extract_fails (h : Built vars es db) (computes : Computes K P D eps)
    (finished : db.traversal.failure = none) {occ : Occurrences}
    (counted : Occurrences.ofDatabase db = .ok occ) (tier : Number) :
    FailsOnly P (db.extract eps tier) := by
  have core : FailsOnly P (db.core eps) := by
    unfold Database.core
    rw [counted, ok_bind]
    extract_lets vars clauses continuation
    have rest (ratio : K) : FailsOnly P (continuation ratio) := by
      refine (computes.clauseFirst_fails finished _ _ _).bind fun _ => ?_
      refine (computes.variableFirst_fails _ _ _).bind fun _ => ?_
      refine (computes.clauseSecond_fails finished _ _ _).bind fun _ => ?_
      exact (computes.variableSecond_fails _ _ _ _).bind fun _ => .ok _
    split
    · rename_i populated
      exact (computes.div _ _ (computes.count _ populated.2)).bind rest
    · exact rest _
  have finite (xs : List E) (name : String) : FailsOnly P (Check.finite xs name) := by
    unfold Check.finite
    dsimp only
    split
    · exact .error (computes.refusal _ rfl)
    · split
      · exact .error (computes.refusal _ rfl)
      · exact .ok _
  rw [Database.extract, Database.record_eq]
  refine FailsOnly.bind ?_ fun r => (computes.toArray r.values).bind fun _ =>
    (finite _ _).bind fun _ => .ok _
  refine core.bind fun _ => (h.tierDistribution_fails computes tier).bind fun _ => ?_
  exact (h.ofOffsets_fails computes List.mem_cons_self _).bind fun _ => .ok _

end Built

end ClauseFeatures
