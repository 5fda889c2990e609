import Mathlib.Data.List.Forall2
import ClauseFeatures.Journal
import ClauseFeatures.Proofs.ShownText
import ClauseFeatures.Proofs.Told
import ClauseFeatures.Value.Same

/-!
Log files as streams of records. Loggers, of which some share a file, are called one after the other. Each call adds the
text of its metrics and a line feed to the file of its logger and does nothing to the others, so a file has the texts
of the calls on it, in their order; and since such a text is on one line, the lines of a file are these texts again.
What the verbosity decides is only which calls print a line.
-/
namespace ClauseFeatures

/-! Files. -/

namespace Journal

theorem content?_append (j : Journal) (path added other : String) :
    (j.append path added).content? other =
      if other = path then some ((j.content? path).getD "" ++ added) else j.content? other := by
  obtain ⟨_, _, files⟩ := j
  change (appendTo path added files).lookup other =
    if other = path then some ((files.lookup path).getD "" ++ added) else files.lookup other
  induction files with
  | nil =>
      rw [appendTo, List.lookup_cons, List.lookup_nil]
      by_cases same : other = path
      · rw [if_pos same, beq_iff_eq.mpr same]
        rfl
      · rw [if_neg same, beq_eq_false_iff_ne.mpr same]
  | cons file files ih =>
      obtain ⟨name, content⟩ := file
      rw [appendTo]
      by_cases named : name = path
      · rw [if_pos named, List.lookup_cons, List.lookup_cons, List.lookup_cons, named]
        by_cases same : other = path
        · rw [if_pos same, beq_iff_eq.mpr same, beq_self_eq_true]
          rfl
        · rw [if_neg same, beq_eq_false_iff_ne.mpr same]
      · rw [if_neg named, List.lookup_cons, List.lookup_cons, List.lookup_cons, ih,
          beq_eq_false_iff_ne.mpr (Ne.symm named)]
        by_cases same : other = path
        · rw [same, beq_eq_false_iff_ne.mpr (Ne.symm named), if_pos rfl]
        · rw [if_neg same, if_neg same]

theorem lines_join {records : List String}
    (unbroken : ∀ record ∈ records, ∀ c ∈ record.toList, Text.isLineBreak c = false) :
    Text.lines (String.join (records.map (· ++ "\n"))).toList = records.map String.toList := by
  induction records with
  | nil => rfl
  | cons record records ih =>
      obtain ⟨first, rest⟩ := List.forall_mem_cons.mp unbroken
      rw [List.map_cons, String.join_cons, String.toList_append, String.toList_append, List.append_assoc, List.map_cons,
        ← ih rest]
      exact Text.lines_append first

end Journal

/-! Calls. -/

structure LogCall where
  logger : Logger
  metrics : List (Value × Value)

namespace LogCall

/-- The text that stands for a call in a file. -/
def record (call : LogCall) : String := (Value.mapping call.metrics).shown

def hasText (j : Journal) (call : LogCall) : Bool :=
  ((Value.mapping call.metrics).untold? (some (j.levels + 1))).isNone

/-- Whether a call is on a logger whose file, by whatever name, is the one at a path. -/
def isAt (j : Journal) (path : String) (call : LogCall) : Bool := call.logger.file.map j.pathOf = some path

/-- The texts of the calls on loggers with a file, in the order of the calls. -/
def recordsAt (j : Journal) (calls : List LogCall) (path : String) : List String :=
  (calls.filter fun call => call.isAt j path && call.hasText j).map record

/-- A call of a logger that was made with a number as its verbosity, and with a path or without one. If the metrics
tell a duration, it is a number in the range of doubles. -/
structure IsUsable (call : LogCall) : Prop where
  made : ∃ verbosity : Number, Logger.make (.number verbosity) .null = .ok call.logger ∨
    ∃ path, Text.isPath path = true ∧ Logger.make (.number verbosity) (.text path) = .ok call.logger
  timed : ∀ v, Value.lookup "time" call.metrics = some v →
    ∃ (n : Number) (x : Float), v = .number n ∧ n.toDouble = .ok x

/-- Whether a call reports an extraction to a logger with a verbosity above zero. -/
def IsTold (call : LogCall) : Prop :=
  Value.lt (.int 0) call.logger.verbosity = .ok true ∧ Logger.reportsExtraction call.metrics = true

/-- The keys of the metrics that a line tells beside the duration. -/
def toldKeys : List String := ["num_vars", "num_clauses"]

/-- Whether what a line tells of a call has a text. -/
def HasLine (j : Journal) (call : LogCall) : Prop :=
  ∀ key ∈ toldKeys, (Logger.metric key call.metrics).untold? (some (j.levels + 1)) = none

/-- Makes calls one after the other, with the text that each prints and whether it fails. -/
def run : List LogCall → Journal → List (String × Except Failure Unit) × Journal
  | [], j => ([], j)
  | call :: calls, j =>
    let (out, next, outcome) := call.logger.log (.mapping call.metrics) j
    let (answers, after) := run calls next
    ((out, outcome) :: answers, after)

/-- What a usable call answers. It succeeds if its metrics have a text, and fails only for want of a text that it needs.
It prints its line exactly if it is told one and the line has a text, and this is one line if no text is told in it. -/
structure Answers (j : Journal) (call : LogCall) (answer : String × Except Failure Unit) : Prop where
  recorded : call.hasText j = true → answer.2 = .ok ()
  succeeds : answer.2 = .ok () ↔
    (call.logger.file ≠ none → call.hasText j = true) ∧ (call.IsTold → call.HasLine j)
  refused : FailsOnly (fun e => e.kind = .value ∨ e.kind = .recursion) answer.2
  line : call.IsTold → call.HasLine j → Logger.line j.levels call.metrics = .ok answer.1
  printed : answer.1 ≠ "" ↔ call.IsTold ∧ call.HasLine j
  single : call.IsTold → call.HasLine j →
    (∀ key ∈ toldKeys, ∀ v, Value.lookup key call.metrics = some v → v.codes? = none) →
    (Text.lines answer.1.toList).length = 1

/-- What calls leave of the files: each has the texts of the calls on it put at its end, and a file without calls on it
is as it was. -/
structure Extends (j after : Journal) (calls : List LogCall) : Prop where
  directory : after.directory = j.directory
  levels : after.levels = j.levels
  content : ∀ path, (after.content? path).getD "" =
    (j.content? path).getD "" ++ String.join ((recordsAt j calls path).map (· ++ "\n"))
  untouched : ∀ path, (∀ call ∈ calls, call.isAt j path = false) → after.content? path = j.content? path

/-- Two calls with the same metrics on loggers with the same file, by whatever names, or on two without one. -/
structure SameRecord (j : Journal) (call call' : LogCall) : Prop where
  file : call'.logger.file.map j.pathOf = call.logger.file.map j.pathOf
  metrics : call'.metrics = call.metrics

variable {call call' : LogCall} {calls calls' : List LogCall} {j next after : Journal} {out : String}

/-! The line of a call. -/

theorem IsUsable.verbosity (usable : call.IsUsable) : ∃ n, call.logger.verbosity = .number n := by
  obtain ⟨n, made | ⟨path, -, made⟩⟩ := usable.made
  · exact ⟨n, by rw [← Except.ok.inj made]⟩
  · exact ⟨n, by rw [← Except.ok.inj made]⟩

theorem IsUsable.isPath (usable : call.IsUsable) {path : String} (h : call.logger.file = some path) :
    Text.isPath path = true := by
  obtain ⟨n, made | ⟨given, valid, made⟩⟩ := usable.made
  · rw [← Except.ok.inj made] at h
    cases h
  · rw [← Except.ok.inj made] at h
    cases h
    exact valid

theorem exists_durationText (usable : call.IsUsable) :
    ∃ x : Float, Logger.durationText ((Value.lookup "time" call.metrics).getD (.real 0)) =
      .ok (Double.fixedText 4 x) := by
  cases found : Value.lookup "time" call.metrics with
  | none => exact ⟨_, rfl⟩
  | some v =>
      obtain ⟨n, x, rfl, converted⟩ := usable.timed v found
      exact ⟨x, by rw [Option.getD_some, Logger.durationText, converted]; rfl⟩

/-- Metrics with a text have one for each of their values. -/
theorem hasLine_of_hasText (h : call.hasText j = true) : call.HasLine j := by
  intro key _
  rw [hasText, Option.isNone_iff_eq_none, Value.untold?] at h
  cases found : Value.lookup key call.metrics with
  | none =>
      rw [Logger.metric, found]
      rfl
  | some v =>
      rw [Logger.metric, found]
      rw [Value.lookup, Option.map_eq_some_iff] at found
      obtain ⟨⟨key', value⟩, entry, rfl⟩ := found
      exact Value.untold?_succ (Value.untold?_of_mem (List.mem_of_find?_eq_some entry) h)

theorem plain_unbroken {v : Value} (h : v.codes? = none) : ∀ c ∈ v.plain.toList, Text.isLineBreak c = false := by
  cases v with
  | text _ | rawText _ => cases h
  | null | number _ | list _ | mapping _ => exact (Value.shown_printable _).unbroken

theorem metric_unbroken {key : String} {metrics : List (Value × Value)}
    (h : ∀ v, Value.lookup key metrics = some v → v.codes? = none) :
    ∀ c ∈ (Logger.metric key metrics).plain.toList, Text.isLineBreak c = false := by
  unfold Logger.metric
  cases found : Value.lookup key metrics with
  | none =>
      have unknown : Text.ArePrintable "?".toList := by decide +kernel
      exact unknown.unbroken
  | some v => exact plain_unbroken (h v found)

theorem lineOf_ne_empty (duration vars clauses : String) : Logger.lineOf duration vars clauses ≠ "" := by
  intro none
  unfold Logger.lineOf at none
  exact absurd (String.append_eq_empty_iff.mp none).2 (by decide)

theorem lines_lineOf {duration vars clauses : String} (hd : ∀ c ∈ duration.toList, Text.isLineBreak c = false)
    (hv : ∀ c ∈ vars.toList, Text.isLineBreak c = false) (hc : ∀ c ∈ clauses.toList, Text.isLineBreak c = false) :
    (Text.lines (Logger.lineOf duration vars clauses).toList).length = 1 := by
  have opening : Text.ArePrintable "c [features] extracted T: ".toList := by decide +kernel
  have varsLabel : Text.ArePrintable " | vars: ".toList := by decide +kernel
  have clausesLabel : Text.ArePrintable " | cls: ".toList := by decide +kernel
  have framed : (Logger.lineOf duration vars clauses).toList =
      "c [features] extracted T: ".toList ++ (duration.toList ++ (" | vars: ".toList ++ (vars.toList ++
        (" | cls: ".toList ++ clauses.toList)))) ++ ['\n'] := by
    unfold Logger.lineOf
    simp only [String.toList_append, List.append_assoc, toString]
    rfl
  rw [framed, Text.lines_append]
  · rfl
  · simp only [List.forall_mem_append]
    exact ⟨opening.unbroken, hd, varsLabel.unbroken, hv, clausesLabel.unbroken, hc⟩

/-- The line of a usable call, if what it tells has a text. -/
theorem exists_line (usable : call.IsUsable) (told : call.HasLine j) :
    ∃ out, Logger.line j.levels call.metrics = .ok out ∧ out ≠ "" ∧
      ((∀ key ∈ toldKeys, ∀ v, Value.lookup key call.metrics = some v → v.codes? = none) →
        (Text.lines out.toList).length = 1) := by
  obtain ⟨x, duration⟩ := exists_durationText usable
  have vars := told "num_vars" (by decide)
  have clauses := told "num_clauses" (by decide)
  have written : Logger.line j.levels call.metrics = .ok (Logger.lineOf (Double.fixedText 4 x)
      (Logger.metric "num_vars" call.metrics).plain (Logger.metric "num_clauses" call.metrics).plain) := by
    rw [Logger.line, duration, ok_bind, Logger.told, Value.checked_eq_ok vars, ok_bind, Logger.told,
      Value.checked_eq_ok clauses, ok_bind]
    rfl
  refine ⟨_, written, lineOf_ne_empty _ _ _, fun noText => lines_lineOf ?_ ?_ ?_⟩
  · exact (Double.fixedText_printable 4 x).unbroken
  · exact metric_unbroken (noText "num_vars" (by decide))
  · exact metric_unbroken (noText "num_clauses" (by decide))

theorem line_fails (usable : call.IsUsable) (untold : ¬ call.HasLine j) :
    ∃ e, Logger.line j.levels call.metrics = .error e ∧ Value.IsUntoldness (some (j.levels + 1)) e := by
  obtain ⟨x, duration⟩ := exists_durationText usable
  rw [Logger.line, duration, ok_bind]
  cases vars : (Logger.metric "num_vars" call.metrics).untold? (some (j.levels + 1)) with
  | some e => exact ⟨e, by rw [Logger.told, Value.checked_eq_error vars]; rfl, Value.untold?_eq_some vars⟩
  | none =>
      rw [Logger.told, Value.checked_eq_ok vars, ok_bind]
      cases clauses : (Logger.metric "num_clauses" call.metrics).untold? (some (j.levels + 1)) with
      | some e => exact ⟨e, by rw [Logger.told, Value.checked_eq_error clauses]; rfl, Value.untold?_eq_some clauses⟩
      | none =>
          refine absurd ?_ untold
          simp only [HasLine, toldKeys, List.forall_mem_cons]
          exact ⟨vars, clauses, nofun⟩

/-! One call. -/

/-- A usable call is not told a line, is told one that has a text, or fails before it writes anything. -/
inductive Prints (j : Journal) (call : LogCall) : Except Failure String → Prop
  | quiet (other : ¬ call.IsTold) : Prints j call (.ok "")
  | told {out : String} (isTold : call.IsTold) (hasLine : call.HasLine j)
      (line : Logger.line j.levels call.metrics = .ok out) : Prints j call (.ok out)
  | untold {e : Failure} (isTold : call.IsTold) (noLine : ¬ call.HasLine j)
      (cause : Value.IsUntoldness (some (j.levels + 1)) e) : Prints j call (.error e)

theorem printed_usable (usable : call.IsUsable) (j : Journal) :
    call.Prints j (call.logger.printed j.levels (.mapping call.metrics)) := by
  obtain ⟨n, verbosity⟩ := usable.verbosity
  have compared : Value.lt (.int 0) call.logger.verbosity = .ok (Number.lt (.int 0) n) := by
    rw [verbosity]
    rfl
  rw [Logger.printed, compared, ok_bind]
  cases talkative : Number.lt (.int 0) n with
  | false =>
      refine .quiet fun told => ?_
      rw [IsTold, compared, talkative] at told
      cases told.1
  | true =>
      cases reports : Logger.reportsExtraction call.metrics with
      | false =>
          refine .quiet fun told => ?_
          rw [told.2] at reports
          cases reports
      | true =>
          have told : call.IsTold := ⟨talkative ▸ compared, reports⟩
          simp only [ite_true]
          by_cases hasLine : call.HasLine j
          · obtain ⟨out, line, -, -⟩ := exists_line usable hasLine
            rw [line]
            exact .told told hasLine line
          · obtain ⟨e, failed, cause⟩ := line_fails usable hasLine
            rw [failed]
            exact .untold told hasLine cause

/-! The file of a call. -/

theorem isAt_congr (same : next.directory = j.directory) (path : String) (call : LogCall) :
    call.isAt next path = call.isAt j path := by
  have paths : next.pathOf = j.pathOf := by
    funext name
    rw [Journal.pathOf, Journal.pathOf, same]
  rw [isAt, isAt, paths]

theorem recordsAt_congr (directory : next.directory = j.directory) (levels : next.levels = j.levels)
    (calls : List LogCall) (path : String) : recordsAt next calls path = recordsAt j calls path := by
  have texts (call : LogCall) : call.hasText next = call.hasText j := by rw [hasText, hasText, levels]
  simp only [recordsAt, isAt_congr directory, texts]

namespace Extends

theorem refl (h : ∀ path, recordsAt j calls path = []) : Extends j j calls where
  directory := rfl
  levels := rfl
  content path := by rw [h, List.map_nil, String.join_nil, String.append_empty]
  untouched _ _ := rfl

theorem cons (first : Extends j next [call]) (rest : Extends next after calls) : Extends j after (call :: calls) where
  directory := rest.directory.trans first.directory
  levels := rest.levels.trans first.levels
  content path := by
    have split : recordsAt j (call :: calls) path = recordsAt j [call] path ++ recordsAt next calls path := by
      rw [recordsAt_congr first.directory first.levels, recordsAt, recordsAt, recordsAt, ← List.map_append,
        ← List.filter_append, List.singleton_append]
    rw [rest.content, first.content, split, List.map_append, String.join_append, String.append_assoc]
  untouched path elsewhere := by
    obtain ⟨here, others⟩ := List.forall_mem_cons.mp elsewhere
    rw [rest.untouched path fun call hc => (isAt_congr first.directory path call).trans (others call hc)]
    exact first.untouched path (List.forall_mem_cons.mpr ⟨here, nofun⟩)

/-- A text that is put at the end of the file of a call is the text of the call and a line feed, if it has a text. -/
theorem append {name : String} (file : call.logger.file = some name) {added : String}
    (text : added = String.join ((if call.hasText j then [call.record] else []).map (· ++ "\n"))) :
    Extends j (j.append (j.pathOf name) added) [call] where
  directory := rfl
  levels := rfl
  content path := by
    have here : call.isAt j path = decide (path = j.pathOf name) := by
      simp only [isAt, file, Option.map_some, Option.some.injEq, eq_comm]
    rw [Journal.content?_append, recordsAt, List.filter_cons, List.filter_nil, here]
    by_cases same : path = j.pathOf name
    · rw [if_pos same, decide_eq_true same, Bool.true_and, text, same]
      cases call.hasText j <;> rfl
    · rw [if_neg same, decide_eq_false same, Bool.false_and]
      exact String.append_empty.symm
  untouched path elsewhere := by
    have other := elsewhere call List.mem_cons_self
    rw [isAt, file, Option.map_some, decide_eq_false_iff_not, Option.some.injEq] at other
    rw [Journal.content?_append, if_neg (Ne.symm other)]

end Extends

theorem recordsAt_of_not_hasText (untold : call.hasText j = false) (path : String) : recordsAt j [call] path = [] := by
  rw [recordsAt, List.filter_cons, untold, Bool.and_false]
  rfl

/-- A usable call that writes adds its text to the file of its logger, if it has one, and touches no other file. -/
theorem write_usable (usable : call.IsUsable) (j : Journal) :
    Extends j (call.logger.write (.mapping call.metrics) j).1 [call] ∧
      ((call.logger.write (.mapping call.metrics) j).2 = .ok () ↔ (call.logger.file ≠ none → call.hasText j = true)) ∧
      FailsOnly (Value.IsUntoldness (some (j.levels + 1))) (call.logger.write (.mapping call.metrics) j).2 := by
  unfold Logger.write
  cases file : call.logger.file with
  | none =>
      refine ⟨.refl fun path => ?_, ⟨fun _ none => absurd rfl none, fun _ => rfl⟩, .ok ()⟩
      rw [recordsAt, List.filter_cons, isAt, file]
      rfl
  | some name =>
      simp only [usable.isPath file, ite_true, Logger.entry, Logger.told]
      cases untold : (Value.mapping call.metrics).untold? (some (j.levels + 1)) with
      | none =>
          have told : call.hasText j = true := by rw [hasText, untold]; rfl
          rw [Value.checked_eq_ok untold]
          refine ⟨.append file ?_, ⟨fun _ _ => told, fun _ => rfl⟩, .ok ()⟩
          rw [told, if_pos rfl, List.map_cons, List.map_nil, String.join_cons, String.join_nil, String.append_empty]
          rfl
      | some e =>
          have nothing : call.hasText j = false := by rw [hasText, untold]; rfl
          rw [Value.checked_eq_error untold]
          refine ⟨.append file ?_, ⟨nofun, fun told => ?_⟩, .error (Value.untold?_eq_some untold)⟩
          · rw [nothing]
            rfl
          · rw [nothing] at told
            cases told (Option.some_ne_none name)

theorem kind_of_untoldness {levels : Option ℕ} {e : Failure} (h : Value.IsUntoldness levels e) :
    e.kind = .value ∨ e.kind = .recursion := by
  obtain rfl | ⟨-, rfl⟩ := h
  · exact .inl rfl
  · exact .inr rfl

/-- What a usable call answers and leaves. -/
theorem log_usable (usable : call.IsUsable) (j : Journal) :
    ∃ out next outcome, call.logger.log (.mapping call.metrics) j = (out, next, outcome) ∧
      call.Answers j (out, outcome) ∧ Extends j next [call] := by
  obtain ⟨written, succeeds, fails⟩ := write_usable usable j
  unfold Logger.log
  generalize hp : call.logger.printed j.levels (.mapping call.metrics) = answer
  have prints : call.Prints j answer := hp ▸ printed_usable usable j
  cases prints with
  | quiet other =>
      refine ⟨_, _, _, rfl, ?_, written⟩
      exact {
        recorded := fun told => succeeds.mpr fun _ => told
        succeeds := succeeds.trans (and_iff_left fun told => absurd told other).symm
        refused := fails.imp fun _ => kind_of_untoldness
        line := fun told => absurd told other
        printed := ⟨fun h => absurd rfl h, fun h => absurd h.1 other⟩
        single := fun told => absurd told other }
  | told isTold hasLine line =>
      obtain ⟨out, same, shown, single⟩ := exists_line usable hasLine
      cases line.symm.trans same
      refine ⟨_, _, _, rfl, ?_, written⟩
      exact {
        recorded := fun told => succeeds.mpr fun _ => told
        succeeds := succeeds.trans (and_iff_left fun _ => hasLine).symm
        refused := fails.imp fun _ => kind_of_untoldness
        line := fun _ _ => line
        printed := ⟨fun _ => ⟨isTold, hasLine⟩, fun _ => shown⟩
        single := fun _ _ => single }
  | untold isTold noLine cause =>
      have nothing : call.hasText j = false := Bool.eq_false_iff.mpr fun told => noLine (hasLine_of_hasText told)
      refine ⟨_, _, _, rfl, ?_, .refl (recordsAt_of_not_hasText nothing)⟩
      exact {
        recorded := fun told => absurd told (Bool.eq_false_iff.mp nothing)
        succeeds := ⟨nofun, fun h => absurd (h.2 isTold) noLine⟩
        refused := .error (kind_of_untoldness cause)
        line := fun _ hasLine => absurd hasLine noLine
        printed := ⟨fun h => absurd rfl h, fun h => absurd h.2 noLine⟩
        single := fun _ hasLine => absurd hasLine noLine }

/-! All calls. -/

theorem Answers.congr {answer : String × Except Failure Unit} (levels : next.levels = j.levels)
    (h : call.Answers next answer) : call.Answers j answer := by
  have texts : call.hasText next = call.hasText j := by rw [hasText, hasText, levels]
  have line : call.HasLine next = call.HasLine j := by rw [HasLine, HasLine, levels]
  obtain ⟨recorded, succeeds, refused, told, printed, single⟩ := h
  rw [texts] at recorded succeeds
  rw [line] at succeeds told printed single
  rw [levels] at told
  exact ⟨recorded, succeeds, refused, told, printed, single⟩

theorem run_usable (usable : ∀ call ∈ calls, call.IsUsable) (j : Journal) :
    List.Forall₂ (Answers j) calls (run calls j).1 ∧ Extends j (run calls j).2 calls := by
  induction calls generalizing j with
  | nil => exact ⟨.nil, .refl fun _ => rfl⟩
  | cons call calls ih =>
      obtain ⟨first, rest⟩ := List.forall_mem_cons.mp usable
      obtain ⟨out, next, outcome, logged, answers, written⟩ := log_usable first j
      obtain ⟨answered, extended⟩ := ih rest next
      simp only [run, logged]
      exact ⟨.cons answers (answered.imp fun _ _ => Answers.congr written.levels), written.cons extended⟩

theorem recordsAt_sameRecord (same : List.Forall₂ (SameRecord j) calls calls') (path : String) :
    recordsAt j calls' path = recordsAt j calls path := by
  induction same with
  | nil => rfl
  | cons first _ ih =>
      obtain ⟨file, metrics⟩ := first
      simp only [recordsAt] at ih ⊢
      simp only [List.filter_cons, isAt, hasText, file, metrics]
      split
      · rw [List.map_cons, List.map_cons, record, record, metrics]
        exact congrArg _ ih
      · exact ih

theorem record_unbroken (call : LogCall) : ∀ c ∈ call.record.toList, Text.isLineBreak c = false :=
  (Value.shown_printable _).unbroken

end LogCall

end ClauseFeatures
