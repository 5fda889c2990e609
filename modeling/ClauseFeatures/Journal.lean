import ClauseFeatures.Text.Path
import ClauseFeatures.Value.Order

/-!
Loggers and the files that they write.

A logger prints a line for each extraction if its verbosity is above zero, and appends the text of
whatever metrics it is called with to its file, one per line. Quoting leaves no line break inside the text
of a mapping, so a file has as many lines as mappings were written to it. The file is opened before the text is
made: metrics that have no text leave it as it was, or empty. Files can be written wherever their names lead to, and
no name leads over a link.
-/
namespace ClauseFeatures

structure Journal where
  /-- The directory that the names of files start from, as a path from the root. -/
  directory : String
  /-- How many collections may be around a part of a metric for its text to be made, the metrics not counted. -/
  levels : Nat
  /-- The files written so far, each with its path from the root and its content. -/
  files : List (String × String)

namespace Journal

/-- No files, and as many levels as a call close to the start of a program finds. -/
def empty : Journal := ⟨"/", 900, []⟩

def content? (j : Journal) (path : String) : Option String := j.files.lookup path

/-- Files with a text put at the end of one of them, which is made if it is missing. -/
def appendTo (path added : String) : List (String × String) → List (String × String)
  | [] => [(path, added)]
  | (p, content) :: rest =>
    if p = path then (p, content ++ added) :: rest else (p, content) :: appendTo path added rest

def pathOf (j : Journal) (name : String) : String := Text.resolvePath j.directory name

def append (j : Journal) (path added : String) : Journal :=
  { j with files := appendTo path added j.files }

end Journal

/-- A logger: when it prints, and the name of the file that it writes. -/
structure Logger where
  verbosity : Value
  file : Option String

namespace Logger

/-- The logger with a verbosity, which is not checked, and a file, which has to be text if it is given. -/
def make (verbosity logFile : Value) : Except Failure Logger :=
  match logFile with
  | .null => .ok ⟨verbosity, none⟩
  | .text name => .ok ⟨verbosity, some name⟩
  | _ => .error .wrongType

/-- The text of a duration, with four places. -/
def durationText (v : Value) : Except Failure String :=
  match v with
  | .number n => do pure (Double.fixedText 4 (← n.toDouble))
  | .text _ | .rawText _ => .error .textAsNumber
  | _ => .error (.unformattable v.typeName)

/-- What an extraction's line tells of a metric: a question mark if there is none. -/
def metric (key : String) (metrics : List (Value × Value)) : Value :=
  (Value.lookup key metrics).getD (.text "?")

def told (levels : Nat) (v : Value) : Except Failure String := v.checked (some (levels + 1)) v.plain

def lineOf (duration vars clauses : String) : String :=
  s!"c [features] extracted T: {duration} | vars: {vars} | cls: {clauses}\n"

/-- The line for an extraction; a missing duration is zero. A text among the metrics stands for itself here, with any
line break in it. -/
def line (levels : Nat) (metrics : List (Value × Value)) : Except Failure String := do
  let duration ← durationText ((Value.lookup "time" metrics).getD (.real 0))
  let vars ← told levels (metric "num_vars" metrics)
  let clauses ← told levels (metric "num_clauses" metrics)
  pure (lineOf duration vars clauses)

def reportsExtraction (metrics : List (Value × Value)) : Bool :=
  (Value.lookup "event" metrics).any fun v => v.equal (.text "extracted")

/-- The line that a logger prints for metrics, if it prints one. Only mappings can be asked for it. -/
def printed (l : Logger) (levels : Nat) (metrics : Value) : Except Failure String := do
  let isTalkative ← Value.lt (.int 0) l.verbosity
  if isTalkative then
    match metrics with
    | .mapping entries => if reportsExtraction entries then line levels entries else pure ""
    | _ => throw .notMapping
  else pure ""

/-- The line of a log file for metrics. -/
def entry (levels : Nat) (metrics : Value) : Except Failure String := do
  pure ((← told levels metrics) ++ "\n")

def write (l : Logger) (metrics : Value) (j : Journal) : Journal × Except Failure Unit :=
  match l.file with
  | none => (j, .ok ())
  | some name =>
    if Text.isPath name then
      match entry j.levels metrics with
      | .ok text => (j.append (j.pathOf name) text, .ok ())
      | .error e => (j.append (j.pathOf name) "", .error e)
    else (j, .error .pathWithNul)

/-- Logs metrics: the text printed, what is around the logger afterwards, and whether it failed. If the line cannot be
printed, nothing is written either; what was printed stays so if nothing can be written. -/
def log (l : Logger) (metrics : Value) (j : Journal) : String × Journal × Except Failure Unit :=
  match l.printed j.levels metrics with
  | .ok out => (out, l.write metrics j)
  | .error e => ("", j, .error e)

end Logger

end ClauseFeatures
