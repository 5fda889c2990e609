import ClauseFeatures.Config.Basic
import ClauseFeatures.Extraction
import ClauseFeatures.Journal
import ClauseFeatures.Value.Arithmetic

/-!
Extraction under a configuration, with its report to a logger.
-/
namespace ClauseFeatures

/-- The configurations under which a database can be read: the tier has to exist. -/
def Config.checkTier (c : Config) : Except Failure Unit :=
  Check.inRange (.number c.redTier) (.int 0) (.int (tierCount - 1)) "red_tier"

/-- What is logged of an extraction that took a time. -/
def FeatureRecord.metrics (r : FeatureRecord Value) (time : Value) : List (Value × Value) :=
  [(.text "event", .text "extracted"), (.text "time", time), (.text "num_vars", r.numVars),
    (.text "num_clauses", r.numClauses)]

namespace Database

/-- Extracts under a configuration whose tier was checked. -/
def extractWith (db : Database Value) (c : Config) : Except Failure (FeatureRecord Value) :=
  db.extract (.number c.eps) c.redTier

/-- Checks a configuration, extracts under it and logs the extraction: the record, the text printed and
the files afterwards. A logger is only called after an extraction that succeeded. -/
def report (db : Database Value) (c : Config) (time : Value) (j : Journal) :
    Except Failure (FeatureRecord Value × String × Journal) := do
  c.checkTier
  let logger ← Logger.make (.number c.verbosity) c.logFile
  let r ← db.extractWith c
  let (out, after, logged) := logger.log (.mapping (r.metrics time)) j
  logged
  pure (r, out, after)

/-- Extracts in the same way for a logger that is passed in, whatever it does with the metrics. The settings
that describe a logger are not looked at. -/
def reportTo {σ : Type} (log : Value → Except Failure σ) (db : Database Value) (c : Config) (time : Value) :
    Except Failure (FeatureRecord Value × σ) := do
  c.checkTier
  let r ← db.extractWith c
  pure (r, ← log (.mapping (r.metrics time)))

end Database

end ClauseFeatures
