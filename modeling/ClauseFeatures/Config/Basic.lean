import ClauseFeatures.Value.Same

/-!
The configuration of an extraction.
-/
namespace ClauseFeatures

/-- How features are extracted and reported. -/
structure Config where
  /-- Up to this, a sum of squared deviations or a mean counts as zero. -/
  eps : Number
  /-- The tier of redundant long clauses that is summarised. -/
  redTier : Number
  /-- Above zero, each extraction prints a line. -/
  verbosity : Number
  /-- The file to which each extraction appends its metrics, if it is a path. -/
  logFile : Value
deriving DecidableEq

namespace Config

def defaultEps : Number := .real (Double.ofDecimal false 1 (-5))

def default : Config := ⟨defaultEps, 0, 0, .null⟩

def numberOf (v : Value) : Except Failure Number :=
  match v.number? with
  | some n => .ok n
  | none => .error .wrongType

/-- The configuration of some settings. The threshold has to lie in `[0, 1)`, tier and verbosity must not
be negative; a NaN, which is not below zero, passes as one of the latter two. -/
def make (eps redTier verbosity logFile : Value) : Except Failure Config := do
  let eps ← numberOf eps
  if !(Number.le 0 eps && eps.lt 1) then throw (.epsOutOfRange (← eps.checkedText))
  let redTier ← numberOf redTier
  if redTier.lt 0 then throw (.negativeSetting "red_tier" (← redTier.checkedText))
  let verbosity ← numberOf verbosity
  if verbosity.lt 0 then throw (.negativeSetting "verbosity" (← verbosity.checkedText))
  pure { eps, redTier, verbosity, logFile }

def keys : List String := ["eps", "red_tier", "verbosity", "log_file"]

/-- The configuration of named settings; those that are not given have their default. A name that is none
of a setting is refused. -/
def ofSettings (settings : List (String × Value)) : Except Failure Config :=
  let setting (key : String) (fallback : Value) : Value := (settings.lookup key).getD fallback
  if settings.all fun entry => keys.contains entry.1 then
    make (setting "eps" (.number defaultEps)) (setting "red_tier" (.int 0))
      (setting "verbosity" (.int 0)) (setting "log_file" .null)
  else .error .wrongType

def equal (a b : Config) : Bool :=
  a.eps.equal b.eps && a.redTier.equal b.redTier && a.verbosity.equal b.verbosity &&
    a.logFile.equal b.logFile

end Config

end ClauseFeatures
