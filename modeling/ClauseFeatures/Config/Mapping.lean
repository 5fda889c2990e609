import ClauseFeatures.Config.Basic
import ClauseFeatures.Text.Numeral
import ClauseFeatures.Value.Order

/-!
Configurations as mappings.

The settings stand in a mapping, or in one under the key `features`. Numbers may be given as text. A
mapping that is no configuration is refused; a number that is too large for the conversion asked of it
is refused as such and not as a malformed configuration.
-/
namespace ClauseFeatures.Config

def decimalOf (v : Value) : Except Failure Float :=
  match v with
  | .number n => n.toDouble
  | _ =>
    match v.codes? with
    | some cs => Text.readDecimal cs
    | none => .error (.noDecimalOf v.typeName)

/-- The integer that a value stands for; the places of a double after the point are dropped. -/
def integerOf (v : Value) : Except Failure Int :=
  match v with
  | .number (.int n) => .ok n
  | .number (.truth b) => .ok (if b then 1 else 0)
  | .number (.real x) =>
    match Double.truncate? x with
    | some n => .ok n
    | none => .error (if x.isNaN then .nanToInteger else .infinityToInteger)
  | _ =>
    match v.codes? with
    | some cs => Text.readInteger cs
    | none => .error (.noIntegerOf v.typeName)

def sectionOf (entries : List (Value × Value)) : Except Failure (List (Value × Value)) :=
  match Value.lookup "features" entries with
  | none => .ok entries
  | some (.mapping inner) => .ok inner
  | some v => .error (.sectionNotMapping v.typeName)

/-- Refuses keys that name no setting, telling them in ascending order. -/
def checkKeys (entries : List (Value × Value)) : Except Failure Unit := do
  let unknown := (entries.map Prod.fst).filter fun key => !keys.any fun k => key.equal (.text k)
  if unknown.isEmpty then pure ()
  else do
    let ordered ← Value.sorted unknown
    throw (.unknownKeys (← (Value.list ordered).quoted))

def ofSection (entries : List (Value × Value)) : Except Failure Config := do
  let setting (key : String) (fallback : Value) : Value := (Value.lookup key entries).getD fallback
  let eps ← decimalOf (setting "eps" (.number defaultEps))
  let redTier ← integerOf (setting "red_tier" (.int 0))
  let verbosity ← integerOf (setting "verbosity" (.int 0))
  make (.real eps) (.int redTier) (.int verbosity) (setting "log_file" .null)

/-- Reports a failure of type or value as a malformed configuration. -/
def asInvalid (e : Failure) : Failure :=
  match e.kind with
  | .type | .value => .invalidConfig e
  | _ => e

def ofMapping (v : Value) : Except Failure Config := do
  let entries ←
    match v with
    | .mapping entries => pure entries
    | _ => throw .notMapping
  let settings ← sectionOf entries
  checkKeys settings
  (ofSection settings).mapError asInvalid

def toMapping (c : Config) : Value :=
  .mapping [(.text "features", .mapping [
    (.text "eps", .number c.eps),
    (.text "red_tier", .number c.redTier),
    (.text "verbosity", .number c.verbosity),
    (.text "log_file", c.logFile)])]

end ClauseFeatures.Config
