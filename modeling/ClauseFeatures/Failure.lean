/-!
The causes of failure and their wording.

Every operation of this library that can be refused answers with a `Failure`. A failure states its cause;
`Failure.kind` sorts the causes, and `Failure.message` gives the text shown to the user. Values in a
message are recorded by their text. Not every value has one: an integer with too many digits is refused,
and this refusal then takes the place of the failure that was to tell it.
-/
namespace ClauseFeatures

inductive Failure.Kind
  /-- An argument was rejected at the boundary of the clause database. -/
  | validation
  /-- A configuration is malformed. -/
  | config
  /-- A computed number is infinite or not a number. -/
  | numerical
  /-- A traversal met an entry that is no clause. -/
  | contract
  /-- An argument of the right type has an unusable value. -/
  | value
  /-- An index is outside its list. -/
  | index
  /-- An argument has the wrong type. -/
  | type
  /-- A value lacks an operation that only mappings have. -/
  | attribute
  /-- A number is beyond the largest double. -/
  | overflow
  /-- A division by zero. -/
  | zeroDivision
  /-- A value is nested too deep. -/
  | recursion
deriving DecidableEq, Repr

inductive Failure
  -- Literals and watch entries.
  | negativeCode (shown : String)
  | zeroLiteral
  | binaryIncomplete
  | ternaryIncomplete
  | ternaryUnordered (first second : String)
  | longWithoutOffset
  | markerWithoutIndex
  -- Arguments at the boundary; `shown` is the text of the argument.
  | notPositive (name shown : String)
  | negative (name shown : String)
  | outOfRange (name low high shown : String)
  | notCount (name shown : String)
  | unknownVariable (name var count : String)
  | duplicates (name : String)
  | tooShort (size : Nat)
  | noSuchTier (tiers : Nat) (shown : String)
  | unallocated (shown : String)
  -- Traversal.
  | markerReached (shown literal : String)
  | unknownWatch (kind : String)
  -- Computed numbers.
  | nanValues (name : String) (count : Nat)
  | infiniteValues (name : String) (count : Nat)
  | overflow
  | zeroDivision
  | rootOfNegative
  | shapeMismatch (left right : Nat)
  | negativeLength
  | sizeOverflow
  | arrayTooLarge
  | ragged (shape : List Nat)
  -- Conversions of dynamic values.
  | notDecimal (quoted : String)
  | notInteger (quoted : String)
  | tooManyDigits (count : Nat)
  | integerTooLong
  | tooDeep
  | noCharacter
  | codeOverflow
  | emptyNumeral (base : Nat)
  | nanToInteger
  | infinityToInteger
  | noDecimalOf (type : String)
  | noIntegerOf (type : String)
  | unformattable (type : String)
  | textAsNumber
  -- Configurations.
  | epsOutOfRange (shown : String)
  | negativeSetting (name shown : String)
  | pathWithNul
  | fileMissing (path : String)
  | invalidFile (path : String)
  | rootNotMapping (path type : String)
  | sectionNotMapping (type : String)
  | unknownKeys (shown : String)
  | invalidConfig (cause : Failure)
  -- Access and typing.
  | outsideList
  | wrongType
  | notMapping
deriving DecidableEq, Repr

namespace Failure

def kind : Failure → Kind
  | negativeCode _ | zeroLiteral | binaryIncomplete | ternaryIncomplete | ternaryUnordered _ _
  | longWithoutOffset | markerWithoutIndex | rootOfNegative | shapeMismatch _ _ | negativeLength
  | notDecimal _ | notInteger _ | tooManyDigits _ | integerTooLong | noCharacter | emptyNumeral _
  | nanToInteger | textAsNumber | epsOutOfRange _ | negativeSetting _ _ | sizeOverflow
  | arrayTooLarge | ragged _ | pathWithNul => .value
  | notPositive _ _ | negative _ _ | outOfRange _ _ _ _ | notCount _ _ | unknownVariable _ _ _
  | duplicates _ | tooShort _ | noSuchTier _ _ | unallocated _ => .validation
  | markerReached _ _ | unknownWatch _ => .contract
  | nanValues _ _ | infiniteValues _ _ => .numerical
  | fileMissing _ | invalidFile _ | rootNotMapping _ _ | sectionNotMapping _ | unknownKeys _
  | invalidConfig _ => .config
  | overflow | codeOverflow | infinityToInteger => .overflow
  | zeroDivision => .zeroDivision
  | tooDeep => .recursion
  | noDecimalOf _ | noIntegerOf _ | unformattable _ | wrongType => .type
  | outsideList => .index
  | notMapping => .attribute

/-- The most digits that the text of an integer may have. -/
def digitLimit : Nat := 4300

/-- Whether an integer has too many digits to be written as text. -/
def isTooLong (n : Int) : Bool := Nat.pow 10 digitLimit ≤ n.natAbs

/-- A text that tells an integer, which may have too many digits. -/
def checked (isTooLong : Bool) (text : String) : Except Failure String :=
  if isTooLong then .error .integerTooLong else .ok text

/-- The text of an integer; a failure if it is too long. -/
def integerText (n : Int) : Except Failure String := checked (isTooLong n) (toString n)

/-- The text of a shape: the lengths in parentheses, a single one with a comma after it. -/
def shapeText : List Nat → String
  | [n] => s!"({n},)"
  | shape => "(" ++ ", ".intercalate (shape.map toString) ++ ")"

def message : Failure → String
  | negativeCode shown => s!"Literal encoding must be non-negative, got {shown}"
  | zeroLiteral => "DIMACS literal 0 is the clause terminator"
  | binaryIncomplete => "binary watch needs lit2"
  | ternaryIncomplete => "ternary watch needs lit2 and lit3"
  | ternaryUnordered first second => s!"ternary watch needs lit2 < lit3, got {first}, {second}"
  | longWithoutOffset => "clause watch needs an offset"
  | markerWithoutIndex => "index watch needs an idx"
  | notPositive name shown => s!"{name} must be positive, got {shown}"
  | negative name shown => s!"{name} must be non-negative, got {shown}"
  | outOfRange name low high shown => s!"{name} must be in [{low}, {high}], got {shown}"
  | notCount name shown => s!"{name} must be non-negative int, got {shown}"
  | unknownVariable name var count =>
    s!"{name} refers to variable {var}, but only {count} variables exist"
  | duplicates name => s!"{name} contains duplicate elements"
  | tooShort size => s!"Clauses need at least 2 literals, got {size}"
  | noSuchTier tiers shown => s!"tier must be in [0, {tiers}), got {shown}"
  | unallocated shown => s!"Clause offset {shown} was never allocated"
  | markerReached shown literal =>
    s!"Index marker {shown} found in watch list of {literal} during clause iteration"
  | unknownWatch kind => s!"Unknown watch type {kind}"
  | nanValues name count => s!"{name} contains {count} NaN values"
  | infiniteValues name count => s!"{name} contains {count} Inf values"
  | overflow => "number too large for a double"
  | zeroDivision => "division by zero"
  | rootOfNegative => "math domain error"
  | shapeMismatch left right =>
    s!"operands could not be broadcast together with shapes {shapeText [left]} {shapeText [right]} "
  | negativeLength => "negative dimensions are not allowed"
  | sizeOverflow => "Maximum allowed dimension exceeded"
  | arrayTooLarge =>
    "array is too big; `arr.size * arr.dtype.itemsize` is larger than the maximum possible size."
  | ragged shape =>
    s!"setting an array element with a sequence. The requested array has an inhomogeneous shape " ++
      s!"after {shape.length} dimensions. The detected shape was {shapeText shape} + " ++
      "inhomogeneous part."
  | notDecimal quoted => s!"could not convert string to float: {quoted}"
  | notInteger quoted => s!"invalid literal for int() with base 10: {quoted}"
  | tooManyDigits count =>
    s!"Exceeds the limit (4300 digits) for integer string conversion: value has {count} digits; " ++
      "use sys.set_int_max_str_digits() to increase the limit"
  | integerTooLong =>
    "Exceeds the limit (4300 digits) for integer string conversion; use " ++
      "sys.set_int_max_str_digits() to increase the limit"
  | tooDeep => "nested too deep for a text"
  | noCharacter => "chr() arg not in range(0x110000)"
  | codeOverflow => "number too large for a code point"
  | emptyNumeral base => s!"invalid literal for int() with base {base}: ''"
  | nanToInteger => "cannot convert float NaN to integer"
  | infinityToInteger => "cannot convert float infinity to integer"
  | noDecimalOf type => s!"float() argument must be a string or a real number, not '{type}'"
  | noIntegerOf type =>
    s!"int() argument must be a string, a bytes-like object or a real number, not '{type}'"
  | unformattable type => s!"unsupported format string passed to {type}.__format__"
  | textAsNumber => "Unknown format code 'f' for object of type 'str'"
  | epsOutOfRange shown => s!"eps must be in [0, 1), got {shown}"
  | negativeSetting name shown => s!"{name} must be non-negative, got {shown}"
  | pathWithNul => "embedded null byte"
  | fileMissing path => s!"Config file not found: {path}"
  | invalidFile path => s!"Invalid YAML in {path}"
  | rootNotMapping path type => s!"Config root in {path} must be a mapping, got {type}"
  | sectionNotMapping type => s!"Config section 'features' must be a mapping, got {type}"
  | unknownKeys shown => s!"Unknown config keys: {shown}"
  | invalidConfig cause => "Invalid config: " ++ cause.message
  | outsideList => "index outside the list"
  | wrongType => "wrong type"
  | notMapping => "not a mapping"

end Failure

end ClauseFeatures
