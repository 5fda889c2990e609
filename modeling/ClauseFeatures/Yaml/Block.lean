import ClauseFeatures.Yaml.Style

/-!
Writing values as YAML documents.

Every entry of a mapping and every item of a list has its own line; what is nested is indented by two
spaces, except that the dashes of a list under a key stand right below the key. Empty collections are
written with brackets.
-/
namespace ClauseFeatures.Yaml

/-- How much deeper what is nested is indented. -/
def indentStep : Nat := 2

/-- The length from which on a key is marked by a question mark. -/
def keyLimit : Nat := 123

def newLine (indent : Nat) : List Char := '\n' :: indentation indent

/-- Whether a code point is a character that ends a line. -/
def isCodeBreak (code : Text.Code) : Bool := code.char?.any isBreak

/-- Whether a key can stand before its colon without a mark: it is short and stays on its line. -/
def isSimpleKey (key : Value) : Bool :=
  match key with
  | .list _ | .mapping _ => false
  | _ =>
    match key.codes? with
    | some cs => !cs.isEmpty && !cs.any isCodeBreak && decide (cs.length < keyLimit)
    | none => true

mutual

/-- Writes a value from a column on. What is nested begins on the same line and keeps to the column;
further lines of a scalar are indented by `indent`. -/
def writeAt (indent column : Nat) (folds : Bool) : Value → List Char
  | .null => "null".toList
  | .number n => writeNumber n
  | .text s => writeText indent folds column s.toList
  | .rawText cs => writeDouble indent folds column cs
  | .list items => if items.isEmpty then ['[', ']'] else writeItems column items
  | .mapping entries => if entries.isEmpty then ['\x7b', '\x7d'] else writeEntries column entries

def writeItems (indent : Nat) : List Value → List Char
  | [] => []
  | item :: items =>
    ['-', ' '] ++ writeAt (indent + indentStep) (indent + indentStep) true item ++
      if items.isEmpty then [] else newLine indent ++ writeItems indent items

def writeEntries (indent : Nat) : List (Value × Value) → List Char
  | [] => []
  | (key, value) :: entries =>
    let inner := indent + indentStep
    let written :=
      if isSimpleKey key then
        let name := writeAt inner indent false key ++ [':']
        name ++
          match value with
          | .list (_ :: _) => newLine indent ++ writeAt inner indent true value
          | .mapping (_ :: _) => newLine inner ++ writeAt inner inner true value
          | _ => ' ' :: writeAt inner (indent + name.length + 1) true value
      else
        ['?', ' '] ++ writeAt inner inner true key ++ newLine indent ++
          [':', ' '] ++ writeAt inner inner true value
    written ++ if entries.isEmpty then [] else newLine indent ++ writeEntries indent entries

end

def write (v : Value) : String := String.ofList (writeAt indentStep 0 true v ++ ['\n'])

end ClauseFeatures.Yaml
