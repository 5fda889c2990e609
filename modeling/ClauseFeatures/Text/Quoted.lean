import ClauseFeatures.Text.Code
import ClauseFeatures.Text.Printable

/-!
Quoted text: how a text appears inside messages and log lines.

The text stands between single quotes, or between double quotes if it holds a single quote and no double
quote. The backslash, the enclosing quote, every character that is not printable and every surrogate are
escaped, so a quoted text never contains a line break.
-/
namespace ClauseFeatures.Text

/-- The lower-case hexadecimal digits of a number, filled up with zeros to a width. -/
def hexText (width n : Nat) : List Char :=
  let digits := Nat.toDigits 16 n
  List.replicate (width - digits.length) '0' ++ digits

def enclosingQuote (cs : List Code) : Char :=
  if cs.contains (.char '\x27') && !cs.contains (.char '"') then '"' else '\x27'

def escaped (quote c : Char) : List Char :=
  if c == quote || c == '\x5C' then ['\x5C', c]
  else if c == '\t' then ['\x5C', 't']
  else if c == '\n' then ['\x5C', 'n']
  else if c == '\r' then ['\x5C', 'r']
  else if isPrintable c then [c]
  else if c.toNat < 0x100 then '\x5C' :: 'x' :: hexText 2 c.toNat
  else if c.toNat < 0x10000 then '\x5C' :: 'u' :: hexText 4 c.toNat
  else '\x5C' :: 'U' :: hexText 8 c.toNat

def escapedCode (quote : Char) : Code → List Char
  | .char c => escaped quote c
  | .surrogate offset => '\x5C' :: 'u' :: hexText 4 (Code.firstSurrogate + offset)

def quotedCodes (cs : List Code) : List Char :=
  let quote := enclosingQuote cs
  quote :: (cs.flatMap (escapedCode quote) ++ [quote])

def quoted (s : String) : String := String.ofList (quotedCodes (Code.ofString s))

end ClauseFeatures.Text
