/-!
Paths as text. Parts are separated by slashes; empty parts and parts that name the directory itself carry
no meaning.
-/
namespace ClauseFeatures.Text

/-- The parts of a text between separators, one more than there are separators. -/
def cut (separator : Char) : List Char → List (List Char)
  | [] => [[]]
  | c :: cs =>
    match cut separator cs with
    | [] => [[c]]
    | part :: parts => if c = separator then [] :: part :: parts else (c :: part) :: parts

/-- Whether a text can be the path of a file: no path has a NUL in it. -/
def isPath (s : String) : Bool := !s.toList.contains '\x00'

/-- The slashes that a path starts from the root with: two stay two, all other numbers become one. -/
def rootOf (cs : List Char) : List Char :=
  match (cs.takeWhile (· = '/')).length with
  | 0 => []
  | 2 => ['/', '/']
  | _ => ['/']

def pathParts (s : String) : List (List Char) :=
  (cut '/' s.toList).filter fun part => part ≠ [] && part ≠ ['.']

/-- A path without idle parts; the directory itself is a single dot. -/
def tidyPath (s : String) : String :=
  let tidy := rootOf s.toList ++ ['/'].intercalate (pathParts s)
  if tidy.isEmpty then "." else String.ofList tidy

/-- Goes on to the next part of a path. Two dots lead to the parent, which the root is of itself. -/
def walk (walked : List (List Char)) (part : List Char) : List (List Char) :=
  if part = ['.', '.'] then walked.dropLast else walked ++ [part]

/-- The file that a name leads to from a directory: its path from the root, without steps to a parent. -/
def resolvePath (directory name : String) : String :=
  let start := if (rootOf name.toList).isEmpty then pathParts directory else []
  String.ofList ('/' :: ['/'].intercalate ((start ++ pathParts name).foldl walk []))

end ClauseFeatures.Text
