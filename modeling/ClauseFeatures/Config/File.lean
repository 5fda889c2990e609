import ClauseFeatures.Config.Mapping
import ClauseFeatures.Text.Path
import ClauseFeatures.Yaml.Block
import ClauseFeatures.Yaml.Node

/-!
Configuration files. They are written in the subset of YAML that `Yaml.read` reads: no tags, anchors, aliases, block
scalars or merge keys, and no dates as such. An empty file is the default configuration.
-/
namespace ClauseFeatures.Config

def valueOfText (path text : String) : Except Failure Value :=
  match Yaml.read text with
  | .ok v => .ok v
  | .error .malformed => .error (.invalidFile path)
  | .error (.failure cause) => .error cause

/-- The configuration in the text of a file, whose path only serves for messages. -/
def ofText (path text : String) : Except Failure Config := do
  match ← valueOfText path text with
  | .null => ofMapping (.mapping [])
  | .mapping entries => ofMapping (.mapping entries)
  | v => throw (.rootNotMapping path v.typeName)

def toText (c : Config) : String := Yaml.write c.toMapping

/-- Saves a configuration in a file: the files afterwards, and whether it failed. The file is emptied before the
document is made, and stays empty if that fails. `files` knows the text of each file by its path without idle parts. -/
def save (c : Config) (files : String → Option String) (path : String) :
    (String → Option String) × Except Failure Unit :=
  let stored (text : String) (name : String) : Option String :=
    if name = Text.tidyPath path then some text else files name
  if Text.isPath path then
    match c.toMapping.untold? none with
    | none => (stored c.toText, .ok ())
    | some e => (stored "", .error e)
  else (files, .error .pathWithNul)

def load (files : String → Option String) (path : String) : Except Failure Config :=
  let path := Text.tidyPath path
  match files path with
  | some text => ofText path text
  | none => .error (.fileMissing path)

end ClauseFeatures.Config
