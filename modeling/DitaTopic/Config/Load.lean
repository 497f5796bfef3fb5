import DitaTopic.Config.File
import DitaTopic.Config.FileTree

/-!
# Loading a configuration

A configuration comes from the file that was asked for, or else from the nearest
configuration file in the current directory or above it, or else it is empty. Overrides
lie over what the file says.
-/

namespace DitaTopic.Config

open DitaTopic.Options

def fileName : String := "mdita.toml"

/-- Options with the path of the file they came from, if they came from one. -/
structure Configuration where
  options : OptionSet
  path : Option String

def readText : FileEntry → Except ConfigError String
  | .directory => .error .unreadable
  | .locked => .error .unreadable
  | .file bytes =>
    match String.fromUTF8? bytes with
    | some text => .ok text
    | none => .error .unreadable

def ofEntry (path : String) (entry : FileEntry) : Except ConfigError Configuration := do
  let options ← ofText (← readText entry)
  pure ⟨options, some path⟩

/-- The directory itself and those above it, nearest first. -/
def ancestors (directory : List String) : List (List String) :=
  (List.range (directory.length + 1)).map fun n => directory.take (directory.length - n)

/-- The nearest configuration file, with its location. There is none outside the tree. -/
def discover (tree : FileTree) : Place → Option (List String × FileEntry)
  | .inside directory =>
    (ancestors directory).findSome? fun d =>
      let location := d ++ [fileName]
      (tree.find? location).map fun entry => (location, entry)
  | _ => none

def loadFile (tree : FileTree) (directory : Place) :
    Option String → Except ConfigError Configuration
  | some path =>
    match (resolvePath? tree directory path).bind (Place.entry? tree) with
    | none => .error (.notFound path)
    | some entry => ofEntry path entry
  | none =>
    match discover tree directory with
    | none => .ok ⟨KeyedList.empty, none⟩
    | some (location, entry) => ofEntry ("/".intercalate location) entry

/-- The configuration at a path or, without one, the nearest, with overrides over it. -/
def load (tree : FileTree) (directory : Place) (path : Option String)
    (overrides : Option OptionSet) : Except ConfigError Configuration := do
  let config ← loadFile tree directory path
  match overrides with
  | none => pure config
  | some overrides => pure { config with options := config.options.extend overrides }

end DitaTopic.Config
