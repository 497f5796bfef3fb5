import DitaTopic.Config.Error
import DitaTopic.Toml.Document

/-!
# Configuration files

A configuration file has one table, `render`, whose entries are options under their names
in any ASCII case. All entries must give a value before any is taken up. Entries are taken
up in the order of their names as written; of two that name the same option the later
one holds.
-/

namespace DitaTopic.Config

open DitaTopic.Options

/-- The option value of an entry. -/
def optionValue (name : String) : Toml.Value → Except ConfigError OptionValue
  | .boolean b => .ok (.bool b)
  | .integer i => .ok (.int i)
  | .string s => .ok (.str s)
  | other => .error (.unsupportedType name other.typeName)

def addEntry (options : OptionSet) (entry : String × Toml.Value) :
    Except ConfigError OptionSet := do
  let value ← optionValue entry.1 entry.2
  (OptionSet.setChecked options (entry.1.map Char.toUpper) value).mapError .refused

/-- Entries in the order of their names. -/
def sortEntries (entries : List (String × Toml.Value)) : List (String × Toml.Value) :=
  entries.mergeSort fun a b => decide (a.1 ≤ b.1)

def ofTable (entries : List (String × Toml.Value)) : Except ConfigError OptionSet :=
  (sortEntries entries).foldlM addEntry KeyedList.empty

/-- The options of a file's top table: nothing, or a render table and nothing else. -/
def ofTopTable : List (String × Toml.Written) → Except ConfigError OptionSet
  | [] => .ok KeyedList.empty
  | [("render", table)] =>
    match table.entries? with
    | none => .error .malformed
    | some entries => ofTable entries
  | _ => .error .malformed

def ofText (text : String) : Except ConfigError OptionSet :=
  match Toml.parse? text with
  | none => .error .malformed
  | some entries => ofTopTable entries

end DitaTopic.Config
