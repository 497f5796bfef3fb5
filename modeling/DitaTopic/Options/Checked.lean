import DitaTopic.Options.Schema

/-!
# Checked option sets

Options given by name and untyped value, as files and callers give them, enter a
set only if the schema knows the name and accepts the value.
-/

namespace DitaTopic.Options

/-- Why an untyped option was refused. -/
inductive OptionError where
  | unknown (name : String)
  /-- The schema expects another kind of value under this name. -/
  | kindMismatch (name : String) (expected : ValueKind)
  deriving Repr, DecidableEq

namespace OptionSet

/-- Stores a value if the schema has the name and accepts the value. -/
def setChecked (options : OptionSet) (name : String) (value : OptionValue) :
    Except OptionError OptionSet :=
  match schemaKey? name with
  | none => .error (.unknown name)
  | some key =>
    if key.kind.accepts value then .ok (options.insert name value)
    else .error (.kindMismatch name key.kind)

/-- Stores the values one after the other; the first refusal is the answer. -/
def ofChecked (values : List (String × OptionValue)) : Except OptionError OptionSet :=
  values.foldlM (fun acc p => setChecked acc p.1 p.2) KeyedList.empty

end OptionSet

end DitaTopic.Options
