import DitaTopic.Toml.Number

/-!
# TOML values

A value that a TOML file gives. Floats and points in time keep their spelling, which is
all that is needed to tell them apart from the other types.
-/

namespace DitaTopic.Toml

/-- A TOML value. -/
inductive Value where
  | string (text : String)
  | integer (value : Int)
  | float (spelling : FloatSpelling)
  | boolean (value : Bool)
  | datetime (spelling : String)
  | array (items : List Value)
  | table (entries : List (String × Value))
  deriving Repr, Inhabited

def Value.typeName : Value → String
  | string _ => "string"
  | integer _ => "integer"
  | float _ => "float"
  | boolean _ => "boolean"
  | datetime _ => "datetime"
  | array _ => "array"
  | table _ => "table"

end DitaTopic.Toml
