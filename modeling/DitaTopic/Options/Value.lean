/-!
# Option values

The values a rendering option may hold, the kinds that untyped input is checked
against, and the types an option is read at.
-/

namespace DitaTopic.Options

/-- A value stored under an option name. `null` is an explicitly unset string. -/
inductive OptionValue where
  | bool (b : Bool)
  | int (i : Int)
  | str (s : String)
  | null
  deriving Repr, DecidableEq, Inhabited

/-- The kind of values an option accepts. -/
inductive ValueKind where
  | bool
  | int
  | str
  deriving Repr, DecidableEq, Inhabited

namespace ValueKind

/-- The kind as it is named in messages. -/
def name : ValueKind → String
  | bool => "boolean"
  | int => "integer"
  | str => "string"

/-- Whether a value may be stored under an option of this kind. A string option may be unset. -/
def accepts : ValueKind → OptionValue → Bool
  | bool, .bool _ => true
  | int, .int _ => true
  | str, .str _ => true
  | str, .null => true
  | _, _ => false

end ValueKind

/-- Types at which an option can be read and stored. -/
class OptionType (α : Type) where
  /-- The kind that untyped input for such an option must have. -/
  kind : ValueKind
  /-- The typed content of a stored value; `none` if the value has another type. -/
  ofValue? : OptionValue → Option α
  /-- The stored form of a typed value. -/
  toValue : α → OptionValue
  /-- What an option reads as when not even its default has this type. -/
  fallback : α

instance : OptionType Bool where
  kind := .bool
  ofValue?
    | .bool b => some b
    | _ => none
  toValue := .bool
  fallback := false

instance : OptionType Int where
  kind := .int
  ofValue?
    | .int i => some i
    | _ => none
  toValue := .int
  fallback := 0

instance : OptionType String where
  kind := .str
  ofValue?
    | .str s => some s
    | _ => none
  toValue := .str
  fallback := ""

instance : OptionType (Option String) where
  kind := .str
  ofValue?
    | .str s => some (some s)
    | .null => some none
    | _ => none
  toValue
    | some s => .str s
    | none => .null
  fallback := none

end DitaTopic.Options
