import DitaTopic.Options.Checked

/-!
# Configuration errors

Why a configuration could not be had.
-/

namespace DitaTopic.Config

open DitaTopic.Options

/-- Why a configuration could not be had. -/
inductive ConfigError where
  /-- There is nothing at the path that was given. -/
  | notFound (path : String)
  /-- What is at the path cannot be read as a text. -/
  | unreadable
  /-- The text is no TOML, or TOML of another shape. -/
  | malformed
  /-- The schema refuses an option. -/
  | refused (cause : OptionError)
  /-- No option has values of this type. -/
  | unsupportedType (name typeName : String)
  deriving Repr, DecidableEq

def optionMessage : OptionError → String
  | .unknown name => "Unknown option: " ++ name
  | .kindMismatch name expected =>
    "Configuration error: " ++ name.map Char.toLower ++ " expects a " ++ expected.name ++ " value"

/-- The text of the error, where it has one of its own. -/
def ConfigError.message? : ConfigError → Option String
  | notFound path => some ("Configuration file not found: " ++ path)
  | unreadable => none
  | malformed => none
  | refused cause => some (optionMessage cause)
  | unsupportedType name typeName =>
    some ("Configuration error: " ++ name ++ " has unsupported value type " ++ typeName)

end DitaTopic.Config
