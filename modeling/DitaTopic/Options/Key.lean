import DitaTopic.Options.View

/-!
# Option keys

A key names one option, fixes the type it is read at and says what it falls back
to: a constant, or the resolved value of another key of the same type. Reading a
key never fails; a stored value of another type counts as absent.
-/

namespace DitaTopic.Options

/-- A typed option name with its default. -/
inductive OptionKey (α : Type) where
  | constant (name : String) (value : OptionValue)
  /-- The default is whatever `parent` resolves to. -/
  | inherit (name : String) (parent : OptionKey α)

namespace OptionKey

variable {α : Type}

def name : OptionKey α → String
  | constant name _ => name
  | inherit name _ => name

/-- The kind that untyped input for this key must have. -/
def kind [OptionType α] (_ : OptionKey α) : ValueKind := OptionType.kind α

/-- The typed value that a view holds under `name`, if it holds one. -/
def explicit? [OptionType α] (view : OptionView) (name : String) : Option α :=
  (view.lookup name).bind OptionType.ofValue?

/-- The value of a key in a view. -/
def resolve [OptionType α] (view : OptionView) : OptionKey α → α
  | constant name value =>
    (explicit? view name).getD ((OptionType.ofValue? value).getD OptionType.fallback)
  | inherit name parent => (explicit? view name).getD (parent.resolve view)

/-- The names consulted for a key, from the key itself to the end of its inheritance. -/
def names : OptionKey α → List String
  | constant name _ => [name]
  | inherit name parent => name :: parent.names

end OptionKey

/-- Stores a typed value under a key's name. -/
def OptionSet.set {α : Type} [OptionType α] (options : OptionSet) (key : OptionKey α) (value : α) :
    OptionSet :=
  options.insert key.name (OptionType.toValue value)

end DitaTopic.Options
