import DitaTopic.Toml.Moment
import DitaTopic.Toml.Value

/-!
# TOML values as they are written

What a file writes down as a value need not give one: a number may be out of range or no
number at all. A table whose least key is the reserved one gives a point in time, which
the string under that key spells; its other entries are not looked at. Conversely a
point in time that is asked for its entries has a single one, under the reserved key.
-/

namespace DitaTopic.Toml

/-- A value as it is written. -/
inductive Written where
  | string (text : String)
  | integer (spelling : IntegerSpelling)
  | float (spelling : FloatSpelling)
  | boolean (value : Bool)
  | datetime (spelling : String)
  | array (items : List Written)
  | table (entries : List (String × Written))
  deriving Repr, Inhabited

namespace Written

/-- The key under which a table spells a point in time. -/
def momentKey : String := "$__toml_private_datetime"

/-- What is written under the reserved key, if no other key of the table is less. -/
def momentEntry? (entries : List (String × Written)) : Option Written :=
  if entries.all fun e => decide (momentKey ≤ e.1) then
    (entries.find? fun e => e.1 == momentKey).map Prod.snd
  else none

/-- The point in time that a string spells. -/
def moment? : Written → Option Value
  | string text => if isMoment text.toList then some (.datetime text) else none
  | _ => none

mutual

/-- The value that is written, or nothing if a number in it is none or a table in it fails to spell
a point in time. -/
def value? : Written → Option Value
  | string text => some (.string text)
  | integer spelling => spelling.value?.map .integer
  | float spelling => if spelling.inRange then some (.float spelling) else none
  | boolean b => some (.boolean b)
  | datetime spelling => some (.datetime spelling)
  | array items => (itemValues? items).map .array
  | table entries =>
    match momentEntry? entries with
    | some w => w.moment?
    | none => (entryValues? entries).map .table

/-- The values of an array's items, if all of them give one. -/
def itemValues? : List Written → Option (List Value)
  | [] => some []
  | w :: rest => do
    let v ← w.value?
    let vs ← itemValues? rest
    some (v :: vs)

/-- The values of a table's entries, if all of them give one. -/
def entryValues? : List (String × Written) → Option (List (String × Value))
  | [] => some []
  | (key, w) :: rest => do
    let v ← w.value?
    let vs ← entryValues? rest
    some ((key, v) :: vs)

end

/-- The entries of what is read as a table. -/
def entries? : Written → Option (List (String × Value))
  | table entries => entryValues? entries
  | datetime spelling => some [(momentKey, .string spelling)]
  | _ => none

end Written

end DitaTopic.Toml
