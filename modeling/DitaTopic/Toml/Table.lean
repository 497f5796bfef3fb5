import DitaTopic.Toml.Written

/-!
# TOML tables under construction

What the lines of a file may do to the tables built so far. A table comes about in one
of three ways: by its own header, by the header of a table below it, or by a dotted key.
A header may be given once, and not to a table that a dotted key made or led through. A
dotted key does not extend a table that has a header, but it may lead through the last
table of an array to those below. Arrays and inline tables are complete as they are
written.
-/

namespace DitaTopic.Toml

/-- How a table came about. -/
inductive Origin where
  /-- By the header of a table below it. -/
  | implied
  /-- By its own header. -/
  | header
  /-- By a dotted key, or first by a header below it and then extended by a dotted key. -/
  | dotted
  deriving Repr, DecidableEq

/-- What a key of a table under construction stands for. -/
inductive Item where
  /-- A value that is complete. -/
  | value (w : Written)
  | table (origin : Origin) (entries : List (String × Item))
  /-- An array of tables given by headers, last one first. -/
  | tables (elements : List (List (String × Item)))
  deriving Inhabited

/-- The entries of a table under construction. -/
abbrev Entries := List (String × Item)

namespace Entries

def get? (es : Entries) (key : String) : Option Item := (es.find? fun e => e.1 == key).map Prod.snd

/-- Replaces the item of a key, or adds it at the end. -/
def put (es : Entries) (key : String) (item : Item) : Entries :=
  if (es.get? key).isSome then es.map fun e => if e.1 == key then (key, item) else e
  else es ++ [(key, item)]

/-- Adds an item under a dotted key. -/
def assign (item : Item) : List String → Entries → Option Entries
  | [], _ => none
  | [key], es => if (es.get? key).isSome then none else some (es.put key item)
  | key :: next :: rest, es =>
    match es.get? key with
    | none => (assign item (next :: rest) []).map fun sub => es.put key (.table .dotted sub)
    | some (.table origin sub) =>
      if origin = .header then none
      else (assign item (next :: rest) sub).map fun sub => es.put key (.table .dotted sub)
    | some (.tables (last :: before)) =>
      if rest.isEmpty then none
      else (assign item (next :: rest) last).map fun last => es.put key (.tables (last :: before))
    | some _ => none

/-- Changes the table that a header names, given what is to be done with the last key of its name
in the table above. -/
def descend (f : String → Entries → Option Entries) : List String → Entries → Option Entries
  | [], _ => none
  | [key], es => f key es
  | key :: next :: rest, es =>
    match es.get? key with
    | none => (descend f (next :: rest) []).map fun sub => es.put key (.table .implied sub)
    | some (.table origin sub) =>
      (descend f (next :: rest) sub).map fun sub => es.put key (.table origin sub)
    | some (.tables (last :: before)) =>
      (descend f (next :: rest) last).map fun last => es.put key (.tables (last :: before))
    | some _ => none

def openTable : List String → Entries → Option Entries :=
  descend fun key es =>
    match es.get? key with
    | none => some (es.put key (.table .header []))
    | some (.table .implied sub) => some (es.put key (.table .header sub))
    | some _ => none

/-- Adds a table to the array of a header. -/
def openElement : List String → Entries → Option Entries :=
  descend fun key es =>
    match es.get? key with
    | none => some (es.put key (.tables [[]]))
    | some (.tables elements) => some (es.put key (.tables ([] :: elements)))
    | some _ => none

/-- Adds an item under a dotted key in the table of the current header. -/
def assignIn (header path : List String) (item : Item) (es : Entries) : Option Entries :=
  if header.isEmpty then assign item path es
  else
    descend (fun key es =>
      match es.get? key with
      | some (.table origin sub) =>
        (assign item path sub).map fun sub => es.put key (.table origin sub)
      | some (.tables (last :: before)) =>
        (assign item path last).map fun last => es.put key (.tables (last :: before))
      | _ => none) header es

end Entries

mutual

/-- What an item amounts to once it is complete. -/
def Item.written : Item → Written
  | .value w => w
  | .table _ entries => .table (Item.writtenEntries entries)
  | .tables elements => .array (Item.writtenTables elements).reverse

/-- What the entries of a table amount to. -/
def Item.writtenEntries : List (String × Item) → List (String × Written)
  | [] => []
  | (key, item) :: rest => (key, item.written) :: Item.writtenEntries rest

/-- What the tables of an array amount to. -/
def Item.writtenTables : List (List (String × Item)) → List Written
  | [] => []
  | entries :: rest => .table (Item.writtenEntries entries) :: Item.writtenTables rest

end

end DitaTopic.Toml
