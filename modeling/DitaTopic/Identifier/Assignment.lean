import DitaTopic.Document.Basic
import DitaTopic.Identifier.Slug
import DitaTopic.Options.Schema

/-!
# Heading identifiers

Identifiers are assigned in one pass over a document before anything is written, so
that collisions are settled in document order. An identifier given in the source is
kept. Any other heading takes the slug of its text, or the first of the slug, the slug
with `-1`, with `-2` and so on that is still free; a heading without a slug gets none.
Every identifier given in the source counts as taken from the start.
-/

namespace DitaTopic.Identifier

open DitaTopic.Options

/-- Identifiers by node, in the order in which they were assigned. -/
abbrev Assignment := KeyedList Nat String

/-- How heading identifiers are made. -/
structure HeadingRule where
  slug : SlugRule
  /-- Whether a generated identifier steps around those already taken. -/
  distinct : Bool
  deriving Repr, DecidableEq

def HeadingRule.ofView (view : OptionView) : HeadingRule where
  slug :=
    { dashChars := (Key.headerIdToDashChars.resolve view).toList
      collapse := Key.headerIdNoDupedDashes.resolve view }
  distinct := Key.headerIdResolveDupes.resolve view

/-- The candidate number `n` for a slug: the slug itself, then the slug with a number. -/
def candidate (base : String) : Nat → String
  | 0 => base
  | n + 1 => base ++ "-" ++ toString (n + 1)

/-- The first candidate from number `n` on that is not taken, among the next `fuel + 1`. -/
def firstFreeFrom (taken : List String) (base : String) : Nat → Nat → String
  | 0, n => candidate base n
  | fuel + 1, n =>
    if candidate base n ∈ taken then firstFreeFrom taken base fuel (n + 1) else candidate base n

/-- The first candidate that is not taken. Candidates differ from each other, so one of the first
`taken.length + 1` is free. -/
def firstFree (taken : List String) (base : String) : String :=
  firstFreeFrom taken base taken.length 0

/-- A pass over a document: what is taken and what has been assigned. -/
structure Pass where
  taken : List String
  assigned : Assignment

namespace HeadingRule

/-- The identifier of a heading, given the identifiers taken before it. -/
def identify (rule : HeadingRule) (taken : List String) (text : String) : Option String :=
  let base := rule.slug.slug text
  if base.isEmpty then none
  else some (if rule.distinct then firstFree taken base else base)

def visit (rule : HeadingRule) (doc : Document) (pass : Pass) (id : Nat) : Pass :=
  match doc.kind? id with
  | some (.heading _ (some written)) => { pass with assigned := pass.assigned.insert id written }
  | some (.heading _ none) =>
    match rule.identify pass.taken (doc.textContent id) with
    | none => pass
    | some made => ⟨made :: pass.taken, pass.assigned.insert id made⟩
  | _ => pass

end HeadingRule

/-- The identifiers that the source of a document gives to its headings. -/
def writtenIds (doc : Document) : List String :=
  doc.preorder.filterMap fun id =>
    match doc.kind? id with
    | some (.heading _ written) => written
    | _ => none

/-- The identifiers of a document's headings. -/
def assignHeadings (rule : HeadingRule) (doc : Document) : Assignment :=
  (doc.preorder.foldl (rule.visit doc) ⟨writtenIds doc, KeyedList.empty⟩).assigned

/-- Something that assigns identifiers to the nodes of one document after the other. -/
structure Assigner where
  assign : Document → Assignment

def Assigner.none : Assigner := ⟨fun _ => KeyedList.empty⟩

/-- Assigns heading identifiers by the options of a view. -/
def Assigner.headings (view : OptionView) : Assigner := ⟨assignHeadings (HeadingRule.ofView view)⟩

/-- Gives every node `stem` followed by its number in document order. -/
def Assigner.numbered (stem : String) : Assigner :=
  ⟨fun doc => (doc.preorder.zipIdx).foldl (fun m p => m.insert p.1 (stem ++ toString p.2))
    KeyedList.empty⟩

/-- A heading generator: its rule and the identifiers of the last document it was run on. -/
structure HeadingGenerator where
  rule : HeadingRule
  ids : Assignment

namespace HeadingGenerator

/-- A generator that has not been run. -/
def ofView (view : OptionView) : HeadingGenerator := ⟨HeadingRule.ofView view, KeyedList.empty⟩

/-- Runs the generator on a document; what it held before is forgotten. -/
def run (g : HeadingGenerator) (doc : Document) : HeadingGenerator :=
  { g with ids := assignHeadings g.rule doc }

end HeadingGenerator

end DitaTopic.Identifier
