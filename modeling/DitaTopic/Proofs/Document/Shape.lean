import DitaTopic.Document.Event
import DitaTopic.Proofs.Document.Tree
import Mathlib.Data.List.Chain

/-!
# Trees written as events

A tree of kinds, and the stream of events that a markdown parser would report for it. `Recut`
relates the streams that differ in the parts of their texts only. A tree is in normal form if, as
far as its kinds, its leaves and the texts that follow each other are concerned, it is one that
reading events can give.
-/

namespace DitaTopic.Document

/-- The kinds of a tree's nodes, without the numbers of the nodes. -/
inductive Shape where
  | node (kind : NodeKind) (children : List Shape)

namespace Shape

def kind : Shape → NodeKind
  | node kind _ => kind

def isText (s : Shape) : Bool := s.kind.type == .text

@[elab_as_elim, induction_eliminator]
theorem induction {motive : Shape → Prop}
    (node : ∀ kind children, (∀ s ∈ children, motive s) → motive (node kind children)) :
    ∀ s, motive s
  | .node kind children => node kind children fun s _ => induction node s

end Shape

mutual
def Tree.shape : Tree → Shape
  | .node _ kind children => .node kind (shapes children)

def Tree.shapes : List Tree → List Shape
  | [] => []
  | t :: rest => t.shape :: shapes rest
end

theorem Tree.shapes_eq (ts : List Tree) : Tree.shapes ts = ts.map Tree.shape := by
  induction ts with
  | nil => rfl
  | cons t rest ih => rw [shapes, ih, List.map_cons]

/-- The tag of a custom node that may have children. -/
def customTag? (name literal : String) : Option Tag :=
  match name with
  | "footnote-definition" => some (.footnoteDefinition literal)
  | "definition-list" => some .definitionList
  | "definition-list-title" => some .definitionListTitle
  | "definition-list-definition" => some .definitionListDefinition
  | "superscript" => some .superscript
  | "subscript" => some .subscript
  | _ => none

/-- The event of a custom node without children. -/
def customEvent? (name literal : String) : Option MarkdownEvent :=
  match name with
  | "inline-math" => some (.inlineMath literal)
  | "display-math" => some (.displayMath literal)
  | "footnote-reference" => some (.footnoteReference literal)
  | "task-list-marker" => some (.taskMarker (literal == "x"))
  | _ => none

namespace NodeKind

/-- The tag that opens a node of a kind. -/
def tag? : NodeKind → Option Tag
  | paragraph => some .paragraph
  | heading level id => some (.heading level id)
  | blockQuote => some .blockQuote
  | codeBlock info _ => some (.codeBlock info)
  | htmlBlock _ => some .htmlBlock
  | list start => some (.list start)
  | item => some .item
  | table alignments => some (.table alignments)
  | tableHead => some .tableHead
  | tableRow => some .tableRow
  | tableCell => some .tableCell
  | emphasis => some .emphasis
  | strong => some .strong
  | strikethrough => some .strikethrough
  | link url title => some (.link url title)
  | image url title => some (.image url title)
  | custom name literal => customTag? name literal
  | _ => none

/-- The event that stands for a whole node of a kind. -/
def event? : NodeKind → Option MarkdownEvent
  | text content => some (.text content)
  | code content => some (.code content)
  | inlineHtml content => some (.inlineHtml content)
  | softBreak => some .softBreak
  | hardBreak => some .hardBreak
  | thematicBreak => some .rule
  | custom name literal => customEvent? name literal
  | _ => none

/-- The text that a code block or an HTML block holds. -/
def literal? : NodeKind → Option String
  | codeBlock _ literal => some literal
  | htmlBlock literal => some literal
  | _ => none

/-- The kinds of the nodes below the root that a stream of events can give. -/
def IsRead : NodeKind → Prop
  | document => False
  | heading level _ => 1 ≤ level ∧ level ≤ 6
  | custom name literal =>
    name ∈ ["inline-math", "display-math", "footnote-reference", "footnote-definition"] ∨
    name = "task-list-marker" ∧ literal ∈ ["x", " "] ∨
    name ∈ ["definition-list", "definition-list-title", "definition-list-definition",
      "superscript", "subscript"] ∧ literal = ""
  | _ => True

/-- Whether nodes of a kind have no children in a tree that was read from events. -/
def isClosed (kind : NodeKind) : Bool := kind.event?.isSome || kind.literal?.isSome

end NodeKind

namespace Shape

/-- No two texts follow each other. -/
def Apart (shapes : List Shape) : Prop :=
  shapes.IsChain fun s t => (s.isText && t.isText) = false

/-- A tree below the root in normal form. -/
inductive Normal : Shape → Prop where
  | node {kind : NodeKind} {children : List Shape} (read : kind.IsRead)
      (closed : kind.isClosed = true → children = []) (apart : Apart children)
      (below : ∀ s ∈ children, Normal s) : Normal (.node kind children)

/-- A whole tree in normal form: its root, and nothing else, is a document node. -/
inductive NormalRoot : Shape → Prop where
  | node {children : List Shape} (apart : Apart children) (below : ∀ s ∈ children, Normal s) :
      NormalRoot (.node .document children)

mutual
/-- The events of a tree. A container stands between its start and its end, and so does the text of
a block; a leaf is one event. The root has no events of its own. -/
def events : Shape → List MarkdownEvent
  | node kind children =>
    match kind.tag? with
    | some tag =>
      .start tag :: ((kind.literal?.map .text).toList ++ eventsOf children ++ [.close false])
    | none => kind.event?.toList ++ eventsOf children

/-- The events of trees in turn. -/
def eventsOf : List Shape → List MarkdownEvent
  | [] => []
  | s :: rest => s.events ++ eventsOf rest
end

end Shape

namespace MarkdownEvent

/-- The text in an event that may be a part of a longer one. -/
def part? : MarkdownEvent → Option String
  | text content => some content
  | html content => some content
  | _ => none

def isClose : MarkdownEvent → Bool
  | close _ => true
  | _ => false

end MarkdownEvent

/-- Events that give a text in one or more parts. -/
def Spells (content : String) (events : List MarkdownEvent) : Prop :=
  events ≠ [] ∧ ∃ parts, events.map MarkdownEvent.part? = parts.map some ∧
    String.join parts = content

/-- A stream that differs from another one in the parts of its texts only. -/
inductive Recut : List MarkdownEvent → List MarkdownEvent → Prop where
  | nil : Recut [] []
  | keep (event : MarkdownEvent) {events stream : List MarkdownEvent} (h : Recut events stream) :
      Recut (event :: events) (event :: stream)
  | spell {content : String} {parts events stream : List MarkdownEvent}
      (spells : Spells content parts) (h : Recut events stream) :
      Recut (.text content :: events) (parts ++ stream)

namespace Recut

theorem refl (events : List MarkdownEvent) : Recut events events := by
  induction events with
  | nil => exact .nil
  | cons event rest ih => exact .keep event ih

theorem exists_append {first second stream : List MarkdownEvent} (h : Recut (first ++ second) stream) :
    ∃ before behind, stream = before ++ behind ∧ Recut first before ∧ Recut second behind := by
  induction first generalizing stream with
  | nil => exact ⟨[], stream, rfl, .nil, h⟩
  | cons event rest ih =>
    cases h with
    | keep _ h =>
      obtain ⟨before, behind, rfl, hfirst, hsecond⟩ := ih h
      exact ⟨event :: before, behind, rfl, .keep event hfirst, hsecond⟩
    | spell spells h =>
      obtain ⟨before, behind, rfl, hfirst, hsecond⟩ := ih h
      exact ⟨_ ++ before, behind, (List.append_assoc ..).symm, .spell spells hfirst, hsecond⟩

theorem of_keep {event : MarkdownEvent} (hevent : event.part? = none) {events stream : List MarkdownEvent}
    (h : Recut (event :: events) stream) : ∃ rest, stream = event :: rest ∧ Recut events rest := by
  cases h with
  | keep _ h => exact ⟨_, rfl, h⟩
  | spell => cases hevent

theorem of_text {content : String} {events stream : List MarkdownEvent}
    (h : Recut (.text content :: events) stream) :
    ∃ parts rest, stream = parts ++ rest ∧ Spells content parts ∧ Recut events rest := by
  cases h with
  | keep _ h =>
    have hspells : Spells content [.text content] := ⟨by simp, [content], rfl, by simp⟩
    exact ⟨_, _, rfl, hspells, h⟩
  | spell spells h => exact ⟨_, _, rfl, spells, h⟩

theorem of_nil {stream : List MarkdownEvent} (h : Recut [] stream) : stream = [] := by
  cases h
  rfl

end Recut

end DitaTopic.Document
