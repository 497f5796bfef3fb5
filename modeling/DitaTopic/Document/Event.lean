import DitaTopic.Document.Basic

/-!
# Documents from markdown events

The events in which a markdown parser reports a document, and the document that a
stream of them describes. Every stream describes one: an end without an open node is
ignored, nodes left open are closed by the end of the stream, and metadata blocks are
dropped. Constructs without a kind of their own become custom nodes, so a set of
providers that does not handle them fails on them.
-/

namespace DitaTopic.Document

/-- What a start event opens. -/
inductive Tag where
  | paragraph
  | heading (level : Nat) (id : Option String)
  | blockQuote
  | codeBlock (info : Option String)
  | htmlBlock
  | list (start : Option Nat)
  | item
  | footnoteDefinition (label : String)
  | definitionList
  | definitionListTitle
  | definitionListDefinition
  | table (alignments : List ColumnAlignment)
  | tableHead
  | tableRow
  | tableCell
  | emphasis
  | strong
  | strikethrough
  | superscript
  | subscript
  | link (url title : String)
  | image (url title : String)
  | metadataBlock
  deriving Repr, DecidableEq

/-- One report of a markdown parser. -/
inductive MarkdownEvent where
  | start (tag : Tag)
  /-- The end of a node; only the end of a metadata block is told from the others. -/
  | close (ofMetadata : Bool)
  | text (content : String)
  | html (content : String)
  | code (content : String)
  | inlineHtml (content : String)
  | inlineMath (content : String)
  | displayMath (content : String)
  | footnoteReference (label : String)
  | taskMarker (checked : Bool)
  | softBreak
  | hardBreak
  | rule
  deriving Repr, DecidableEq

/-- The kind of the node that a tag opens; a metadata block opens none. -/
def Tag.kind? : Tag → Option NodeKind
  | paragraph => some .paragraph
  | heading level id => some (.heading level id)
  | blockQuote => some .blockQuote
  | codeBlock info => some (.codeBlock info "")
  | htmlBlock => some (.htmlBlock "")
  | list start => some (.list start)
  | item => some .item
  | footnoteDefinition label => some (.custom "footnote-definition" label)
  | definitionList => some (.custom "definition-list" "")
  | definitionListTitle => some (.custom "definition-list-title" "")
  | definitionListDefinition => some (.custom "definition-list-definition" "")
  | table alignments => some (.table alignments)
  | tableHead => some .tableHead
  | tableRow => some .tableRow
  | tableCell => some .tableCell
  | emphasis => some .emphasis
  | strong => some .strong
  | strikethrough => some .strikethrough
  | superscript => some (.custom "superscript" "")
  | subscript => some (.custom "subscript" "")
  | link url title => some (.link url title)
  | image url title => some (.image url title)
  | metadataBlock => none

/-- A document under construction: the open nodes, innermost first and without the root, and
whether a metadata block is being skipped. -/
structure Outline where
  doc : Document
  openNodes : List Nat := []
  inMetadata : Bool := false

namespace Outline

/-- The node that receives what comes next. -/
def innermost (o : Outline) : Nat := o.openNodes.headD rootId

/-- Adds a node without opening it. -/
def add (o : Outline) (kind : NodeKind) : Outline :=
  { o with doc := o.doc.attach o.innermost kind }

def openNode (o : Outline) (kind : NodeKind) : Outline :=
  { o.add kind with openNodes := o.doc.size :: o.openNodes }

/-- Takes up one event outside a metadata block. -/
def take (o : Outline) : MarkdownEvent → Outline
  | .start tag =>
    match tag.kind? with
    | some kind => o.openNode kind
    | none => { o with inMetadata := true }
  | .close _ => { o with openNodes := o.openNodes.tail }
  | .text content => { o with doc := o.doc.addText o.innermost content }
  | .html content => { o with doc := o.doc.addText o.innermost content }
  | .code content => o.add (.code content)
  | .inlineHtml content => o.add (.inlineHtml content)
  | .inlineMath content => o.add (.custom "inline-math" content)
  | .displayMath content => o.add (.custom "display-math" content)
  | .footnoteReference label => o.add (.custom "footnote-reference" label)
  | .taskMarker checked => o.add (.custom "task-list-marker" (if checked then "x" else " "))
  | .softBreak => o.add .softBreak
  | .hardBreak => o.add .hardBreak
  | .rule => o.add .thematicBreak

/-- Takes up one event; inside a metadata block all but its end is skipped. -/
def step (o : Outline) (event : MarkdownEvent) : Outline :=
  if o.inMetadata then { o with inMetadata := event != .close true } else o.take event

end Outline

/-- The document that a stream of events describes. -/
def ofEvents (events : List MarkdownEvent) : Document :=
  (events.foldl Outline.step { doc := empty }).doc

end DitaTopic.Document
