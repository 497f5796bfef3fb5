import DitaTopic.Render.Handler
import DitaTopic.Topic.Settings

/-!
# Handlers of the topic vocabulary

How each node type becomes DITA markup. Most types are one element around their
children. A document becomes a `topic` with `title`, optional `shortdesc` and `body`; a
heading directly below it opens a `section` that stays open until the next such heading
or the end of the body, so sections are closed through the writer's open elements.
-/

namespace DitaTopic.Topic

open DitaTopic.Document (ColumnAlignment NodeKind NodeType)
open DitaTopic.Markup (Attributes)
open DitaTopic.Render

/-- A handler's program on a node of a scene. -/
abbrev NodeProgram := Scene → Nat → Rendering Unit

/-- One element around the children of the node. -/
def wrap (name : String) (attributes : Attributes := .none) : NodeProgram := fun _ node =>
  Rendering.element name attributes (Rendering.childrenOf node)

/-- The first of the nodes, if it has the given type, and the nodes after it. -/
def splitFirst (document : Document) (type : NodeType) : List Nat → Option Nat × List Nat
  | [] => (none, [])
  | node :: rest =>
    if document.type? node = some type then (some node, rest) else (none, node :: rest)

/-- The id of a topic without a title heading that has one. -/
def defaultTopicId : String := "topic"

def topicAttributes (id : Option String) : Attributes :=
  ⟨[("id", id.getD defaultTopicId), ("ditaarch:DITAArchVersion", "1.3")]⟩

/-- A leading heading is the title; if the options ask for it, a paragraph after that is the short
description; the rest is the body. Whatever is still open inside the body is ended with it. -/
def document (settings : Settings) : NodeProgram := fun scene node => do
  let (title, rest) := splitFirst scene.document .heading (scene.document.children node)
  Rendering.start "topic" (topicAttributes (title.bind scene.idOf))
  Rendering.start "title"
  match title with
  | some heading => Rendering.childrenOf heading
  | none => pure ()
  Rendering.finish
  let (shortdesc, rest) :=
    if settings.shortdescParagraph then splitFirst scene.document .paragraph rest
    else (none, rest)
  match shortdesc with
  | some paragraph => Rendering.element "shortdesc" .none (Rendering.childrenOf paragraph)
  | none => pure ()
  Rendering.start "body"
  let atBody ← Rendering.look
  Rendering.nodes rest
  let atEnd ← Rendering.look
  Rendering.finishMany (atEnd.depth + 1 - atBody.depth)
  Rendering.finish

/-- The place of the outermost open `body`, if one is open. -/
def bodyPlace (openElements : List String) : Option Nat := openElements.findIdx? (· == "body")

/-- A heading that starts a section: everything open inside the body is ended first. -/
def sectionHeading (scene : Scene) (node : Nat) (view : View) (place : Nat) : Rendering Unit := do
  Rendering.finishMany (view.depth - (place + 1))
  Rendering.start "section" (Attributes.none.pushSome "id" (scene.idOf node))
  Rendering.element "title" .none (Rendering.childrenOf node)

/-- A heading anywhere else: a paragraph with the level as its class. -/
def nestedHeading (settings : Settings) (scene : Scene) (node level : Nat) : Rendering Unit :=
  let attributes := Attributes.none.push "outputclass" ("h" ++ toString level)
  let id := if settings.renderHeaderId then scene.idOf node else none
  Rendering.element "p" (attributes.pushSome "id" id) (Rendering.childrenOf node)

/-- Whether a node is a child of a document node. -/
def isTopLevel (document : Document) (node : Nat) : Bool :=
  match (document.node? node).bind (·.parent) with
  | some parent => document.type? parent == some .document
  | none => false

/-- A heading directly below a document starts a section if a body is open. -/
def heading (settings : Settings) : NodeProgram := fun scene node => do
  match scene.document.kind? node with
  | some (.heading level _) =>
    let view ← Rendering.look
    match isTopLevel scene.document node, bodyPlace view.openElements with
    | true, some place => sectionHeading scene node view place
    | _, _ => nestedHeading settings scene node level
  | _ => pure ()

/-- An ordered list has a first number. -/
def list : NodeProgram := fun scene node =>
  let name :=
    match scene.document.kind? node with
    | some (.list (some _)) => "ol"
    | _ => "ul"
  Rendering.element name .none (Rendering.childrenOf node)

/-- A code block with its class and without surplus blank lines at its end. -/
def codeBlock (settings : Settings) : NodeProgram := fun scene node =>
  match scene.document.kind? node with
  | some (.codeBlock info literal) =>
    Rendering.element "codeblock" (Attributes.none.pushSome "outputclass" (settings.codeClass info))
      (Rendering.characters (settings.codeText literal))
  | _ => pure ()

/-- Raw HTML between other blocks, without white space at its end. -/
def htmlBlock (settings : Settings) : NodeProgram := fun scene node =>
  match scene.document.kind? node with
  | some (.htmlBlock literal) =>
    let html := String.ofList (Text.trimEnd literal.toList)
    match settings.blockTreatment literal with
    | .dropped => pure ()
    | .asText => Rendering.element "p" .none (Rendering.characters html)
    | .asInstruction => Rendering.instruction "html" (some html)
  | _ => pure ()

def inlineHtml (settings : Settings) : NodeProgram := fun scene node =>
  match scene.document.kind? node with
  | some (.inlineHtml html) =>
    match settings.inlineTreatment html with
    | .dropped => pure ()
    | .asText => Rendering.characters html
    | .asInstruction => Rendering.instruction "html" (some html)
  | _ => pure ()

def linkAttributes (settings : Settings) (url : String) : Attributes :=
  let attributes := Attributes.none.push "href" (settings.href url)
  if isExternal url then (attributes.push "scope" "external").push "format" "html" else attributes

/-- A link, or its content alone where links are suppressed. -/
def link (settings : Settings) : NodeProgram := fun scene node => do
  match scene.document.kind? node with
  | some (.link url _) =>
    let view ← Rendering.look
    if view.linksSuppressed then Rendering.childrenOf node
    else Rendering.element "xref" (linkAttributes settings url) (Rendering.childrenOf node)
  | _ => pure ()

def imageAttributes (settings : Settings) (url : String) : Attributes :=
  let attributes := Attributes.none.push "href" (settings.href url)
  if isExternal url then attributes.push "scope" "external" else attributes

/-- An image; its content is the alternative text, in which no link is written. -/
def image (settings : Settings) : NodeProgram := fun scene node =>
  match scene.document.kind? node with
  | some (.image url _) =>
    Rendering.element "image" (imageAttributes settings url) <|
      Rendering.element "alt" .none do
        Rendering.suppressLinks
        Rendering.childrenOf node
        Rendering.allowLinks
  | _ => pure ()

/-- The name of an alignment; the default one has none. -/
def alignmentName : ColumnAlignment → Option String
  | .left => some "left"
  | .center => some "center"
  | .right => some "right"
  | .none => none

/-- The column specifications of a table, counted from `index`. -/
def columns : Nat → List ColumnAlignment → Rendering Unit
  | _, [] => pure ()
  | index, alignment :: rest => do
    Rendering.element "colspec"
      ((Attributes.none.push "colname" ("col" ++ toString index)).pushSome "align"
        (alignmentName alignment))
      (pure ())
    columns (index + 1) rest

/-- The children of a table. The first row opens the table body, which stays open. -/
def tableChildren (document : Document) : Bool → List Nat → Rendering Bool
  | inBody, [] => pure inBody
  | inBody, child :: rest => do
    let isRow := document.type? child == some .tableRow
    if isRow && !inBody then Rendering.start "tbody" else pure ()
    Rendering.node child
    tableChildren document (inBody || isRow) rest

/-- A table with its columns, its head and its body. -/
def table : NodeProgram := fun scene node =>
  match scene.document.kind? node with
  | some (.table alignments) =>
    Rendering.element "table" .none <|
      Rendering.element "tgroup" (Attributes.none.push "cols" (toString alignments.length)) do
        columns 1 alignments
        let inBody ← tableChildren scene.document false (scene.document.children node)
        if inBody then Rendering.finish else pure ()
  | _ => pure ()

def tableHead : NodeProgram := fun _ node =>
  Rendering.element "thead" .none (Rendering.element "row" .none (Rendering.childrenOf node))

def text : NodeProgram := fun scene node =>
  match scene.document.kind? node with
  | some (.text content) => Rendering.characters content
  | _ => pure ()

def code : NodeProgram := fun scene node =>
  match scene.document.kind? node with
  | some (.code content) => Rendering.element "codeph" .none (Rendering.characters content)
  | _ => pure ()

/-- A soft line break is the text that the options give for it. -/
def softBreak (settings : Settings) : NodeProgram := fun _ _ =>
  Rendering.characters settings.softBreak

/-- A hard line break is an instruction without data. -/
def hardBreak : NodeProgram := fun _ _ => Rendering.instruction "linebreak" none

/-- A thematic break has no counterpart. -/
def thematicBreak : NodeProgram := fun _ _ => pure ()

def handlers (settings : Settings) : List Handler :=
  [⟨.document, document settings⟩,
    ⟨.heading, heading settings⟩,
    ⟨.paragraph, wrap "p"⟩,
    ⟨.blockQuote, wrap "lq"⟩,
    ⟨.list, list⟩,
    ⟨.item, wrap "li"⟩,
    ⟨.codeBlock, codeBlock settings⟩,
    ⟨.htmlBlock, htmlBlock settings⟩,
    ⟨.table, table⟩,
    ⟨.tableHead, tableHead⟩,
    ⟨.tableRow, wrap "row"⟩,
    ⟨.tableCell, wrap "entry"⟩,
    ⟨.emphasis, wrap "i"⟩,
    ⟨.strong, wrap "b"⟩,
    ⟨.strikethrough, wrap "ph" ⟨[("outputclass", "line-through")]⟩⟩,
    ⟨.link, link settings⟩,
    ⟨.image, image settings⟩,
    ⟨.text, text⟩,
    ⟨.code, code⟩,
    ⟨.inlineHtml, inlineHtml settings⟩,
    ⟨.softBreak, softBreak settings⟩,
    ⟨.hardBreak, hardBreak⟩,
    ⟨.thematicBreak, thematicBreak⟩]

/-- The provider of the topic vocabulary. It builds on no other. -/
def provider : Provider where
  kind := ⟨"core"⟩
  delegates := none
  create view := handlers (Settings.ofView view)

end DitaTopic.Topic
