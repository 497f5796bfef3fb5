/-!
# Node kinds

What a node of a document carries, and the type by which handlers are chosen for it.
A custom kind is known only to the providers that know its name.
-/

namespace DitaTopic.Document

/-- Where the text of a table column stands. -/
inductive ColumnAlignment where
  | none
  | left
  | center
  | right
  deriving Repr, DecidableEq, Inhabited

/-- The type of a node, without its payload. -/
inductive NodeType where
  | document
  | paragraph
  | heading
  | blockQuote
  | codeBlock
  | htmlBlock
  | list
  | item
  | table
  | tableHead
  | tableRow
  | tableCell
  | emphasis
  | strong
  | strikethrough
  | link
  | image
  | text
  | code
  | inlineHtml
  | softBreak
  | hardBreak
  | thematicBreak
  | custom (name : String)
  deriving Repr, DecidableEq, Inhabited

/-- The type as it is named in messages; a custom type goes by its own name. -/
def NodeType.name : NodeType → String
  | document => "Document"
  | paragraph => "Paragraph"
  | heading => "Heading"
  | blockQuote => "BlockQuote"
  | codeBlock => "CodeBlock"
  | htmlBlock => "HtmlBlock"
  | list => "List"
  | item => "Item"
  | table => "Table"
  | tableHead => "TableHead"
  | tableRow => "TableRow"
  | tableCell => "TableCell"
  | emphasis => "Emphasis"
  | strong => "Strong"
  | strikethrough => "Strikethrough"
  | link => "Link"
  | image => "Image"
  | text => "Text"
  | code => "Code"
  | inlineHtml => "InlineHtml"
  | softBreak => "SoftBreak"
  | hardBreak => "HardBreak"
  | thematicBreak => "ThematicBreak"
  | custom name => name

/-- A node's type together with its payload. -/
inductive NodeKind where
  | document
  | paragraph
  /-- `id` is the identifier written in the source, if there is one. -/
  | heading (level : Nat) (id : Option String)
  | blockQuote
  /-- `info` is the text after the opening fence; indented code has none. -/
  | codeBlock (info : Option String) (literal : String)
  | htmlBlock (literal : String)
  /-- `start` is the first number of an ordered list; a bullet list has none. -/
  | list (start : Option Nat)
  | item
  | table (alignments : List ColumnAlignment)
  | tableHead
  | tableRow
  | tableCell
  | emphasis
  | strong
  | strikethrough
  | link (url title : String)
  | image (url title : String)
  | text (content : String)
  | code (content : String)
  | inlineHtml (content : String)
  | softBreak
  | hardBreak
  | thematicBreak
  | custom (name literal : String)
  deriving Repr, DecidableEq, Inhabited

namespace NodeKind

def type : NodeKind → NodeType
  | document => .document
  | paragraph => .paragraph
  | heading .. => .heading
  | blockQuote => .blockQuote
  | codeBlock .. => .codeBlock
  | htmlBlock _ => .htmlBlock
  | list _ => .list
  | item => .item
  | table _ => .table
  | tableHead => .tableHead
  | tableRow => .tableRow
  | tableCell => .tableCell
  | emphasis => .emphasis
  | strong => .strong
  | strikethrough => .strikethrough
  | link .. => .link
  | image .. => .image
  | text _ => .text
  | code _ => .code
  | inlineHtml _ => .inlineHtml
  | softBreak => .softBreak
  | hardBreak => .hardBreak
  | thematicBreak => .thematicBreak
  | custom name _ => .custom name

/-- The text that a node of this kind contributes itself, its children apart. -/
def ownText : NodeKind → String
  | text content => content
  | code content => content
  | codeBlock _ literal => literal
  | softBreak => " "
  | hardBreak => " "
  | _ => ""

/-- The kind with `more` at the end of its text; only texts and literal blocks have one to
extend. -/
def extend (more : String) : NodeKind → NodeKind
  | text content => text (content ++ more)
  | codeBlock info literal => codeBlock info (literal ++ more)
  | htmlBlock literal => htmlBlock (literal ++ more)
  | kind => kind

theorem type_extend (more : String) (kind : NodeKind) : (kind.extend more).type = kind.type := by
  cases kind <;> rfl

end NodeKind

end DitaTopic.Document
