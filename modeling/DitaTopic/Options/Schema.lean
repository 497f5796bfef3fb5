import DitaTopic.Options.Key

/-!
# The rendering options

Every recognised option with its default, and the schema that untyped names and
values are checked against.
-/

namespace DitaTopic.Options

namespace Key

/-- Text written for a soft line break. -/
def softBreak : OptionKey String := .constant "SOFT_BREAK" (.str "\n")
/-- Markup for a hard line break, for providers that write HTML. -/
def hardBreak : OptionKey String := .constant "HARD_BREAK" (.str "<br />\n")

/-- Write raw HTML as text. -/
def escapeHtml : OptionKey Bool := .constant "ESCAPE_HTML" (.bool false)
def escapeHtmlBlocks : OptionKey Bool := .inherit "ESCAPE_HTML_BLOCKS" escapeHtml
def escapeHtmlCommentBlocks : OptionKey Bool :=
  .inherit "ESCAPE_HTML_COMMENT_BLOCKS" escapeHtmlBlocks
def escapeInlineHtml : OptionKey Bool := .inherit "ESCAPE_INLINE_HTML" escapeHtml
def escapeInlineHtmlComments : OptionKey Bool :=
  .inherit "ESCAPE_INLINE_HTML_COMMENTS" escapeInlineHtml

/-- Drop raw HTML. -/
def suppressHtml : OptionKey Bool := .constant "SUPPRESS_HTML" (.bool false)
def suppressHtmlBlocks : OptionKey Bool := .inherit "SUPPRESS_HTML_BLOCKS" suppressHtml
def suppressHtmlCommentBlocks : OptionKey Bool :=
  .inherit "SUPPRESS_HTML_COMMENT_BLOCKS" suppressHtmlBlocks
def suppressInlineHtml : OptionKey Bool := .inherit "SUPPRESS_INLINE_HTML" suppressHtml
def suppressInlineHtmlComments : OptionKey Bool :=
  .inherit "SUPPRESS_INLINE_HTML_COMMENTS" suppressInlineHtml

/-- Assign identifiers to headings. -/
def generateHeaderId : OptionKey Bool := .constant "GENERATE_HEADER_ID" (.bool true)
/-- Write the identifiers of nested headings. -/
def renderHeaderId : OptionKey Bool := .constant "RENDER_HEADER_ID" (.bool false)
/-- Give repeated identifiers a numeric suffix. -/
def headerIdResolveDupes : OptionKey Bool :=
  .constant "HEADER_ID_GENERATOR_RESOLVE_DUPES" (.bool true)
/-- Characters that become a dash in a generated identifier. -/
def headerIdToDashChars : OptionKey String :=
  .constant "HEADER_ID_GENERATOR_TO_DASH_CHARS" (.str " -_")
/-- Keep one of consecutive dashes. -/
def headerIdNoDupedDashes : OptionKey Bool :=
  .constant "HEADER_ID_GENERATOR_NO_DUPED_DASHES" (.bool false)

/-- Width of one indentation step of written XML; none if not positive. -/
def indentSize : OptionKey Int := .constant "INDENT_SIZE" (.int 0)
/-- Percent-encode the targets of links and images. -/
def percentEncodeUrls : OptionKey Bool := .constant "PERCENT_ENCODE_URLS" (.bool false)
/-- Blank lines kept at the end of a code block. -/
def maxTrailingBlankLines : OptionKey Int := .constant "MAX_TRAILING_BLANK_LINES" (.int 1)
/-- Bit mask handed through to providers. -/
def formatFlags : OptionKey Int := .constant "FORMAT_FLAGS" (.int 0)

/-- Write the content of links without their markup. -/
def doNotRenderLinks : OptionKey Bool := .constant "DO_NOT_RENDER_LINKS" (.bool false)
/-- Take the paragraph after the title as the short description. -/
def shortdescParagraph : OptionKey Bool := .constant "SHORTDESC_PARAGRAPH" (.bool false)
/-- Put before a fence language to form the class of a code block. -/
def fencedCodeLanguageClassPrefix : OptionKey String :=
  .constant "FENCED_CODE_LANGUAGE_CLASS_PREFIX" (.str "language-")
/-- Class of a code block without a language; none if empty. -/
def fencedCodeNoLanguageClass : OptionKey String :=
  .constant "FENCED_CODE_NO_LANGUAGE_CLASS" (.str "")

end Key

/-- A key at one of the three types the schema uses. -/
inductive SchemaKey where
  | bool (key : OptionKey Bool)
  | int (key : OptionKey Int)
  | str (key : OptionKey String)

namespace SchemaKey

/-- The option name. -/
def name : SchemaKey → String
  | bool key => key.name
  | int key => key.name
  | str key => key.name

/-- The kind of values the option accepts. -/
def kind : SchemaKey → ValueKind
  | bool key => key.kind
  | int key => key.kind
  | str key => key.kind

/-- The value of the option in a view, as a stored value. -/
def resolve (view : OptionView) : SchemaKey → OptionValue
  | bool key => .bool (key.resolve view)
  | int key => .int (key.resolve view)
  | str key => .str (key.resolve view)

end SchemaKey

/-- Every recognised option. -/
def schema : List SchemaKey :=
  [.str Key.softBreak, .str Key.hardBreak,
    .bool Key.escapeHtml, .bool Key.escapeHtmlBlocks, .bool Key.escapeHtmlCommentBlocks,
    .bool Key.escapeInlineHtml, .bool Key.escapeInlineHtmlComments,
    .bool Key.suppressHtml, .bool Key.suppressHtmlBlocks, .bool Key.suppressHtmlCommentBlocks,
    .bool Key.suppressInlineHtml, .bool Key.suppressInlineHtmlComments,
    .bool Key.generateHeaderId, .bool Key.renderHeaderId, .bool Key.headerIdResolveDupes,
    .str Key.headerIdToDashChars, .bool Key.headerIdNoDupedDashes,
    .int Key.indentSize, .bool Key.percentEncodeUrls, .int Key.maxTrailingBlankLines,
    .int Key.formatFlags, .bool Key.doNotRenderLinks, .bool Key.shortdescParagraph,
    .str Key.fencedCodeLanguageClassPrefix, .str Key.fencedCodeNoLanguageClass]

/-- The schema entry of an option name. -/
def schemaKey? (name : String) : Option SchemaKey :=
  schema.find? fun key => key.name == name

end DitaTopic.Options
