import DitaTopic.Options.Schema
import DitaTopic.Text.Blank
import DitaTopic.Text.Percent
import DitaTopic.Text.TrailingBlank

/-!
# Options of the topic vocabulary

What the handlers of the topic vocabulary read from the options, once per session, and
the rules that depend on it alone: targets of links, classes and text of code blocks,
and what becomes of raw HTML.
-/

namespace DitaTopic.Topic

open DitaTopic.Options

/-- What becomes of raw HTML of one class. Suppression goes before escaping. -/
structure HtmlPolicy where
  suppress : Bool
  escape : Bool
  deriving Repr, DecidableEq

/-- How raw HTML is written. -/
inductive HtmlTreatment where
  /-- Not at all. -/
  | dropped
  /-- As text. -/
  | asText
  /-- As a processing instruction. -/
  | asInstruction
  deriving Repr, DecidableEq

/-- How HTML under a policy is written. -/
def HtmlPolicy.treatment (p : HtmlPolicy) : HtmlTreatment :=
  if p.suppress then .dropped else if p.escape then .asText else .asInstruction

/-- The options that the topic vocabulary reads. -/
structure Settings where
  softBreak : String
  renderHeaderId : Bool
  shortdescParagraph : Bool
  percentEncodeUrls : Bool
  maxTrailingBlankLines : Nat
  languageClassPrefix : String
  noLanguageClass : String
  htmlBlocks : HtmlPolicy
  htmlCommentBlocks : HtmlPolicy
  inlineHtml : HtmlPolicy
  inlineHtmlComments : HtmlPolicy
  deriving Repr, DecidableEq

namespace Settings

/-- The settings that a view describes. A negative number of blank lines counts as none. -/
def ofView (view : OptionView) : Settings where
  softBreak := Key.softBreak.resolve view
  renderHeaderId := Key.renderHeaderId.resolve view
  shortdescParagraph := Key.shortdescParagraph.resolve view
  percentEncodeUrls := Key.percentEncodeUrls.resolve view
  maxTrailingBlankLines := (Key.maxTrailingBlankLines.resolve view).toNat
  languageClassPrefix := Key.fencedCodeLanguageClassPrefix.resolve view
  noLanguageClass := Key.fencedCodeNoLanguageClass.resolve view
  htmlBlocks := ⟨Key.suppressHtmlBlocks.resolve view, Key.escapeHtmlBlocks.resolve view⟩
  htmlCommentBlocks :=
    ⟨Key.suppressHtmlCommentBlocks.resolve view, Key.escapeHtmlCommentBlocks.resolve view⟩
  inlineHtml := ⟨Key.suppressInlineHtml.resolve view, Key.escapeInlineHtml.resolve view⟩
  inlineHtmlComments :=
    ⟨Key.suppressInlineHtmlComments.resolve view, Key.escapeInlineHtmlComments.resolve view⟩

def href (s : Settings) (url : String) : String :=
  if s.percentEncodeUrls then Text.Percent.encode url else url

/-- The class of a code block with the given text after its fence. -/
def codeClass (s : Settings) (info : Option String) : Option String :=
  match info.bind fun text => Text.firstWord? text.toList with
  | some language => some (s.languageClassPrefix ++ String.ofList language)
  | none => if s.noLanguageClass.isEmpty then none else some s.noLanguageClass

/-- The text of a code block as it is written. -/
def codeText (s : Settings) (literal : String) : String :=
  String.ofList (Text.trimTrailingBlankLines s.maxTrailingBlankLines literal.toList)

end Settings

def isHtmlComment (html : String) : Bool :=
  "<!--".toList.isPrefixOf (Text.trimStart html.toList)

namespace Settings

/-- How a block of raw HTML is written. -/
def blockTreatment (s : Settings) (html : String) : HtmlTreatment :=
  (if isHtmlComment html then s.htmlCommentBlocks else s.htmlBlocks).treatment

/-- How a piece of raw HTML within a line is written. -/
def inlineTreatment (s : Settings) (html : String) : HtmlTreatment :=
  (if isHtmlComment html then s.inlineHtmlComments else s.inlineHtml).treatment

end Settings

/-- Whether the characters `part` occur in a text one after the other. -/
def occursIn (part : List Char) : List Char → Bool
  | [] => part.isEmpty
  | c :: rest => part.isPrefixOf (c :: rest) || occursIn part rest

/-- Whether a target lies outside the document set. -/
def isExternal (url : String) : Bool :=
  occursIn "://".toList url.toList || "mailto:".toList.isPrefixOf url.toList

end DitaTopic.Topic
