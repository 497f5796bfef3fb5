import DitaTopic.Options.Schema

/-!
# Session settings

The options that the session itself consults, read once from the session's view.
-/

namespace DitaTopic.Render

open DitaTopic.Options

/-- The options of a session that are not a provider's business alone. -/
structure Settings where
  /-- Write no link markup in the whole document. -/
  suppressLinks : Bool
  generateHeaderIds : Bool
  renderHeaderId : Bool
  /-- Spaces per indentation step of written XML. -/
  indentSize : Nat
  formatFlags : Int
  deriving Repr, DecidableEq

namespace Settings

/-- The settings that a view describes. A negative indentation counts as none. -/
def ofView (view : OptionView) : Settings where
  suppressLinks := Key.doNotRenderLinks.resolve view
  generateHeaderIds := Key.generateHeaderId.resolve view
  renderHeaderId := Key.renderHeaderId.resolve view
  indentSize := (Key.indentSize.resolve view).toNat
  formatFlags := Key.formatFlags.resolve view

/-- The settings when no option is set. -/
def default : Settings := ofView (.ofSet KeyedList.empty)

/-- Whether headings get identifiers at all. -/
def headerIdsEnabled (s : Settings) : Bool := s.generateHeaderIds || s.renderHeaderId

/-- The link suppression with which a document node starts. -/
def documentSuppression (s : Settings) : Nat := if s.suppressLinks then 1 else 0

end Settings

end DitaTopic.Render
