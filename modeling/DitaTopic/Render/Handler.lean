import DitaTopic.Document.Basic
import DitaTopic.Identifier.Assignment
import DitaTopic.Render.Placement
import DitaTopic.Render.Program

/-!
# Handlers and providers

A handler renders the nodes of one type; a provider makes handlers for the options of a
session and says which other providers it builds on.
-/

namespace DitaTopic.Render

open DitaTopic.Document (NodeType)
open DitaTopic.Identifier (Assignment)
open DitaTopic.Options (OptionView)

/-- What stays the same for a whole session. -/
structure Scene where
  document : Document
  options : OptionView
  settings : Settings
  ids : Assignment

def Scene.idOf (scene : Scene) (node : Nat) : Option String := scene.ids.find? node

/-- How nodes of one type are rendered. -/
structure Handler where
  type : NodeType
  render : Scene → Nat → Rendering Unit

/-- A source of handlers. -/
structure Provider where
  kind : ProviderKind
  /-- The providers this one builds on, if it says so. -/
  delegates : Option (List ProviderKind)
  /-- The handlers for the options of a session. -/
  create : OptionView → List Handler

/-- What the place of a provider depends on. -/
def Provider.declaration (p : Provider) : Declaration := ⟨p.kind, p.delegates⟩

end DitaTopic.Render
