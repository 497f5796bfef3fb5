import DitaTopic.Document.Kind
import DitaTopic.Markup.Sink

/-!
# Render errors

Why a render session ends without finishing the document.
-/

namespace DitaTopic.Render

open DitaTopic.Document (NodeType)
open DitaTopic.Markup (SinkError)

/-- The name by which providers refer to each other. -/
structure ProviderKind where
  name : String
  deriving Repr, DecidableEq, Inhabited

/-- Why a session failed. -/
inductive RenderError where
  | writeFailure (source : SinkError)
  /-- No provider handles nodes of this type, or none beneath the handler that delegated. -/
  | noHandler (type : NodeType)
  /-- These providers wait for each other. -/
  | providerCycle (kinds : List ProviderKind)
  deriving Repr, DecidableEq, Inhabited

def RenderError.message : RenderError → String
  | writeFailure _ => "failed to write markup event"
  | noHandler type => "no renderer configured for " ++ type.name
  | providerCycle kinds =>
    "renderer providers have cyclic delegates: " ++ ", ".intercalate (kinds.map (·.name))

/-- What a handler or a session ends with. -/
abbrev Outcome := Except RenderError Unit

end DitaTopic.Render
