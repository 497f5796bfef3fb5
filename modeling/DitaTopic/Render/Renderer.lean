import DitaTopic.Markup.Xml
import DitaTopic.Render.Session
import DitaTopic.Topic.Handlers

/-!
# Renderers

A renderer is a set of providers with options. It renders any number of documents, each
in a session of its own; the options of a document lie over those of the renderer.
-/

namespace DitaTopic

open DitaTopic.Identifier (Assigner)
open DitaTopic.Markup
open DitaTopic.Options
open DitaTopic.Render

/-- Providers in the order in which they were added, with the options of every session. -/
structure Renderer where
  options : OptionSet := KeyedList.empty
  providers : List Provider := [Topic.provider]
  /-- Replaces the choice of identifiers that the options make. -/
  assigner : Option (OptionView → Assigner) := none
  /-- How much deeper handlers may nest than a walk down the document does. Handlers that ask for
  their own node must run until the sink refuses what they write. -/
  extraDepth : Nat := 1000000

namespace Renderer

/-- A renderer with the topic vocabulary, unless it is left out, before the given providers. -/
def withProviders (options : OptionSet) (providers : List Provider) (withTopic : Bool := true) :
    Renderer :=
  { options, providers := if withTopic then Topic.provider :: providers else providers }

def view (renderer : Renderer) (doc : Document) : OptionView :=
  .layer (.ofSet renderer.options) (.ofSet doc.options)

/-- What assigns identifiers under a view: what the renderer was given, else the heading rule,
else nothing. -/
def assignerFor (renderer : Renderer) (view : OptionView) : Assigner :=
  match renderer.assigner with
  | some make => make view
  | none => if (Settings.ofView view).headerIdsEnabled then .headings view else .none

/-- What stays the same while a document is rendered. The identifiers are those of the whole
document. -/
def scene (renderer : Renderer) (doc : Document) : Scene :=
  let view := renderer.view doc
  { document := doc
    options := view
    settings := Settings.ofView view
    ids := (renderer.assignerFor view).assign doc }

/-- The depth to which handlers may nest: every node of the document under every handler of the
longest chain, and `extraDepth` more. -/
def depth (renderer : Renderer) (doc : Document) (registry : Registry) : Nat :=
  doc.size * registry.longestChain + renderer.extraDepth

/-- Renders a node of a document into a sink. Nothing is offered to the sink if the providers
cannot be ordered. -/
def renderNode {σ : Type} (renderer : Renderer) (sink : Sink σ) (doc : Document) (node : Nat)
    (start : σ) : Except Interrupt (Transcript σ) :=
  if node < doc.size then
    match Registry.build renderer.providers (renderer.view doc) with
    | .error e => .ok ⟨.error e, start, #[]⟩
    | .ok registry =>
      let session : Session σ := { scene := renderer.scene doc, registry, sink }
      session.run (renderer.depth doc registry) node start
  else .error (.unknownNode node)

/-- Renders a whole document into a sink. -/
def render {σ : Type} (renderer : Renderer) (sink : Sink σ) (doc : Document) (start : σ) :
    Except Interrupt (Transcript σ) :=
  renderer.renderNode sink doc Document.rootId start

/-- Renders a document to XML text, indented as the options say. The text is there only if the
session succeeds; the notes are there in any case. -/
def renderToString (renderer : Renderer) (doc : Document) :
    Except Interrupt (Except RenderError String × Array Note) := do
  let indent := (Settings.ofView (renderer.view doc)).indentSize
  let transcript ← renderer.render (Xml.sink indent) doc (Xml.State.start none)
  pure (transcript.outcome.map fun _ => transcript.sink.text, transcript.notes)

end Renderer

end DitaTopic
