import DitaTopic.Render.Registry

/-!
# Sessions

A session runs handler programs against a document, a registry and a sink. While a
handler runs, the current node and the current chain are its own; when it ends, with or
without an error, the node, the chain and the link suppression are as they were before.
A document node starts with the suppression that the options ask for.

Handlers may ask for any node, their own included, so the nesting of handlers is bounded
by a depth given to the session; a session that reaches it has no result. A greater depth
never changes a result.
-/

namespace DitaTopic.Render

open DitaTopic.Document (NodeType)
open DitaTopic.Markup (MarkupEvent Sink Writer)

/-- Why a session has no result. -/
inductive Interrupt where
  /-- A node was asked for that is not in the document. -/
  | unknownNode (id : Nat)
  /-- Handlers were nested deeper than allowed. -/
  | tooDeep
  deriving Repr, DecidableEq

/-- A handler at work: the node and the chain it is the outermost part of. -/
structure Frame where
  node : Nat
  type : NodeType
  chain : Chain

/-- What a handler can see of a frame. -/
def Frame.visit (f : Frame) : Visit where
  node := f.node
  type := f.type
  provider := f.chain.outer.provider
  handles := f.chain.outer.handler.type
  chain := f.chain.providers

/-- The state of a session. -/
structure State (σ : Type) where
  writer : Writer σ
  frame : Option Frame := none
  suppression : Nat := 0
  notes : Array Note := #[]

/-- What a handler can see of a state. -/
def State.view {σ : Type} (s : State σ) : View where
  visit := s.frame.map Frame.visit
  suppression := s.suppression
  openElements := s.writer.openElements.reverse

/-- What does not change during a session. -/
structure Session (σ : Type) where
  scene : Scene
  registry : Registry
  sink : Sink σ

/-- A step of a session: it changes the state, or interrupts the session. -/
abbrev Run (σ α : Type) := StateT (State σ) (Except Interrupt) α

namespace Session

variable {σ : Type}

/-- Runs the outermost handler of a node, given how a frame is run. -/
def renderNode (session : Session σ) (visit : Frame → Run σ Outcome) (node : Nat) :
    Run σ Outcome :=
  match session.scene.document.type? node with
  | none => throw (.unknownNode node)
  | some type =>
    match session.registry.chain? type with
    | none => pure (.error (.noHandler type))
    | some chain => visit ⟨node, type, chain⟩

/-- Runs the outermost handlers of nodes in turn, up to the first failure. -/
def renderEach (session : Session σ) (visit : Frame → Run σ Outcome) : List Nat → Run σ Outcome
  | [] => pure (.ok ())
  | node :: rest => do
    match ← session.renderNode visit node with
    | .ok _ => renderEach session visit rest
    | .error e => pure (.error e)

/-- Runs the handler beneath the current one on the current node. -/
def delegate (visit : Frame → Run σ Outcome) : Run σ Outcome := do
  match (← get).frame with
  | none => pure (.ok ())
  | some frame =>
    match frame.chain.inner? with
    | none => pure (.error (.noHandler frame.type))
    | some chain => visit { frame with chain }

/-- Answers a request, given how a frame is run. -/
def answer (session : Session σ) (visit : Frame → Run σ Outcome) : (r : Request) → Run σ r.Answer
  | .write command => fun s =>
    let (verdict, writer) := s.writer.perform session.sink command
    .ok (verdict.mapError .writeFailure, { s with writer })
  | .render node => session.renderNode visit node
  | .renderChildren node =>
    if node < session.scene.document.size then
      session.renderEach visit (session.scene.document.children node)
    else throw (.unknownNode node)
  | .delegate => delegate visit
  | .suppressLinks => modify fun s => { s with suppression := s.suppression + 1 }
  | .allowLinks => modify fun s => { s with suppression := s.suppression - 1 }
  | .look => fun s => .ok (s.view, s)
  | .note n => modify fun s => { s with notes := s.notes.push n }

/-- The state in which the handler of a frame starts. -/
def enter (session : Session σ) (frame : Frame) (s : State σ) : State σ :=
  { s with
    frame := some frame
    suppression :=
      if frame.type = .document then session.scene.settings.documentSuppression
      else s.suppression }

/-- The state after a handler has ended, with the frame and the suppression from before it. -/
def leave (frame : Option Frame) (suppression : Nat) (after : State σ) : State σ :=
  { after with frame, suppression }

/-- Runs the handler of a frame, with at most `depth` handlers nested. -/
def visit (session : Session σ) : Nat → Frame → Run σ Outcome
  | 0, _ => throw .tooDeep
  | depth + 1, frame => fun s => do
    let handler := frame.chain.outer.handler
    let outer := s.frame
    let suppression := s.suppression
    let (outcome, after) ←
      ((handler.render session.scene frame.node).run.run
        (session.answer (session.visit depth))).run (session.enter frame s)
    pure (outcome, leave outer suppression after)

/-- Renders a node with at most `depth` handlers nested. -/
def render (session : Session σ) (depth node : Nat) : Run σ Outcome :=
  session.renderNode (session.visit depth) node

end Session

def archPrefixName : String := "ditaarch"

def archNamespace : String := "http://dita.oasis-open.org/architecture/2005/"

/-- The result of a session. -/
structure Transcript (σ : Type) where
  outcome : Outcome
  sink : σ
  notes : Array Note

namespace Session

variable {σ : Type}

def emit (session : Session σ) (event : MarkupEvent) : ExceptT RenderError (Run σ) Unit :=
  ExceptT.mk fun s =>
    let (verdict, writer) := s.writer.emit session.sink event
    .ok (verdict.mapError .writeFailure, { s with writer })

def close (session : Session σ) : ExceptT RenderError (Run σ) Unit :=
  ExceptT.mk fun s =>
    let (verdict, writer) := s.writer.close session.sink
    .ok (verdict.mapError .writeFailure, { s with writer })

/-- A node as a whole document: the rendered node inside the events that open and close a
document. -/
def wrapped (session : Session σ) (depth node : Nat) : ExceptT RenderError (Run σ) Unit := do
  session.emit .startDocument
  session.emit (.bindNamespace archPrefixName archNamespace)
  ExceptT.mk (session.render depth node)
  session.close
  session.emit (.unbindNamespace archPrefixName)
  session.emit .endDocument

/-- Runs a session from its first event to its last. After a failure the open elements are ended;
what the sink makes of that no longer counts. -/
def run (session : Session σ) (depth node : Nat) (start : σ) : Except Interrupt (Transcript σ) := do
  let state : State σ :=
    { writer := { sink := start }, suppression := session.scene.settings.documentSuppression }
  let (outcome, state) ← (session.wrapped depth node).run.run state
  match outcome with
  | .ok _ => pure ⟨.ok (), state.writer.sink, state.notes⟩
  | .error e => pure ⟨.error e, (state.writer.close session.sink).2.sink, state.notes⟩

end Session

end DitaTopic.Render
