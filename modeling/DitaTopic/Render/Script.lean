import DitaTopic.Render.Handler

/-!
# Scripted handlers

Handlers given as data: a list of actions carried out in turn on the handler's node. An
action that fails ends the handler, unless a guard around it keeps the failure back.
-/

namespace DitaTopic.Render

open DitaTopic.Document (NodeType)
open DitaTopic.Markup (Command)
open DitaTopic.Options (OptionKey OptionView schemaKey?)

/-- One action of a scripted handler. -/
inductive Action where
  | write (command : Command)
  /-- Render the children of the handler's node. -/
  | children
  /-- Render one child of the handler's node, if it has so many. -/
  | child (index : Nat)
  /-- Render some node. -/
  | node (id : Nat)
  /-- Render the children of some node. -/
  | childrenOf (id : Nat)
  | delegate
  | suppressLinks
  | allowLinks
  /-- Write the text of the handler's node. -/
  | content
  | fail (reason : String)
  /-- Carry out actions, note how they end and go on. -/
  | guarded (body : List Action)
  /-- Note the state of the session. -/
  | probe (label : String)
  /-- Note the value of an option. -/
  | option (name : String)
  /-- Note the settings of the session. -/
  | settings

mutual

/-- The program of an action on a node. -/
def Action.program (scene : Scene) (node : Nat) : Action → Rendering Unit
  | .write command => Rendering.write command
  | .children => Rendering.childrenOf node
  | .child index =>
    match (scene.document.children node)[index]? with
    | some found => Rendering.node found
    | none => pure ()
  | .node id => Rendering.node id
  | .childrenOf id => Rendering.childrenOf id
  | .delegate => Rendering.delegate
  | .suppressLinks => Rendering.suppressLinks
  | .allowLinks => Rendering.allowLinks
  | .content => Rendering.characters (scene.document.textContent node)
  | .fail reason => Rendering.fail (.writeFailure (.rejected reason))
  | .guarded body => do
    let outcome ← Rendering.outcomeOf (Action.programs scene node body)
    Rendering.note (.ended outcome)
  | .probe label => do
    let view ← Rendering.look
    Rendering.note (.seen label node (scene.idOf node) view)
  | .option name => Rendering.note (.option ((schemaKey? name).map (·.resolve scene.options)))
  | .settings => Rendering.note (.settings scene.settings)

/-- The program of a list of actions on a node. -/
def Action.programs (scene : Scene) (node : Nat) : List Action → Rendering Unit
  | [] => pure ()
  | action :: rest => do
    Action.program scene node action
    Action.programs scene node rest

end

/-- The handler that carries out a script. -/
def Handler.ofScript (type : NodeType) (script : List Action) : Handler :=
  ⟨type, fun scene node => Action.programs scene node script⟩

/-- A provider whose handlers are scripts. With a condition it has none where the options do not
meet it. -/
structure ScriptedProvider where
  kind : ProviderKind
  delegates : Option (List ProviderKind) := none
  handlers : List (NodeType × List Action) := []
  condition : Option (OptionKey Bool) := none

namespace ScriptedProvider

/-- Whether the options let the provider take part. -/
def applies (p : ScriptedProvider) (view : OptionView) : Bool :=
  match p.condition with
  | none => true
  | some key => key.resolve view

/-- The provider as the session knows it. -/
def provider (p : ScriptedProvider) : Provider where
  kind := p.kind
  delegates := p.delegates
  create view :=
    if p.applies view then p.handlers.map fun h => Handler.ofScript h.1 h.2 else []

end ScriptedProvider

end DitaTopic.Render
