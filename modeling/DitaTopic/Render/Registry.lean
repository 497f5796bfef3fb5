import DitaTopic.Render.Handler

/-!
# Handler chains

For every node type the handlers of all providers form a chain. The handler registered
last is outermost and runs first; it can hand the node on to the one beneath it.
-/

namespace DitaTopic.Render

open DitaTopic.Document (NodeType)
open DitaTopic.Options (OptionView)

/-- A handler with the provider it came from. -/
structure Link where
  provider : ProviderKind
  handler : Handler

/-- A handler and those beneath it, outermost first. -/
structure Chain where
  outer : Link
  beneath : List Link

namespace Chain

def links (c : Chain) : List Link := c.outer :: c.beneath

def providers (c : Chain) : List ProviderKind := c.links.map Link.provider

/-- The chain beneath the outermost handler. -/
def inner? (c : Chain) : Option Chain :=
  match c.beneath with
  | [] => none
  | outer :: beneath => some ⟨outer, beneath⟩

end Chain

/-- The chain of every node type that has a handler. -/
structure Registry where
  chains : KeyedList NodeType Chain

namespace Registry

def empty : Registry := ⟨KeyedList.empty⟩

def chain? (r : Registry) (type : NodeType) : Option Chain := r.chains.find? type

def size (r : Registry) : Nat := r.chains.size

def isEmpty (r : Registry) : Bool := r.chains.isEmpty

/-- Puts a handler around the chain of its node type. -/
def register (r : Registry) (link : Link) : Registry :=
  ⟨r.chains.insert link.handler.type
    ⟨link, ((r.chain? link.handler.type).map Chain.links).getD []⟩⟩

/-- The handlers that providers make for a view, in the order of the providers. -/
def linksOf (view : OptionView) (providers : List Provider) : List Link :=
  providers.flatMap fun p => (p.create view).map fun h => ⟨p.kind, h⟩

/-- Providers in the order in which they take effect. -/
def ordered (providers : List Provider) : Except RenderError (List Provider) := do
  let order ← resolveOrder (providers.map Provider.declaration)
  pure (takeInTurn (providers.map some) order)

/-- Registers the handlers of all providers, each after those it builds on. -/
def build (providers : List Provider) (view : OptionView) : Except RenderError Registry := do
  let inOrder ← ordered providers
  pure ((linksOf view inOrder).foldl register empty)

def longestChain (r : Registry) : Nat :=
  (r.chains.entries.map fun p => p.2.links.length).foldl max 0

end Registry

end DitaTopic.Render
