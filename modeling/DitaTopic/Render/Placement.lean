import DitaTopic.Render.Error

/-!
# The order of providers

A provider that declares delegates comes after every provider of the session whose
kind it names, its own kind excepted. Among the orders that respect this the one
chosen puts, at each place, the earliest provider that need not wait any longer; if
none is ready the providers left over depend on a cycle.
-/

namespace DitaTopic.Render

/-- What the place of a provider depends on. Without delegates nothing is known about its
dependencies, which is not the same as an empty list, though both let it go first. -/
structure Declaration where
  kind : ProviderKind
  delegates : Option (List ProviderKind)
  deriving Repr, DecidableEq

namespace Declaration

/-- Whether a provider must come after those of a kind. No provider must come after its own. -/
def follows (d : Declaration) (kind : ProviderKind) : Bool :=
  kind != d.kind && (d.delegates.getD []).contains kind

/-- The kinds of the session that a provider must come after, each once. -/
def before (d : Declaration) (session : List ProviderKind) : Option (List ProviderKind) :=
  d.delegates.map fun _ => (session.filter d.follows).eraseDups

end Declaration

/-- A provider's dependencies on a session, found when first asked for. The session's list is let
go at that moment. -/
structure DelegateLookup where
  declaration : Declaration
  session : Option (List ProviderKind)
  found : Option (List ProviderKind) := none
  deriving Repr, DecidableEq

namespace DelegateLookup

/-- A lookup that has not been asked. -/
def ofSession (session : List ProviderKind) (declaration : Declaration) : DelegateLookup :=
  { declaration, session := some session }

/-- Whether the session's list is still held. -/
def holdsSession (l : DelegateLookup) : Bool := l.session.isSome

/-- The dependencies, and the lookup after it was asked. -/
def before (l : DelegateLookup) : Option (List ProviderKind) × DelegateLookup :=
  match l.found, l.session with
  | none, some session =>
    let found := l.declaration.before session
    (found, { l with session := none, found })
  | found, _ => (found, l)

end DelegateLookup

/-- The places of the providers that the one at place `i` waits for. -/
def waitsFor (ds : List Declaration) (i : Nat) : List Nat :=
  match ds[i]? with
  | none => []
  | some d =>
    (List.range ds.length).filter fun j => (ds[j]?.map fun e => d.follows e.kind).getD false

/-- The first of the remaining places that waits only for placed ones. -/
def nextReady? (waits : Nat → List Nat) (placed remaining : List Nat) : Option Nat :=
  remaining.find? fun i => (waits i).all placed.contains

theorem mem_of_nextReady? {waits : Nat → List Nat} {placed remaining : List Nat} {i : Nat}
    (h : nextReady? waits placed remaining = some i) : i ∈ remaining :=
  List.mem_of_find?_eq_some h

/-- Puts the remaining places behind the placed ones, always the first that is ready. If none is,
the remaining ones are the error. -/
def place (waits : Nat → List Nat) (placed remaining : List Nat) : Except (List Nat) (List Nat) :=
  match _ready : nextReady? waits placed remaining with
  | some i => place waits (placed ++ [i]) (remaining.erase i)
  | none => if remaining.isEmpty then .ok placed else .error remaining
termination_by remaining.length
decreasing_by
  have hmem := mem_of_nextReady? _ready
  have := List.length_erase_of_mem hmem
  have := List.length_pos_of_mem hmem
  omega

/-- The order in which providers take effect, as places in the given list. -/
def resolveOrder (ds : List Declaration) : Except RenderError (List Nat) :=
  match place (waitsFor ds) [] (List.range ds.length) with
  | .ok order => .ok order
  | .error stuck => .error (.providerCycle (stuck.filterMap fun i => ds[i]?.map Declaration.kind))

/-- Takes the items at places in turn. An item is gone once it was taken, and a place without an
item gives none. -/
def takeInTurn {α : Type} : List (Option α) → List Nat → List α
  | _, [] => []
  | slots, i :: rest => slots[i]?.join.toList ++ takeInTurn (slots.set i none) rest

end DitaTopic.Render
