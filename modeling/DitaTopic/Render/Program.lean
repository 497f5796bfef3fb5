import DitaTopic.Markup.Writer
import DitaTopic.Options.Value
import DitaTopic.Render.Error
import DitaTopic.Render.Settings

/-!
# Handler programs

A handler does not act itself: it is a program that makes requests of the session that
runs it and goes on according to the answers. Programs are finite trees, one branch
per possible answer, so a handler's own code always ends; only the nodes it asks the
session to render can make a session run on.
-/

namespace DitaTopic.Render

open DitaTopic.Document (NodeType)
open DitaTopic.Markup (Attributes Command)
open DitaTopic.Options (OptionValue)

/-- The handler that is running, and on what. -/
structure Visit where
  node : Nat
  type : NodeType
  provider : ProviderKind
  /-- The node type that the handler was registered for. -/
  handles : NodeType
  /-- The providers of the handler and of those beneath it, outermost first. -/
  chain : List ProviderKind
  deriving Repr, DecidableEq

/-- What a handler can see of the session's state. -/
structure View where
  visit : Option Visit
  /-- How many regions without links enclose the current point. -/
  suppression : Nat
  /-- Names of the open elements, outermost first. -/
  openElements : List String
  deriving Repr, DecidableEq

namespace View

def depth (v : View) : Nat := v.openElements.length

/-- Whether link markup is left out at this point. -/
def linksSuppressed (v : View) : Bool := 0 < v.suppression

end View

/-- An observation that a handler leaves for the caller of the session. -/
inductive Note where
  /-- The session as a handler saw it, the handler's node and the identifier of that node. -/
  | seen (label : String) (node : Nat) (id : Option String) (view : View)
  /-- How a guarded part of a handler ended. -/
  | ended (outcome : Outcome)
  | option (value : Option OptionValue)
  | settings (settings : Settings)

/-- What a handler asks of the session. -/
inductive Request where
  | write (command : Command)
  /-- Run the outermost handler of a node. -/
  | render (node : Nat)
  /-- Run the outermost handler of each child of a node, up to the first that fails. -/
  | renderChildren (node : Nat)
  /-- Run the handler beneath the current one on the current node. -/
  | delegate
  /-- Enter a region without links. -/
  | suppressLinks
  /-- Leave the innermost region without links, if there is one. -/
  | allowLinks
  | look
  | note (n : Note)

/-- The type of the answer to a request. -/
def Request.Answer : Request → Type
  | write _ => Outcome
  | render _ => Outcome
  | renderChildren _ => Outcome
  | delegate => Outcome
  | suppressLinks => Unit
  | allowLinks => Unit
  | look => View
  | note _ => Unit

/-- A finite program that makes requests and ends with an `α`. -/
inductive Program (α : Type) where
  | done (a : α)
  | ask (request : Request) (next : request.Answer → Program α)

namespace Program

variable {α β : Type}

/-- Goes on with `f` where a program ends. -/
def bind : Program α → (α → Program β) → Program β
  | done a, f => f a
  | ask request next, f => ask request fun answer => (next answer).bind f

instance : Monad Program where
  pure := done
  bind := bind

/-- The program that makes one request and ends with the answer. -/
def request (r : Request) : Program r.Answer := ask r done

/-- Runs a program, given how each request is answered. -/
def run {m : Type → Type} [Monad m] (answer : (r : Request) → m r.Answer) : Program α → m α
  | done a => pure a
  | ask r next => do
    let reply ← answer r
    (next reply).run answer

@[simp] theorem run_done {m : Type → Type} [Monad m] (answer : (r : Request) → m r.Answer) (a : α) :
    (done a).run answer = (pure a : m α) := rfl

@[simp] theorem run_ask {m : Type → Type} [Monad m] (answer : (r : Request) → m r.Answer)
    (r : Request) (next : r.Answer → Program α) :
    (ask r next).run answer = answer r >>= fun reply => (next reply).run answer := rfl

theorem run_bind {m : Type → Type} [Monad m] [LawfulMonad m]
    (answer : (r : Request) → m r.Answer) (p : Program α) (f : α → Program β) :
    (p.bind f).run answer = p.run answer >>= fun a => (f a).run answer := by
  induction p with
  | done a => simp [bind]
  | ask r next ih => simp [bind, ih]

end Program

/-- A program that may end with an error instead. -/
abbrev Rendering (α : Type) := ExceptT RenderError Program α

namespace Rendering

def write (command : Command) : Rendering Unit := ExceptT.mk (Program.request (.write command))

def start (name : String) (attributes : Attributes := .none) : Rendering Unit :=
  write (.start name attributes)

def finish : Rendering Unit := write .finish

def finishMany : Nat → Rendering Unit
  | 0 => pure ()
  | n + 1 => do
    finish
    finishMany n

def characters (text : String) : Rendering Unit := write (.characters text)

def instruction (target : String) (data : Option String) : Rendering Unit :=
  write (.instruction target data)

def node (id : Nat) : Rendering Unit := ExceptT.mk (Program.request (.render id))

/-- Runs the outermost handlers of the children of a node. -/
def childrenOf (id : Nat) : Rendering Unit := ExceptT.mk (Program.request (.renderChildren id))

/-- Runs the outermost handlers of nodes in turn. -/
def nodes : List Nat → Rendering Unit
  | [] => pure ()
  | id :: rest => do
    node id
    nodes rest

def delegate : Rendering Unit := ExceptT.mk (Program.request .delegate)

def suppressLinks : Rendering Unit := ExceptT.lift (Program.request .suppressLinks)

/-- Leaves the innermost region without links. -/
def allowLinks : Rendering Unit := ExceptT.lift (Program.request .allowLinks)

def look : Rendering View := ExceptT.lift (Program.request .look)

def note (n : Note) : Rendering Unit := ExceptT.lift (Program.request (.note n))

def fail (e : RenderError) : Rendering Unit := throw e

/-- How a program ends, without ending with it. -/
def outcomeOf (p : Rendering Unit) : Rendering Outcome := ExceptT.lift p.run

/-- An element with what `content` writes inside. -/
def element (name : String) (attributes : Attributes) (content : Rendering Unit) :
    Rendering Unit := do
  start name attributes
  content
  finish

end Rendering

end DitaTopic.Render
