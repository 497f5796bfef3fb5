import DitaTopic.Document.Arena
import DitaTopic.Options.View

/-!
# Documents

A document is a built arena with the options that apply to it alone. Since an arena
is built only by appending, every document is a tree rooted at node 0.
-/

namespace DitaTopic

/-- A document: its nodes and its own options. -/
structure Document where
  arena : Document.Arena
  options : Options.OptionSet
  built : arena.Built

namespace Document

/-- A node id that does not belong to a document. -/
structure UnknownNode where
  id : Nat
  deriving Repr, DecidableEq

/-- The text of the complaint about an unknown node. -/
def UnknownNode.message (e : UnknownNode) : String :=
  "node NodeId(" ++ toString e.id ++ ") not in document"

def empty : Document := ⟨Arena.root, KeyedList.empty, .root⟩

instance : Inhabited Document := ⟨empty⟩

def rootId : Nat := 0

def size (doc : Document) : Nat := doc.arena.size

def isEmpty (doc : Document) : Bool := doc.size == 1

def node? (doc : Document) (id : Nat) : Option Node := doc.arena.node? id

def kind? (doc : Document) (id : Nat) : Option NodeKind := doc.arena.kind? id

def type? (doc : Document) (id : Nat) : Option NodeType := (doc.kind? id).map NodeKind.type

def children (doc : Document) (id : Nat) : List Nat := doc.arena.children id

/-- A node and everything below it, each node before its children. -/
def subtree (doc : Document) (id : Nat) : List Nat := doc.arena.subtree id

/-- Every node, each before its children. -/
def preorder (doc : Document) : List Nat := doc.subtree rootId

def textContent (doc : Document) (id : Nat) : String := doc.arena.textContent id

/-- The document with other options of its own. -/
def withOptions (doc : Document) (options : Options.OptionSet) : Document := { doc with options }

/-- Adds a node as the last child of `parent`; nothing happens if `parent` is no node. -/
def attach (doc : Document) (parent : Nat) (kind : NodeKind) : Document :=
  if inside : parent < doc.size then
    { doc with arena := doc.arena.append parent kind, built := doc.built.append inside kind }
  else doc

/-- Adds a node as the last child of `parent` and gives its id. -/
def append (doc : Document) (parent : Nat) (kind : NodeKind) :
    Except UnknownNode (Nat × Document) :=
  if parent < doc.size then .ok (doc.size, doc.attach parent kind) else .error ⟨parent⟩

/-- Adds nodes one after the other, each to the parent named with it. -/
def appendAll (doc : Document) (nodes : List (Nat × NodeKind)) : Except UnknownNode Document :=
  nodes.foldlM (fun d p => (d.append p.1 p.2).map Prod.snd) doc

def extendText (doc : Document) (id : Nat) (more : String) : Document :=
  { doc with arena := doc.arena.extend id more, built := doc.built.extend id more }

/-- Adds text under `parent`: to its literal if it has one, else to its last child if that is a
text, else as a new child. -/
def addText (doc : Document) (parent : Nat) (text : String) : Document :=
  match doc.kind? parent with
  | some (.codeBlock ..) => doc.extendText parent text
  | some (.htmlBlock _) => doc.extendText parent text
  | _ =>
    match (doc.node? parent).bind Node.lastChild with
    | none => doc.attach parent (.text text)
    | some last =>
      match doc.kind? last with
      | some (.text _) => doc.extendText last text
      | _ => doc.attach parent (.text text)

end Document

end DitaTopic
