import DitaTopic.Document.Kind

/-!
# Arenas

The nodes of a document in the order of their creation, linked to their parent,
first and last child and next sibling. A node is referred to by its place in that
order; node 0 is the root.

`Arena.Built` holds of the arenas that `root`, `append` and `extend` produce. Links
point forward in them, so following them ends; the traversals here check that each
step goes forward and so are total on every arena.
-/

namespace DitaTopic.Document

/-- One node with its links. -/
structure Node where
  kind : NodeKind
  parent : Option Nat := none
  firstChild : Option Nat := none
  lastChild : Option Nat := none
  next : Option Nat := none
  deriving Repr, DecidableEq, Inhabited

/-- Nodes in the order of their creation. -/
structure Arena where
  nodes : Array Node
  deriving Repr, DecidableEq

namespace Arena

/-- The arena that holds only a document node. -/
def root : Arena := ⟨#[{ kind := .document }]⟩

def size (a : Arena) : Nat := a.nodes.size

def node? (a : Arena) (id : Nat) : Option Node := a.nodes[id]?

def kind? (a : Arena) (id : Nat) : Option NodeKind := (a.node? id).map Node.kind

def modify (a : Arena) (id : Nat) (f : Node → Node) : Arena := ⟨a.nodes.modify id f⟩

/-- Links `child` behind the last child of `parent`, or as the first one. -/
def link (a : Arena) (parent child : Nat) : Arena :=
  match (a.node? parent).bind Node.lastChild with
  | some last => a.modify last fun n => { n with next := some child }
  | none => a.modify parent fun n => { n with firstChild := some child }

/-- Adds a node as the last child of `parent`. -/
def append (a : Arena) (parent : Nat) (kind : NodeKind) : Arena :=
  let grown : Arena := ⟨a.nodes.push { kind, parent := some parent }⟩
  (grown.link parent a.size).modify parent fun n => { n with lastChild := some a.size }

def extend (a : Arena) (id : Nat) (more : String) : Arena :=
  a.modify id fun n => { n with kind := n.kind.extend more }

@[simp] theorem size_modify (a : Arena) (id : Nat) (f : Node → Node) :
    (a.modify id f).size = a.size := by
  simp [modify, size]

@[simp] theorem size_link (a : Arena) (parent child : Nat) :
    (a.link parent child).size = a.size := by
  unfold link
  split <;> simp

@[simp] theorem size_append (a : Arena) (parent : Nat) (kind : NodeKind) :
    (a.append parent kind).size = a.size + 1 := by
  simp only [append, size_modify, size_link]
  simp [size]

@[simp] theorem size_extend (a : Arena) (id : Nat) (more : String) :
    (a.extend id more).size = a.size := size_modify ..

/-- The arenas that come from a lone root by appending nodes and extending texts. -/
inductive Built : Arena → Prop where
  | root : Built root
  | append {a : Arena} (h : Built a) {parent : Nat} (inside : parent < a.size)
      (kind : NodeKind) : Built (a.append parent kind)
  | extend {a : Arena} (h : Built a) (id : Nat) (more : String) : Built (a.extend id more)

theorem Built.size_pos {a : Arena} (h : Built a) : 0 < a.size := by
  induction h with
  | root => exact Nat.zero_lt_one
  | append _ _ _ _ => simp
  | extend _ _ _ ih => simpa using ih

theorem lt_size_of_node? {a : Arena} {id : Nat} {n : Node} (h : a.node? id = some n) :
    id < a.size := by
  obtain ⟨hlt, _⟩ := Array.getElem?_eq_some_iff.1 h
  exact hlt

/-- A node and the siblings after it. -/
def siblingsFrom (a : Arena) (id : Nat) : List Nat :=
  match _inside : a.node? id with
  | none => []
  | some n =>
    match n.next with
    | none => [id]
    | some following => if _forward : id < following then id :: a.siblingsFrom following else [id]
termination_by a.size - id
decreasing_by
  have := lt_size_of_node? _inside
  omega

theorem mem_siblingsFrom {a : Arena} {id c : Nat} (h : c ∈ a.siblingsFrom id) :
    id ≤ c ∧ c < a.size := by
  fun_induction siblingsFrom a id with
  | case1 => simp at h
  | case2 id n hn _ =>
    simp only [List.mem_singleton] at h
    exact ⟨by omega, h ▸ lt_size_of_node? hn⟩
  | case3 id n hn following _ hlt ih =>
    rcases List.mem_cons.1 h with rfl | h
    · exact ⟨Nat.le_refl _, lt_size_of_node? hn⟩
    · have := ih h
      exact ⟨by omega, this.2⟩
  | case4 id n hn _ _ _ =>
    simp only [List.mem_singleton] at h
    exact ⟨by omega, h ▸ lt_size_of_node? hn⟩

/-- The children of a node in order. -/
def children (a : Arena) (id : Nat) : List Nat :=
  match (a.node? id).bind Node.firstChild with
  | none => []
  | some first => if id < first then a.siblingsFrom first else []

theorem mem_children {a : Arena} {id c : Nat} (h : c ∈ a.children id) :
    id < c ∧ c < a.size := by
  unfold children at h
  split at h
  · simp at h
  · split at h
    · next hlt =>
      have := mem_siblingsFrom h
      exact ⟨by omega, this.2⟩
    · simp at h

/-- A node and everything below it, each node before its children. -/
def subtree (a : Arena) (id : Nat) : List Nat :=
  if id < a.size then id :: (a.children id).attach.flatMap fun c => a.subtree c.1 else []
termination_by a.size - id
decreasing_by
  have := mem_children c.2
  omega

theorem subtree_eq (a : Arena) (id : Nat) :
    a.subtree id = if id < a.size then id :: (a.children id).flatMap a.subtree else [] := by
  rw [subtree, @List.flatMap_subtype _ _ _ _ _ a.subtree fun _ _ => rfl]
  simp

def textContent (a : Arena) (id : Nat) : String :=
  String.join ((a.subtree id).map fun n => ((a.kind? n).map NodeKind.ownText).getD "")

end Arena

end DitaTopic.Document
