import Mathlib.Data.List.Basic
import DitaTopic.Proofs.Document.Links

/-!
# The tree of a document

An arena read as a rose tree, and the nodes of it that a walk meets which does not go below
leaves. The walk meets exactly the nodes without a leaf among their ancestors; where a leaf has
children all the same, nothing is said about those.
-/

namespace DitaTopic.Document

/-- Whether a kind stands for text or a break itself and has no content of its own below it. -/
def NodeKind.isLeaf : NodeKind → Bool
  | text _ => true
  | code _ => true
  | codeBlock .. => true
  | htmlBlock _ => true
  | inlineHtml _ => true
  | softBreak => true
  | hardBreak => true
  | thematicBreak => true
  | _ => false

/-- A node with its kind, its number in the arena and the trees of its children. -/
inductive Tree where
  | node (id : Nat) (kind : NodeKind) (children : List Tree)

namespace Tree

def id : Tree → Nat
  | node id _ _ => id

def kind : Tree → NodeKind
  | node _ kind _ => kind

def children : Tree → List Tree
  | node _ _ children => children

@[elab_as_elim, induction_eliminator]
theorem induction {motive : Tree → Prop}
    (node : ∀ id kind children, (∀ t ∈ children, motive t) → motive (node id kind children)) :
    ∀ t, motive t
  | .node id kind children => node id kind children fun t _ => induction node t

mutual
/-- The kinds of all nodes, each before those of its children. -/
def kinds : Tree → List NodeKind
  | node _ kind children => kind :: kindsOf children

/-- The kinds of all nodes of trees in turn. -/
def kindsOf : List Tree → List NodeKind
  | [] => []
  | t :: rest => t.kinds ++ kindsOf rest
end

mutual
/-- The kinds of the nodes met by a walk that does not go below leaves. -/
def visited : Tree → List NodeKind
  | node _ kind children => kind :: if kind.isLeaf then [] else visitedOf children

/-- The kinds met in trees in turn. -/
def visitedOf : List Tree → List NodeKind
  | [] => []
  | t :: rest => t.visited ++ visitedOf rest
end

theorem kindsOf_eq (ts : List Tree) : kindsOf ts = ts.flatMap kinds := by
  induction ts with
  | nil => rfl
  | cons t rest ih => rw [kindsOf, ih, List.flatMap_cons]

theorem visitedOf_eq (ts : List Tree) : visitedOf ts = ts.flatMap visited := by
  induction ts with
  | nil => rfl
  | cons t rest ih => rw [visitedOf, ih, List.flatMap_cons]

end Tree

namespace Arena

/-- A property of a node holds if it holds of a node whenever it holds of all its children. -/
theorem descent {motive : Nat → Prop} (a : Arena)
    (step : ∀ id, (∀ c ∈ a.children id, motive c) → motive id) (id : Nat) : motive id :=
  step id fun c _ => descent a step c
termination_by a.size - id
decreasing_by
  have := mem_children ‹c ∈ a.children id›
  omega

def tree (a : Arena) (id : Nat) : Tree :=
  .node id ((a.kind? id).getD .document) ((a.children id).attach.map fun c => a.tree c.1)
termination_by a.size - id
decreasing_by
  have := mem_children c.2
  omega

theorem tree_eq (a : Arena) (id : Nat) :
    a.tree id = .node id ((a.kind? id).getD .document) ((a.children id).map a.tree) := by
  rw [tree, List.map_subtype (g := a.tree) fun _ _ => rfl, List.unattach_attach]

theorem id_tree (a : Arena) (id : Nat) : (a.tree id).id = id := by
  rw [tree_eq]
  rfl

/-- The nodes above a node, nearest first. -/
def ancestors (a : Arena) (id : Nat) : List Nat :=
  match a.parent? id with
  | none => []
  | some p => if _up : p < id then p :: a.ancestors p else []
termination_by id

theorem Linked.ancestors_eq {a : Arena} (h : Linked a) {c p : Nat} (hc : a.parent? c = some p) :
    a.ancestors c = p :: a.ancestors p := by
  rw [ancestors, hc]
  exact dif_pos (h.parent_lt hc)

/-- Whether there is a leaf above a node. -/
def underLeaf (a : Arena) (id : Nat) : Bool :=
  (a.ancestors id).any fun p => (a.kind? p).any NodeKind.isLeaf

variable {a : Arena}

theorem kind?_eq_some {id : Nat} (h : id < a.size) :
    a.kind? id = some ((a.kind? id).getD .document) := by
  have hn : a.node? id = some a.nodes[id] := Array.getElem?_eq_getElem h
  rw [kind?, hn]
  rfl

theorem underLeaf_of_mem_children (h : Built a) {id c : Nat} (hc : c ∈ a.children id) :
    a.underLeaf c = ((a.kind? id).any NodeKind.isLeaf || a.underLeaf id) := by
  rw [underLeaf, h.linked.ancestors_eq (h.parent?_of_mem_children hc), List.any_cons, underLeaf]

theorem underLeaf_root (a : Arena) : a.underLeaf 0 = false := by
  rw [underLeaf, ancestors]
  cases a.parent? 0 <;> rfl

/-- The kinds of a tree are those of the subtree it was read from. -/
theorem kinds_tree (id : Nat) (inside : id < a.size) :
    (a.tree id).kinds = (a.subtree id).filterMap a.kind? := by
  induction id using descent a with
  | step id ih =>
    rw [tree_eq, subtree_eq, if_pos inside, Tree.kinds, Tree.kindsOf_eq,
      List.filterMap_cons_some (kind?_eq_some inside), List.flatMap_map, List.filterMap_flatMap]
    congr 1
    apply List.flatMap_congr
    intro c hc
    exact ih c hc (mem_children hc).2

theorem le_of_mem_subtree {id n : Nat} (h : n ∈ a.subtree id) : id ≤ n := by
  induction id using descent a with
  | step id ih =>
    rw [subtree_eq] at h
    split at h
    · rcases List.mem_cons.mp h with rfl | h
      · exact Nat.le_refl n
      · obtain ⟨c, hc, hn⟩ := List.mem_flatMap.mp h
        have hlt := mem_children hc
        have hle := ih c hc hn
        omega
    · cases h

/-- With a node the children of the node are in a subtree. -/
theorem mem_subtree_of_mem_children {id n c : Nat} (hn : n ∈ a.subtree id)
    (hc : c ∈ a.children n) : c ∈ a.subtree id := by
  induction id using descent a with
  | step id ih =>
    rw [subtree_eq] at hn ⊢
    split at hn
    · next inside =>
      rw [if_pos inside]
      apply List.mem_cons_of_mem
      apply List.mem_flatMap.mpr
      rcases List.mem_cons.mp hn with rfl | hn
      · refine ⟨c, hc, ?_⟩
        rw [subtree_eq, if_pos (mem_children hc).2]
        exact List.mem_cons_self ..
      · obtain ⟨child, hchild, hn⟩ := List.mem_flatMap.mp hn
        exact ⟨child, hchild, ih child hchild hn⟩
    · cases hn

/-- Every node of a built arena is below the root. -/
theorem Built.mem_subtree (h : Built a) (id : Nat) (inside : id < a.size) : id ∈ a.subtree 0 := by
  by_cases hid : id = 0
  · subst hid
    rw [subtree_eq, if_pos inside]
    exact List.mem_cons_self ..
  · obtain ⟨p, hp⟩ := h.exists_parent inside hid
    have hlt := h.linked.parent_lt hp
    have hmem := h.mem_subtree p (Nat.lt_trans hlt inside)
    exact mem_subtree_of_mem_children hmem (h.mem_children hp)
termination_by id

theorem lt_size_of_mem_subtree {id n : Nat} (h : n ∈ a.subtree id) : n < a.size := by
  induction id using descent a with
  | step id ih =>
    rw [subtree_eq] at h
    split at h
    · next inside =>
      rcases List.mem_cons.mp h with rfl | h
      · exact inside
      · obtain ⟨c, hc, hn⟩ := List.mem_flatMap.mp h
        exact ih c hc hn
    · cases h

/-- Below a leaf every node is under a leaf. -/
theorem underLeaf_of_mem_subtree (h : Built a) {id n : Nat} (hid : a.underLeaf id = true)
    (hn : n ∈ a.subtree id) : a.underLeaf n = true := by
  induction id using descent a with
  | step id ih =>
    rw [subtree_eq] at hn
    split at hn
    · rcases List.mem_cons.mp hn with rfl | hn
      · exact hid
      · obtain ⟨c, hc, hn⟩ := List.mem_flatMap.mp hn
        apply ih c hc _ hn
        rw [underLeaf_of_mem_children h hc, hid, Bool.or_true]
    · cases hn

/-- The nodes of a subtree that no leaf stands above. -/
def visitedFrom (a : Arena) (id : Nat) : List Nat := (a.subtree id).filter fun n => !a.underLeaf n

theorem Built.underLeaf_child (h : Built a) {id c : Nat} (hc : c ∈ a.children id)
    (hleaf : ((a.kind? id).getD .document).isLeaf = false) (hid : a.underLeaf id = false) :
    a.underLeaf c = false := by
  obtain ⟨hlt, inside⟩ := Arena.mem_children hc
  have hkind := kind?_eq_some (Nat.lt_trans hlt inside)
  rw [underLeaf_of_mem_children h hc, hkind, Option.any_some, hleaf, hid, Bool.or_false]

theorem Built.visitedFrom_eq (h : Built a) {id : Nat} (inside : id < a.size)
    (hid : a.underLeaf id = false) :
    a.visitedFrom id = id :: if ((a.kind? id).getD .document).isLeaf then []
      else (a.children id).flatMap a.visitedFrom := by
  rw [visitedFrom, subtree_eq, if_pos inside, List.filter_cons_of_pos (by rw [hid]; rfl)]
  congr 1
  split
  · next hleaf =>
    -- a walk stops here, and the nodes below are all under a leaf
    rw [List.filter_eq_nil_iff]
    intro n hn
    obtain ⟨c, hc, hn⟩ := List.mem_flatMap.mp hn
    have hunder : a.underLeaf c = true := by
      rw [underLeaf_of_mem_children h hc, kind?_eq_some inside, Option.any_some, hleaf,
        Bool.true_or]
    rw [underLeaf_of_mem_subtree h hunder hn]
    decide
  · exact List.filter_flatMap

/-- The walk that does not go below leaves meets the nodes that are not under a leaf. -/
theorem visited_tree (h : Built a) (id : Nat) (inside : id < a.size)
    (hid : a.underLeaf id = false) :
    (a.tree id).visited = (a.visitedFrom id).filterMap a.kind? := by
  induction id using descent a with
  | step id ih =>
    rw [tree_eq, h.visitedFrom_eq inside hid, Tree.visited, Tree.visitedOf_eq, List.flatMap_map,
      List.filterMap_cons_some (kind?_eq_some inside)]
    congr 1
    split
    · rfl
    · next hleaf =>
      rw [List.filterMap_flatMap]
      apply List.flatMap_congr
      intro c hc
      exact ih c hc (mem_children hc).2
        (h.underLeaf_child hc (Bool.eq_false_iff.mpr hleaf) hid)

end Arena

def tree (doc : Document) : Tree := doc.arena.tree rootId

/-- The nodes that no leaf stands above, in the order of the document. -/
def visited (doc : Document) : List Nat := doc.preorder.filter fun id => !doc.arena.underLeaf id

theorem mem_visited {doc : Document} {id : Nat} :
    id ∈ doc.visited ↔ id < doc.size ∧ doc.arena.underLeaf id = false := by
  rw [visited, List.mem_filter, Bool.not_eq_true']
  refine and_congr_left fun _ => ⟨Arena.lt_size_of_mem_subtree, doc.built.mem_subtree id⟩

/-- No leaf has children. -/
def LeavesAreChildless (doc : Document) : Prop :=
  ∀ id p, doc.arena.parent? id = some p → (doc.kind? p).any NodeKind.isLeaf = false

/-- Where no leaf has children, no node is under a leaf. -/
theorem LeavesAreChildless.underLeaf {doc : Document} (h : doc.LeavesAreChildless) (id : Nat) :
    doc.arena.underLeaf id = false := by
  cases hp : doc.arena.parent? id with
  | none =>
    rw [Arena.underLeaf, Arena.ancestors, hp]
    rfl
  | some p =>
    have hlinked := doc.built.linked
    have hlt := hlinked.parent_lt hp
    have hparent : doc.arena.underLeaf p = false := h.underLeaf p
    rw [Arena.underLeaf] at hparent ⊢
    rw [hlinked.ancestors_eq hp, List.any_cons, hparent, Bool.or_false]
    exact h id p hp
termination_by id

end DitaTopic.Document
