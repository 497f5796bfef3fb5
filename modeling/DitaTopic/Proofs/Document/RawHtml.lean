import DitaTopic.Proofs.Document.Tree

/-!
# Documents that differ in raw HTML

Two documents that are equal once every piece of raw HTML in them is emptied. They have the same
nodes of the same types in the same places and, since raw HTML is no text of a node, the same
texts.
-/

namespace DitaTopic

namespace Document

/-- The kind with raw HTML emptied. -/
def NodeKind.withoutHtml : NodeKind → NodeKind
  | htmlBlock _ => htmlBlock ""
  | inlineHtml _ => inlineHtml ""
  | kind => kind

theorem NodeKind.type_withoutHtml (kind : NodeKind) : kind.withoutHtml.type = kind.type := by
  cases kind <;> rfl

theorem NodeKind.ownText_withoutHtml (kind : NodeKind) :
    kind.withoutHtml.ownText = kind.ownText := by
  cases kind <;> rfl

def Node.withoutHtml (n : Node) : Node := { n with kind := n.kind.withoutHtml }

namespace Tree

mutual
def withoutHtml : Tree → Tree
  | node id kind children => node id kind.withoutHtml (withoutHtmlAll children)

def withoutHtmlAll : List Tree → List Tree
  | [] => []
  | t :: rest => t.withoutHtml :: withoutHtmlAll rest
end

theorem withoutHtmlAll_eq (ts : List Tree) : withoutHtmlAll ts = ts.map withoutHtml := by
  induction ts with
  | nil => rfl
  | cons t rest ih => rw [withoutHtmlAll, ih, List.map_cons]

theorem withoutHtml_node (id : Nat) (kind : NodeKind) (children : List Tree) :
    (node id kind children).withoutHtml =
      node id kind.withoutHtml (children.map withoutHtml) := by
  rw [withoutHtml, withoutHtmlAll_eq]

theorem id_withoutHtml (t : Tree) : t.withoutHtml.id = t.id := by
  obtain ⟨id, kind, children⟩ := t
  rfl

theorem type_withoutHtml (t : Tree) : t.withoutHtml.kind.type = t.kind.type := by
  obtain ⟨id, kind, children⟩ := t
  exact kind.type_withoutHtml

end Tree

namespace Arena

/-- The arena with all raw HTML in it emptied. -/
def withoutHtml (a : Arena) : Arena := ⟨a.nodes.map Node.withoutHtml⟩

theorem size_withoutHtml (a : Arena) : a.withoutHtml.size = a.size := Array.size_map ..

theorem node?_withoutHtml (a : Arena) (id : Nat) :
    a.withoutHtml.node? id = (a.node? id).map Node.withoutHtml := Array.getElem?_map ..

theorem kind?_withoutHtml (a : Arena) (id : Nat) :
    a.withoutHtml.kind? id = (a.kind? id).map NodeKind.withoutHtml := by
  rw [kind?, node?_withoutHtml, kind?]
  cases a.node? id <;> rfl

theorem parent?_withoutHtml (a : Arena) (id : Nat) : a.withoutHtml.parent? id = a.parent? id := by
  rw [parent?, node?_withoutHtml, parent?]
  cases a.node? id <;> rfl

theorem kids_withoutHtml (a : Arena) (id : Nat) : a.withoutHtml.kids id = a.kids id := by
  simp only [kids, size_withoutHtml, parent?_withoutHtml]

end Arena

/-- Documents with the same options and, but for their raw HTML, the same nodes. -/
structure DifferInHtml (doc other : Document) : Prop where
  options : doc.options = other.options
  arena : doc.arena.withoutHtml = other.arena.withoutHtml

namespace DifferInHtml

variable {doc other : Document}

theorem size (h : doc.DifferInHtml other) : doc.size = other.size := by
  rw [Document.size, ← Arena.size_withoutHtml, h.arena, Arena.size_withoutHtml, Document.size]

theorem kind? (h : doc.DifferInHtml other) (id : Nat) :
    (doc.kind? id).map NodeKind.withoutHtml = (other.kind? id).map NodeKind.withoutHtml := by
  have hkind : doc.arena.withoutHtml.kind? id = other.arena.withoutHtml.kind? id := by rw [h.arena]
  rwa [Arena.kind?_withoutHtml, Arena.kind?_withoutHtml] at hkind

theorem type? (h : doc.DifferInHtml other) (id : Nat) : doc.type? id = other.type? id := by
  have htype : NodeKind.type ∘ NodeKind.withoutHtml = NodeKind.type :=
    funext NodeKind.type_withoutHtml
  have hkind := congrArg (Option.map NodeKind.type) (h.kind? id)
  rwa [Option.map_map, Option.map_map, htype] at hkind

theorem parent? (h : doc.DifferInHtml other) (id : Nat) :
    doc.arena.parent? id = other.arena.parent? id := by
  rw [← Arena.parent?_withoutHtml, h.arena, Arena.parent?_withoutHtml]

/-- The children follow from the parents. -/
theorem children (h : doc.DifferInHtml other) (id : Nat) : doc.children id = other.children id := by
  rw [Document.children, Document.children, doc.built.children_eq, other.built.children_eq,
    ← Arena.kids_withoutHtml, h.arena, Arena.kids_withoutHtml]

theorem subtree (h : doc.DifferInHtml other) (id : Nat) : doc.subtree id = other.subtree id := by
  have hsize : doc.arena.size = other.arena.size := h.size
  have hchildren : doc.arena.children id = other.arena.children id := h.children id
  induction id using doc.arena.descent with
  | step id ih =>
    show doc.arena.subtree id = other.arena.subtree id
    rw [Arena.subtree_eq, Arena.subtree_eq, hsize, ← hchildren]
    congr 2
    exact List.flatMap_congr fun c hc => ih c hc (h.children c)

theorem textContent (h : doc.DifferInHtml other) (id : Nat) :
    doc.textContent id = other.textContent id := by
  have hown : NodeKind.ownText ∘ NodeKind.withoutHtml = NodeKind.ownText :=
    funext NodeKind.ownText_withoutHtml
  have htext (n : Nat) : (doc.arena.kind? n).map NodeKind.ownText =
      (other.arena.kind? n).map NodeKind.ownText := by
    have hkind := congrArg (Option.map NodeKind.ownText) (h.kind? n)
    rwa [Option.map_map, Option.map_map, hown] at hkind
  have hsubtree : doc.arena.subtree id = other.arena.subtree id := h.subtree id
  rw [Document.textContent, Document.textContent, Arena.textContent, Arena.textContent]
  simp only [hsubtree, htext]

/-- The trees of a node are equal but for raw HTML. -/
theorem tree (h : doc.DifferInHtml other) (id : Nat) :
    (doc.arena.tree id).withoutHtml = (other.arena.tree id).withoutHtml := by
  have hchildren : doc.arena.children id = other.arena.children id := h.children id
  induction id using doc.arena.descent with
  | step id ih =>
    have hkind : ((doc.arena.kind? id).getD .document).withoutHtml =
        ((other.arena.kind? id).getD .document).withoutHtml := by
      have hmap := congrArg (Option.getD · NodeKind.document.withoutHtml) (h.kind? id)
      exact (Option.getD_map ..).symm.trans (hmap.trans (Option.getD_map ..))
    rw [Arena.tree_eq, Arena.tree_eq, Tree.withoutHtml_node, Tree.withoutHtml_node, hkind,
      ← hchildren, List.map_map, List.map_map]
    congr 1
    exact List.map_congr_left fun c hc => ih c hc (h.children c)

end DifferInHtml

end Document

end DitaTopic
