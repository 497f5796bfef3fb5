import DitaTopic.Proofs.Topic.Strokes

/-!
# Reading strokes

A question that is put to each stroke on its own and has nothing to say of those that only build
elements is answered over a tree by the nodes of the tree in turn: what a node adds to the answers
of its children is said by the strokes that only nodes of its kind make.
-/

namespace DitaTopic.Topic

open DitaTopic.Document (ColumnAlignment NodeKind NodeType Tree)
open DitaTopic.Markup

variable {β : Type} {f : Stroke → List β}

/-- A reading passes over the strokes that build elements, unless these have an identifier. -/
structure PassesOver (f : Stroke → List β) : Prop where
  start : ∀ name attributes, attributes.get? "id" = none → f (.start name attributes) = []
  finish : f .finish = []
  startBody : f .startBody = []
  finishBody : f .finishBody = []

theorem PassesOver.around (hf : PassesOver f) {name : String} {attributes : Attributes}
    (h : attributes.get? "id" = none) (inside : List Stroke) :
    (around name attributes inside).flatMap f = inside.flatMap f := by
  rw [Topic.around, List.flatMap_cons, hf.start name attributes h, List.flatMap_append,
    List.flatMap_singleton, hf.finish, List.append_nil, List.nil_append]

theorem flatMap_wholes (items : List Part) :
    (wholes items).flatMap f = items.flatMap fun part => part.whole.flatMap f :=
  List.flatMap_assoc

theorem PassesOver.columnStrokes (hf : PassesOver f) (index : Nat)
    (alignments : List ColumnAlignment) : (columnStrokes index alignments).flatMap f = [] := by
  induction alignments generalizing index with
  | nil => rfl
  | cons alignment rest ih =>
    have hid : ((Attributes.none.push "colname" ("col" ++ toString index)).pushSome "align"
        (alignmentName alignment)).get? "id" = none := by
      simp [Attributes.get?_pushSome, Attributes.get?_push]
    rw [Topic.columnStrokes, List.flatMap_append, hf.around hid, ih]
    rfl

theorem PassesOver.rowStrokes (hf : PassesOver f) (inBody : Bool) (items : List Part) :
    (rowStrokes inBody items).flatMap f = items.flatMap fun part => part.whole.flatMap f := by
  induction items generalizing inBody with
  | nil => cases inBody <;> simp [Topic.rowStrokes, hf.finish]
  | cons part rest ih =>
    have hstart : f (.start "tbody" .none) = [] := hf.start _ _ rfl
    rw [Topic.rowStrokes]
    simp only [List.flatMap_append, ih, List.flatMap_cons]
    cases (part.type == NodeType.tableRow) && !inBody <;> simp [hstart]

/-- What a document node says is said of its `topic`, then by what its children are used for. -/
theorem PassesOver.documentStrokes (hf : PassesOver f) (r : Rules) (o : Opening Part) :
    (documentStrokes r o).flatMap f =
      f (.start "topic" (topicAttributes (o.title.bind fun part => r.idOf part.tree.id))) ++
        ((o.title.elim [] Part.inside).flatMap f ++ ((o.shortdesc.elim [] Part.inside).flatMap f ++
          o.body.flatMap fun part => part.whole.flatMap f)) := by
  have hshortdesc :
      (o.shortdesc.elim [] fun part => Topic.around "shortdesc" .none part.inside).flatMap f =
        (o.shortdesc.elim [] Part.inside).flatMap f := by
    cases o.shortdesc with
    | none => rfl
    | some part => exact hf.around rfl part.inside
  rw [Topic.documentStrokes, List.flatMap_cons, List.flatMap_append, hf.around rfl,
    List.flatMap_append, hshortdesc, List.flatMap_cons, hf.startBody, List.flatMap_append,
    flatMap_wholes, List.flatMap_singleton, hf.finishBody, List.append_nil, List.nil_append]

/-- The stroke with which a node begins that may give it an identifier. -/
def lead (r : Rules) (top : Bool) (id : Nat) : NodeKind → List Stroke
  | .heading level _ =>
    [if top then .startSection (sectionAttributes r id) (nestedAttributes r id level)
      else .start "p" (nestedAttributes r id level)]
  | _ => []

theorem linkAttributes_get?_id (settings : Settings) (url : String) :
    (linkAttributes settings url).get? "id" = none := by
  rw [linkAttributes]
  split <;> simp [Attributes.get?_push]

theorem imageAttributes_get?_id (settings : Settings) (url : String) :
    (imageAttributes settings url).get? "id" = none := by
  rw [imageAttributes]
  split <;> simp [Attributes.get?_push]

variable {r : Rules}

theorem flatMap_children (top : Bool) (k : Nat) (children : List Tree) :
    (wholes (parts r top k children)).flatMap f =
      children.flatMap fun t => (strokes r top k t).flatMap f := by
  rw [wholes_parts, List.flatMap_assoc]

/-- How many regions without links are around the children of a node with `k` around it. -/
def linklessBelow (k : Nat) : NodeKind → Nat
  | .image .. => k + 1
  | _ => k

/-- A node that is neither a leaf nor a document node, and that somebody handles, says what it
begins with and what its children say. -/
theorem PassesOver.node (hf : PassesOver f) (top : Bool) (k id : Nat) {kind : NodeKind}
    (children : List Tree) (hleaf : kind.isLeaf = false) (hdocument : kind ≠ .document)
    (hcustom : ∀ name literal, kind ≠ .custom name literal) :
    (strokes r top k (.node id kind children)).flatMap f =
      (lead r top id kind).flatMap f ++
        children.flatMap fun t => (strokes r false (linklessBelow k kind) t).flatMap f := by
  have hchildren := fun k => flatMap_children (f := f) (r := r) false k children
  cases kind with
  | document => exact absurd rfl hdocument
  | custom name literal => exact absurd rfl (hcustom name literal)
  | codeBlock | htmlBlock | text | code | inlineHtml | softBreak | hardBreak | thematicBreak =>
    cases hleaf
  | heading level written =>
    rw [strokes, List.flatMap_cons, List.flatMap_append, hchildren, lead]
    simp [hf.finish, linklessBelow]
  | table alignments =>
    have hcols : (Attributes.none.push "cols" (toString alignments.length)).get? "id" = none := by
      simp [Attributes.get?_push]
    rw [strokes, hf.around rfl, hf.around hcols, List.flatMap_append, hf.columnStrokes,
      hf.rowStrokes, ← flatMap_wholes, hchildren]
    rfl
  | tableHead =>
    rw [strokes, hf.around rfl, hf.around rfl, hchildren]
    rfl
  | link url title =>
    rw [strokes]
    split
    · exact hchildren k
    · rw [hf.around (linkAttributes_get?_id ..), hchildren]
      rfl
  | image url title =>
    rw [strokes, hf.around (imageAttributes_get?_id ..), hf.around rfl, hchildren]
    rfl
  | _ =>
    rw [strokes, hf.around rfl, hchildren]
    rfl

end DitaTopic.Topic
