import DitaTopic.Proofs.Topic.Reading
import DitaTopic.Proofs.Topic.Refinement

/-!
# Where links may be written

The link suppression at a node, read off the nodes above it: a document node starts with what the
options ask for, and every image on the way down from there adds one. From it follow the links of
a subtree that are written, in the order of the document.
-/

namespace DitaTopic

open DitaTopic.Document (NodeKind NodeType)
open DitaTopic.Markup

/-- Whether an event starts a link. -/
def Markup.MarkupEvent.isLink : MarkupEvent → Bool
  | .startElement name _ => name == "xref"
  | _ => false

theorem Markup.filter_isLink_start {name : String} (h : name ≠ "xref") (attributes : Attributes)
    (rest : List MarkupEvent) :
    (.startElement name attributes :: rest).filter MarkupEvent.isLink =
      rest.filter MarkupEvent.isLink :=
  List.filter_cons_of_neg (by simp [MarkupEvent.isLink, h])

theorem Markup.filter_isLink_ends (names : List String) :
    (names.map MarkupEvent.endElement).filter MarkupEvent.isLink = [] := by
  rw [List.filter_map]
  exact List.map_eq_nil_iff.mpr (List.filter_eq_nil_iff.mpr fun _ _ => nofun)

namespace Document

/-- The nodes above a node that lie below the nearest document node above it. -/
def aboveInDocument (doc : Document) (id : Nat) : List Nat :=
  (doc.arena.ancestors id).takeWhile fun p => doc.type? p != some .document

/-- How many regions without links are around a node, where a document node starts with `base`. -/
def suppressionAt (base : Nat) (doc : Document) (id : Nat) : Nat :=
  base + (doc.aboveInDocument id).countP fun p => doc.type? p == some .image

/-- Between a node and one above it that is not among the nodes above it in its document lies
another document node. -/
theorem exists_document_between {doc : Document} {id above : Nat}
    (habove : above ∈ doc.arena.ancestors id) (hnot : above ∉ doc.aboveInDocument id)
    (htype : doc.type? above ≠ some .document) :
    ∃ p, doc.type? p = some .document ∧ p ∈ doc.arena.ancestors id ∧
      above ∈ doc.arena.ancestors p := by
  induction id using Nat.strongRecOn with
  | ind id ih =>
    cases hparent : doc.arena.parent? id with
    | none =>
      rw [Arena.ancestors, hparent] at habove
      cases habove
    | some p =>
      have hlt := doc.built.linked.parent_lt hparent
      rw [aboveInDocument, doc.built.linked.ancestors_eq hparent] at hnot
      rw [doc.built.linked.ancestors_eq hparent] at habove ⊢
      by_cases hdocument : doc.type? p = some .document
      · rcases List.mem_cons.mp habove with rfl | habove
        · exact absurd hdocument htype
        · exact ⟨p, hdocument, List.mem_cons_self, habove⟩
      · rw [List.takeWhile_cons_of_pos (by simp [hdocument]), List.mem_cons, not_or] at hnot
        obtain ⟨hne, hnot⟩ := hnot
        obtain ⟨q, hq, hbetween, habove⟩ :=
          ih p hlt ((List.mem_cons.mp habove).resolve_left hne) hnot
        exact ⟨q, hq, List.mem_cons_of_mem _ hbetween, habove⟩

/-- The target of a link. -/
def linkUrl (doc : Document) (id : Nat) : String :=
  match doc.kind? id with
  | some (.link url _) => url
  | _ => ""

/-- Whether a node is a link or an image. -/
def concernsLinks (doc : Document) (id : Nat) : Bool :=
  doc.type? id == some .link || doc.type? id == some .image

end Document

namespace Topic

variable {base : Nat} {doc : Document} {id : Nat} {kind : NodeKind} {settings : Settings}

/-- Whether a node is a link that is written as one. -/
def writesLink (base : Nat) (doc : Document) (id : Nat) : Bool :=
  doc.type? id == some .link && doc.suppressionAt base id == 0

def linkStart (settings : Settings) (doc : Document) (id : Nat) : MarkupEvent :=
  .startElement "xref" (linkAttributes settings (doc.linkUrl id))

/-- The starts of the links written in a subtree. -/
def linksFrom (settings : Settings) (base : Nat) (doc : Document) (id : Nat) : List MarkupEvent :=
  ((doc.arena.visitedFrom id).filter (writesLink base doc)).map (linkStart settings doc)

/-- The links and images of a subtree, each with the suppression at it. -/
def placesFrom (base : Nat) (doc : Document) (id : Nat) : List (Nat × Nat) :=
  ((doc.arena.visitedFrom id).filter doc.concernsLinks).map fun n => (n, doc.suppressionAt base n)

/-- The suppression at a child, from that with which the handler of its parent starts. -/
theorem suppressionAt_child (hkind : doc.kind? id = some kind) {c : Nat}
    (hc : c ∈ doc.children id) :
    doc.suppressionAt base c =
      linklessBelow (if kind.type = .document then base else doc.suppressionAt base id) kind := by
  have habove : doc.arena.ancestors c = id :: doc.arena.ancestors id :=
    doc.built.linked.ancestors_eq (doc.built.parent?_of_mem_children hc)
  have htype := type?_of_kind? hkind
  rw [Document.suppressionAt, Document.aboveInDocument, habove]
  by_cases hdocument : kind.type = .document
  · rw [if_pos hdocument, List.takeWhile_cons_of_neg (by simp [htype, hdocument])]
    cases kind with
    | document => rfl
    | _ => cases hdocument
  · rw [if_neg hdocument, List.takeWhile_cons_of_pos (by simp [htype, hdocument]),
      List.countP_cons, ← Document.aboveInDocument, htype]
    cases kind with
    | image => rfl
    | document => exact absurd rfl hdocument
    | _ => rfl

theorem suppressionAt_root : doc.suppressionAt base Document.rootId = base := by
  rw [Document.suppressionAt, Document.aboveInDocument, Document.Arena.ancestors,
    Document.rootId]
  cases doc.arena.parent? 0 <;> rfl

/-- What the nodes of a subtree have that no leaf stands above: the root's own, then that of the
children, unless these are under a leaf. -/
theorem filter_visitedFrom (p : Nat → Bool) (hkind : doc.kind? id = some kind)
    (hid : doc.arena.underLeaf id = false) :
    (doc.arena.visitedFrom id).filter p = (if p id then [id] else []) ++
      if kind.isLeaf then [] else
        (doc.children id).flatMap fun c => (doc.arena.visitedFrom c).filter p := by
  have hkind' : doc.arena.kind? id = some kind := hkind
  rw [doc.built.visitedFrom_eq (Document.lt_size_of_kind? hkind) hid, hkind', Option.getD_some,
    List.filter_cons]
  have hrest : (if kind.isLeaf then [] else
      (doc.arena.children id).flatMap doc.arena.visitedFrom).filter p =
      if kind.isLeaf then [] else
        (doc.children id).flatMap fun c => (doc.arena.visitedFrom c).filter p := by
    cases kind.isLeaf
    · exact List.filter_flatMap
    · rfl
  rw [← hrest]
  cases p id <;> rfl

theorem linksFrom_eq (hkind : doc.kind? id = some kind) (hid : doc.arena.underLeaf id = false) :
    linksFrom settings base doc id =
      (if writesLink base doc id then [linkStart settings doc id] else []) ++
        if kind.isLeaf then [] else (doc.children id).flatMap (linksFrom settings base doc) := by
  rw [linksFrom, filter_visitedFrom _ hkind hid, List.map_append]
  congr 1
  · cases writesLink base doc id <;> rfl
  · cases kind.isLeaf
    · exact List.map_flatMap
    · rfl

theorem placesFrom_eq (hkind : doc.kind? id = some kind) (hid : doc.arena.underLeaf id = false) :
    placesFrom base doc id =
      (if doc.concernsLinks id then [(id, doc.suppressionAt base id)] else []) ++
        if kind.isLeaf then [] else (doc.children id).flatMap (placesFrom base doc) := by
  rw [placesFrom, filter_visitedFrom _ hkind hid, List.map_append]
  congr 1
  · cases doc.concernsLinks id <;> rfl
  · cases kind.isLeaf
    · exact List.map_flatMap
    · rfl

end Topic

end DitaTopic
