import Mathlib.Data.List.Lattice
import DitaTopic.Proofs.Document.Growth
import DitaTopic.Proofs.Topic.Unclaimed

/-!
# Names

The identifiers that a session with the topic vocabulary alone may write, found node by node: a
document node takes over the identifier of its title or falls back to a fixed one, a heading that
starts a section or is a paragraph has its own, and no other node has any. What the strokes of a
tree may write are the identifiers of its nodes in the order of the document; what a score holds is
a part of that.
-/

namespace DitaTopic

open DitaTopic.Document (NodeKind NodeType Tree)
open DitaTopic.Identifier
open DitaTopic.Markup
open DitaTopic.Options
open DitaTopic.Render

/-- The identifier of a start tag. -/
def Markup.MarkupEvent.id? : MarkupEvent → Option String
  | .startElement _ attributes => attributes.get? "id"
  | _ => none

namespace Topic

/-- The identifiers in start tags. -/
def idsOf (events : List MarkupEvent) : List String := events.filterMap MarkupEvent.id?

theorem idsOf_append (first second : List MarkupEvent) :
    idsOf (first ++ second) = idsOf first ++ idsOf second := List.filterMap_append

theorem idsOf_ends (names : List String) : idsOf (names.map .endElement) = [] := by
  rw [idsOf, List.filterMap_map]
  exact List.filterMap_eq_nil_iff.mpr fun _ _ => rfl

theorem idsOf_start (name : String) (attributes : Attributes) (rest : List MarkupEvent) :
    idsOf (.startElement name attributes :: rest) =
      (attributes.get? "id").toList ++ idsOf rest := by
  rw [idsOf, List.filterMap_cons, MarkupEvent.id?]
  cases attributes.get? "id" <;> rfl

/-! ## What strokes may write -/

/-- The identifiers that a stroke may write. A heading at the top level writes one of two. -/
def Stroke.ids : Stroke → List String
  | start _ attributes => (attributes.get? "id").toList
  | startSection ofSection ofParagraph =>
    (ofParagraph.get? "id").toList ∪ (ofSection.get? "id").toList
  | _ => []

theorem passesOver_ids : PassesOver Stroke.ids :=
  ⟨fun _ _ h => congrArg Option.toList h, rfl, rfl, rfl⟩

theorem nestedAttributes_id (r : Rules) (id level : Nat) :
    (nestedAttributes r id level).get? "id" =
      if r.settings.renderHeaderId then r.idOf id else none := by
  simp [nestedAttributes, Attributes.get?_pushSome, Attributes.get?_push]

theorem sectionAttributes_id (r : Rules) (id : Nat) :
    (sectionAttributes r id).get? "id" = r.idOf id := by
  simp [sectionAttributes, Attributes.get?_pushSome]

/-- A heading at the top level writes the identifier of the heading if it writes any. -/
theorem ids_startSection (r : Rules) (id level : Nat) :
    (Stroke.startSection (sectionAttributes r id) (nestedAttributes r id level)).ids =
      (r.idOf id).toList := by
  rw [Stroke.ids, nestedAttributes_id, sectionAttributes_id]
  cases r.idOf id <;> cases r.settings.renderHeaderId <;> simp [List.cons_union]

theorem sublist_union_left (value : Option String) (others : List String) :
    value.toList.Sublist (value.toList ∪ others) := by
  cases value with
  | none => exact List.nil_sublist _
  | some x =>
    rw [Option.toList_some, List.cons_union, List.nil_union, List.singleton_sublist]
    exact List.mem_insert_self

theorem idsOf_score_stroke (stroke : Stroke) (openElements : List String) (marks : Marks) :
    (idsOf (stroke.score openElements marks).events).Sublist stroke.ids := by
  cases stroke with
  | startSection ofSection ofParagraph =>
    rw [Stroke.score, Stroke.commands, Stroke.ids]
    cases bodyPlace openElements.reverse with
    | none =>
      have hids : idsOf [.startElement "p" ofParagraph] = (ofParagraph.get? "id").toList := by
        rw [idsOf_start]
        exact List.append_nil _
      exact hids ▸ sublist_union_left ..
    | some place =>
      have hids : idsOf [.startElement "section" ofSection, .startElement "title" .none] =
          (ofSection.get? "id").toList := by
        rw [idsOf_start]
        exact List.append_nil _
      simp only [Command.eventsOf_finishes, idsOf_append, idsOf_ends, List.nil_append]
      exact hids ▸ (List.suffix_union_right ..).sublist
  | finishBody =>
    rw [Stroke.score, Stroke.commands, Command.eventsOf_finishes, idsOf_append, idsOf_ends]
    cases openElements.drop (openElements.length + 1 - marks.headD 0) <;> exact List.nil_sublist _
  | finish => cases openElements <;> exact List.nil_sublist _
  | start name attributes =>
    have hids : idsOf [.startElement name attributes] = (attributes.get? "id").toList := by
      rw [idsOf_start]
      exact List.append_nil _
    exact hids ▸ List.Sublist.refl _
  | _ => exact List.nil_sublist _

theorem idsOf_score (ss : List Stroke) (openElements : List String) (marks : Marks) :
    (idsOf (score ss openElements marks).events).Sublist (ss.flatMap Stroke.ids) := by
  induction ss generalizing openElements marks with
  | nil => exact List.nil_sublist _
  | cons stroke rest ih =>
    have hstroke := idsOf_score_stroke stroke openElements marks
    rw [score, Score.followedBy, List.flatMap_cons]
    split
    · rw [Score.behind, idsOf_append]
      exact hstroke.append (ih _ _)
    · exact hstroke.trans (List.sublist_append_left ..)

/-! ## Which nodes give identifiers -/

/-- The heading with which the children of a node begin, if they begin with one. -/
def titleOf (doc : Document) (id : Nat) : Option Nat := (splitFirst doc .heading (doc.children id)).1

/-- Whether a node is the title of a document node. -/
def isTitle (doc : Document) (id : Nat) : Bool :=
  match doc.arena.parent? id with
  | some p => doc.type? p == some .document && titleOf doc p == some id
  | none => false

/-- The identifier that a rendered node gives to the element it is written as. -/
def nameOf (r : Rules) (doc : Document) (id : Nat) : Option String :=
  match doc.kind? id with
  | some .document => some (((titleOf doc id).bind r.idOf).getD defaultTopicId)
  | some (.heading ..) =>
    if isTitle doc id then none
    else if isTopLevel doc id || r.settings.renderHeaderId then r.idOf id
    else none
  | _ => none

/-- The identifiers that the rendered nodes give, in the order of the document. -/
def names (r : Rules) (doc : Document) : List String := doc.visited.filterMap (nameOf r doc)

variable {r : Rules} {doc : Document}

theorem titleOf_eq {id : Nat} :
    titleOf doc id = (takeFirst (typeAt doc) .heading (doc.children id)).1 := by
  have inside : ∀ c ∈ doc.children id, c < doc.size :=
    fun c hc => (Document.Arena.mem_children hc).2
  rw [titleOf, splitFirst_eq .heading inside]

theorem isTitle_child {id c : Nat} (inside : id < doc.size) (hc : c ∈ doc.children id) :
    isTitle doc c = (typeAt doc id == .document && titleOf doc id == some c) := by
  have hparent : doc.arena.parent? c = some id := doc.built.parent?_of_mem_children hc
  rw [isTitle, hparent]
  show (doc.type? id == some .document && _) = _
  rw [type?_eq inside]
  rfl

/-- The identifiers given by the rendered nodes of a subtree. -/
def namesFrom (r : Rules) (doc : Document) (id : Nat) : List String :=
  (doc.arena.visitedFrom id).filterMap (nameOf r doc)

theorem namesFrom_eq {id : Nat} {kind : NodeKind} (hkind : doc.kind? id = some kind)
    (hid : doc.arena.underLeaf id = false) :
    namesFrom r doc id = (nameOf r doc id).toList ++
      if kind.isLeaf then [] else (doc.children id).flatMap (namesFrom r doc) := by
  have inside := Document.lt_size_of_kind? hkind
  have hkind' : doc.arena.kind? id = some kind := hkind
  rw [namesFrom, doc.built.visitedFrom_eq inside hid, hkind', Option.getD_some, List.filterMap_cons]
  have hrest : (if kind.isLeaf then [] else
      (doc.arena.children id).flatMap doc.arena.visitedFrom).filterMap (nameOf r doc) =
      if kind.isLeaf then [] else (doc.children id).flatMap (namesFrom r doc) := by
    cases kind.isLeaf
    · exact List.filterMap_flatMap
    · rfl
  rw [← hrest]
  cases nameOf r doc id <;> rfl

theorem ids_htmlStrokes {html : String} {asText : List Stroke}
    (h : asText.flatMap Stroke.ids = []) (treatment : HtmlTreatment) :
    (htmlStrokes html asText treatment).flatMap Stroke.ids = [] := by
  cases treatment with
  | dropped => rfl
  | asText => exact h
  | asInstruction => rfl

theorem ids_leaf (top : Bool) (k id : Nat) {kind : NodeKind} (children : List Tree)
    (hleaf : kind.isLeaf = true) :
    (strokes r top k (.node id kind children)).flatMap Stroke.ids = [] := by
  cases kind with
  | codeBlock info literal =>
    have hid : (Attributes.none.pushSome "outputclass" (r.settings.codeClass info)).get? "id" =
        none := by
      simp [Attributes.get?_pushSome]
    rw [strokes, passesOver_ids.around hid]
    rfl
  | htmlBlock literal =>
    rw [strokes]
    exact ids_htmlStrokes (passesOver_ids.around rfl _) _
  | inlineHtml html =>
    rw [strokes]
    exact ids_htmlStrokes rfl _
  | code content =>
    rw [strokes, passesOver_ids.around rfl]
    rfl
  | text | softBreak | hardBreak | thematicBreak =>
    rw [strokes]
    rfl
  | _ => cases hleaf

theorem ids_lead {id : Nat} {kind : NodeKind} (hkind : doc.kind? id = some kind)
    (hdocument : kind ≠ .document) (htitle : isTitle doc id = false) :
    (lead r (isTopLevel doc id) id kind).flatMap Stroke.ids = (nameOf r doc id).toList := by
  rw [nameOf, hkind]
  cases kind with
  | document => exact absurd rfl hdocument
  | heading level written =>
    simp only [lead, htitle, List.flatMap_singleton]
    cases isTopLevel doc id with
    | true => exact ids_startSection r id level
    | false =>
      show ((nestedAttributes r id level).get? "id").toList = _
      rw [nestedAttributes_id]
      rfl
  | _ => rfl

/-- No node that is rendered is of a type that nobody handles. -/
def AllHandled (doc : Document) : Prop := ∀ id ∈ doc.visited, ¬ doc.IsCustom id

theorem AllHandled.ne_custom (h : AllHandled doc) {id : Nat} {kind : NodeKind}
    (hkind : doc.kind? id = some kind) (hid : doc.arena.underLeaf id = false)
    (name literal : String) : kind ≠ .custom name literal := by
  rintro rfl
  have hvisited := Document.mem_visited.mpr ⟨Document.lt_size_of_kind? hkind, hid⟩
  exact h id hvisited ⟨name, literal, hkind⟩

theorem ids_children {top : Bool} {k : Nat} {ids : List Nat}
    (h : ∀ c ∈ ids, (strokes r top k (doc.arena.tree c)).flatMap Stroke.ids = namesFrom r doc c) :
    ((ids.map doc.arena.tree).flatMap fun t => (strokes r top k t).flatMap Stroke.ids) =
      ids.flatMap (namesFrom r doc) := by
  rw [List.flatMap_map]
  exact List.flatMap_congr h

theorem namesFrom_of_silent {id : Nat} {kind : NodeKind} (hkind : doc.kind? id = some kind)
    (hid : doc.arena.underLeaf id = false) (hleaf : kind.isLeaf = false)
    (hname : nameOf r doc id = none) :
    namesFrom r doc id = (doc.children id).flatMap (namesFrom r doc) := by
  rw [namesFrom_eq hkind hid, hname, hleaf]
  rfl

/-- A child of a document node with its strokes. -/
def topPart (r : Rules) (doc : Document) (id : Nat) : Part :=
  part r true r.documentSuppression (doc.arena.tree id)

theorem opening_parts (r : Rules) (doc : Document) (id : Nat) :
    Opening.ofList Part.type r.settings.shortdescParagraph
        (parts r true r.documentSuppression ((doc.children id).map doc.arena.tree)) =
      (openingAt r.settings doc id).map (topPart r doc) := by
  rw [parts_eq, List.map_map, Opening.ofList_map]
  rfl

/-- The strokes of a rendered node may write the identifiers given in its subtree; those of its
children write what is given below it. -/
def WritesNames (r : Rules) (doc : Document) (id : Nat) : Prop :=
  ∀ k, (isTitle doc id = false →
      (strokes r (isTopLevel doc id) k (doc.arena.tree id)).flatMap Stroke.ids =
        namesFrom r doc id) ∧
    (typeAt doc id = .heading ∨ typeAt doc id = .paragraph →
      (insideStrokes r k (doc.arena.tree id)).flatMap Stroke.ids =
        (doc.children id).flatMap (namesFrom r doc))

theorem underLeaf_child {id c : Nat} {kind : NodeKind} (hkind : doc.kind? id = some kind)
    (hleaf : kind.isLeaf = false) (hid : doc.arena.underLeaf id = false)
    (hc : c ∈ doc.children id) : doc.arena.underLeaf c = false := by
  refine doc.built.underLeaf_child hc ?_ hid
  have hkind' : doc.arena.kind? id = some kind := hkind
  rwa [hkind', Option.getD_some]

/-- A title gives no identifier, and no child but the title of a document node is a title. -/
theorem isTitle_opening (r : Rules) {id c : Nat} (hkind : doc.kind? id = some .document)
    (hc : c ∈ doc.children id) :
    isTitle doc c = ((openingAt r.settings doc id).title == some c) := by
  rw [isTitle_child (Document.lt_size_of_kind? hkind) hc, typeAt_eq hkind, titleOf_eq]
  rfl

theorem nameOf_title {id : Nat} (htype : typeAt doc id = .heading) (htitle : isTitle doc id = true)
    (inside : id < doc.size) : nameOf r doc id = none := by
  obtain ⟨kind, hkind⟩ := exists_kind? inside
  rw [typeAt_eq hkind] at htype
  rw [nameOf, hkind]
  cases kind with
  | heading level written => simp only [htitle, if_true]
  | _ => cases htype

theorem nameOf_paragraph {id : Nat} (htype : typeAt doc id = .paragraph) (inside : id < doc.size) :
    nameOf r doc id = none := by
  obtain ⟨kind, hkind⟩ := exists_kind? inside
  rw [typeAt_eq hkind] at htype
  rw [nameOf, hkind]
  cases kind with
  | paragraph => rfl
  | _ => cases htype

/-- What is written for the content of a title or a short description is given below it. -/
theorem ids_content {c : Nat} (inside : c < doc.size) (hc : doc.arena.underLeaf c = false)
    (h : WritesNames r doc c) (htype : typeAt doc c = .heading ∨ typeAt doc c = .paragraph)
    (hname : nameOf r doc c = none) :
    (topPart r doc c).inside.flatMap Stroke.ids = namesFrom r doc c := by
  obtain ⟨kind, hkind⟩ := exists_kind? inside
  have hleaf : kind.isLeaf = false := by
    rw [typeAt_eq hkind] at htype
    cases kind <;> first | rfl | rcases htype with htype | htype <;> cases htype
  rw [namesFrom_of_silent hkind hc hleaf hname]
  exact (h r.documentSuppression).2 htype

section

variable {id : Nat} (hkind : doc.kind? id = some .document)
  (hid : doc.arena.underLeaf id = false) (h : ∀ c ∈ doc.children id, WritesNames r doc c)

include hkind hid h

theorem ids_title :
    ((openingAt r.settings doc id).title.elim [] (Part.inside ∘ topPart r doc)).flatMap
      Stroke.ids = (openingAt r.settings doc id).title.toList.flatMap (namesFrom r doc) := by
  cases ho : (openingAt r.settings doc id).title with
  | none => rfl
  | some c =>
    have hc := Opening.title_mem ho
    have htype := Opening.title_type ho
    have inside : c < doc.size := (Document.Arena.mem_children hc).2
    have htitle : isTitle doc c = true := by
      rw [isTitle_opening r hkind hc, ho, beq_self_eq_true]
    rw [Option.toList_some, List.flatMap_singleton]
    exact ids_content inside (underLeaf_child hkind rfl hid hc) (h c hc) (.inl htype)
      (nameOf_title htype htitle inside)

theorem ids_shortdesc :
    ((openingAt r.settings doc id).shortdesc.elim [] (Part.inside ∘ topPart r doc)).flatMap
      Stroke.ids = (openingAt r.settings doc id).shortdesc.toList.flatMap (namesFrom r doc) := by
  cases ho : (openingAt r.settings doc id).shortdesc with
  | none => rfl
  | some c =>
    have hc := Opening.shortdesc_mem ho
    have htype := (Opening.shortdesc_type ho).2
    have inside : c < doc.size := (Document.Arena.mem_children hc).2
    rw [Option.toList_some, List.flatMap_singleton]
    exact ids_content inside (underLeaf_child hkind rfl hid hc) (h c hc) (.inr htype)
      (nameOf_paragraph htype inside)

omit hid in
theorem ids_body :
    ((openingAt r.settings doc id).body.flatMap fun c =>
      (topPart r doc c).whole.flatMap Stroke.ids) =
        (openingAt r.settings doc id).body.flatMap (namesFrom r doc) := by
  refine List.flatMap_congr fun c hbody => ?_
  have hc := Opening.body_mem hbody
  have hnot : isTitle doc c = false := by
    rw [isTitle_opening r hkind hc, beq_eq_false_iff_ne]
    intro ho
    -- no child is used twice
    have hnodup : (doc.children id).Nodup := doc.built.nodup_children id
    rw [← Opening.items_eq (typeAt doc) r.settings.shortdescParagraph (doc.children id)] at hnodup
    have hdisjoint := (List.nodup_append.mp hnodup).2.2 c (Option.mem_toList.mpr ho) c
    exact hdisjoint (List.mem_append_right _ hbody) rfl
  have htop : isTopLevel doc c = true := by
    rw [isTopLevel_child (Document.lt_size_of_kind? hkind) hc, typeAt_eq hkind]
    rfl
  have hwhole := (h c hc r.documentSuppression).1 hnot
  rwa [htop] at hwhole

theorem writesNames_document (top : Bool) (k : Nat) :
    (strokes r top k (doc.arena.tree id)).flatMap Stroke.ids = namesFrom r doc id := by
  have hitems := Opening.items_eq (typeAt doc) r.settings.shortdescParagraph (doc.children id)
  have htopic : ((openingAt r.settings doc id).title.map (topPart r doc)).bind
      (fun part => r.idOf part.tree.id) = (openingAt r.settings doc id).title.bind r.idOf := by
    cases (openingAt r.settings doc id).title with
    | none => rfl
    | some c => exact congrArg r.idOf (Document.Arena.id_tree _ c)
  have hname : nameOf r doc id =
      some (((openingAt r.settings doc id).title.bind r.idOf).getD defaultTopicId) := by
    rw [nameOf, hkind]
    simp only [titleOf_eq]
    rfl
  rw [tree_of_kind? hkind, strokes, opening_parts, passesOver_ids.documentStrokes, Opening.map,
    htopic, Option.elim_map, Option.elim_map, List.flatMap_map, ids_title hkind hid h,
    ids_shortdesc hkind hid h, ids_body hkind h, namesFrom_eq hkind hid, hname]
  show _ = _ ++ (doc.children id).flatMap (namesFrom r doc)
  rw [← hitems, List.flatMap_append, List.flatMap_append]
  rfl

end

theorem writesNames (h : AllHandled doc) {id : Nat} (inside : id < doc.size)
    (hid : doc.arena.underLeaf id = false) : WritesNames r doc id := by
  induction id using Document.Arena.descent doc.arena with
  | step id ih =>
    obtain ⟨kind, hkind⟩ := exists_kind? inside
    have htype := typeAt_eq hkind
    have hcustom := h.ne_custom hkind hid
    have hchildren : kind.isLeaf = false → ∀ c ∈ doc.children id, WritesNames r doc c :=
      fun hleaf c hc => ih c hc (Document.Arena.mem_children hc).2
        (underLeaf_child hkind hleaf hid hc)
    by_cases hdocument : kind = .document
    · subst hdocument
      refine fun k => ⟨fun _ => writesNames_document hkind hid (hchildren rfl) _ k, fun hinside => ?_⟩
      rw [htype] at hinside
      rcases hinside with hinside | hinside <;> cases hinside
    -- below any other node nothing is at the top level
    have hbelow : kind.isLeaf = false → ∀ k, (((doc.children id).map doc.arena.tree).flatMap
        fun t => (strokes r false k t).flatMap Stroke.ids) =
          (doc.children id).flatMap (namesFrom r doc) := by
      intro hleaf k
      refine ids_children fun c hc => ?_
      have hnot : (typeAt doc id == .document) = false := by
        rw [htype, beq_eq_false_iff_ne]
        cases kind <;> first | exact absurd rfl hdocument | nofun
      have hc' := (hchildren hleaf c hc k).1
      rw [isTitle_child inside hc, isTopLevel_child inside hc, hnot] at hc'
      exact hc' rfl
    intro k
    constructor
    · intro htitle
      rw [namesFrom_eq hkind hid, tree_of_kind? hkind, ← ids_lead hkind hdocument htitle]
      cases hleaf : kind.isLeaf with
      | true =>
        have hlead : lead r (isTopLevel doc id) id kind = [] := by
          cases kind <;> first | rfl | cases hleaf
        rw [ids_leaf _ _ _ _ hleaf, hlead]
        rfl
      | false =>
        rw [passesOver_ids.node _ _ _ _ hleaf hdocument hcustom, hbelow hleaf]
        rfl
    · intro hinside
      have hleaf : kind.isLeaf = false := by
        rw [htype] at hinside
        cases kind <;> first | rfl | rcases hinside with hinside | hinside <;> cases hinside
      rw [tree_of_kind? hkind, insideStrokes, flatMap_children, hbelow hleaf]

/-- The strokes of a whole document may write the identifiers that its nodes give. -/
theorem ids_strokesOf (renderer : Renderer) (h : AllHandled doc) :
    (strokesOf renderer doc Document.rootId).flatMap Stroke.ids =
      names (rulesOf renderer doc) doc := by
  have htitle : isTitle doc Document.rootId = false := by
    rw [isTitle, Document.rootId, doc.built.parent?_root]
  exact (writesNames h doc.built.size_pos (Document.Arena.underLeaf_root doc.arena) _).1 htitle

/-- Around a score nothing with an identifier is written. -/
theorem idsOf_closed (s : Score) : idsOf s.inDocument.closed = idsOf s.events := by
  rw [Score.closed, idsOf_append, idsOf_ends, List.append_nil, Score.inDocument]
  cases s.outcome with
  | ok _ =>
    simp only [idsOf_append, idsOf_ends, List.nil_append]
    exact List.append_nil _
  | error e => rfl

end Topic

end DitaTopic
