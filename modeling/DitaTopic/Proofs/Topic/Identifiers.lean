import DitaTopic.Proofs.Identifier.Distinct
import DitaTopic.Proofs.Topic.Naming
import DitaTopic.Proofs.Topic.Outline

/-!
# Identifiers in a topic

The identifiers that a session with the topic vocabulary alone writes are those of headings, each
of them at most once, so they do not repeat where the identifiers of headings do not. A document
node whose title has none falls back to a fixed identifier, however, and nothing keeps a heading
from having the same.
-/

namespace DitaTopic.Topic

open DitaTopic.Document (NodeKind NodeType Tree)
open DitaTopic.Identifier
open DitaTopic.Markup
open DitaTopic.Options
open DitaTopic.Render

variable {r : Rules} {doc : Document}

/-! ## What an outline holds -/

theorem idsOf_element (name : String) (attributes : Attributes) (inside : List Piece) :
    idsOf (flatten [.element name attributes inside]) =
      (attributes.get? "id").toList ++ idsOf (flatten inside) := by
  rw [flatten_cons, flatten_nil, List.append_nil, events_element, idsOf_start, idsOf_append]
  congr 1
  exact List.append_nil _

theorem idsOf_silent {attributes : Attributes} (h : attributes.get? "id" = none) (name : String)
    (inside : List Piece) :
    idsOf (flatten [.element name attributes inside]) = idsOf (flatten inside) := by
  rw [idsOf_element, h]
  rfl

theorem idsOf_flatMap {α : Type} (items : List α) (piecesOf : α → List Piece) :
    idsOf (flatten (items.flatMap piecesOf)) =
      items.flatMap fun x => idsOf (flatten (piecesOf x)) := by
  induction items with
  | nil => rfl
  | cons x rest ih => rw [List.flatMap_cons, flatten_append, idsOf_append, ih, List.flatMap_cons]

theorem idsOf_content (k : Nat) (children : List Tree) :
    idsOf (flatten (content (blocks r k children))) =
      children.flatMap fun t => idsOf (flatten (translate r k t)) := by
  rw [content, blocks_eq, List.flatMap_map, idsOf_flatMap]
  rfl

theorem idsOf_cons (piece : Piece) (rest : List Piece) :
    idsOf (flatten (piece :: rest)) = idsOf (flatten [piece]) ++ idsOf (flatten rest) := by
  rw [flatten_cons, idsOf_append, flatten_cons, flatten_nil, List.append_nil]

theorem idsOf_columnPieces (index : Nat) (alignments : List Document.ColumnAlignment) :
    idsOf (flatten (columnPieces index alignments)) = [] := by
  induction alignments generalizing index with
  | nil => rfl
  | cons alignment rest ih =>
    have hid : ((Attributes.none.push "colname" ("col" ++ toString index)).pushSome "align"
        (alignmentName alignment)).get? "id" = none := by
      simp [Attributes.get?_pushSome, Attributes.get?_push]
    rw [columnPieces, idsOf_cons, idsOf_silent hid, ih]
    rfl

theorem idsOf_tablePieces (items : List Block) :
    idsOf (flatten (tablePieces items)) = idsOf (flatten (content items)) := by
  have hitems := List.takeWhile_append_dropWhile (p := fun block => block.type != .tableRow)
    (l := items)
  have hbody : idsOf (flatten (if (items.dropWhile fun block => block.type != .tableRow).isEmpty
        then [] else [.element "tbody" .none
          (content (items.dropWhile fun block => block.type != .tableRow))])) =
      idsOf (flatten (content (items.dropWhile fun block => block.type != .tableRow))) := by
    cases items.dropWhile fun block => block.type != .tableRow with
    | nil => rfl
    | cons block rest => exact idsOf_silent rfl "tbody" _
  rw [tablePieces, flatten_append, idsOf_append, hbody, ← idsOf_append, ← flatten_append, content,
    content, ← List.flatMap_append, hitems, content]

theorem idsOf_htmlPieces {html : String} {asText : Piece} (h : idsOf (flatten [asText]) = [])
    (treatment : HtmlTreatment) : idsOf (flatten (htmlPieces html asText treatment)) = [] := by
  cases treatment with
  | dropped => rfl
  | asText => exact h
  | asInstruction => rfl

theorem idsOf_translate_leaf (k id : Nat) {kind : NodeKind} (children : List Tree)
    (hleaf : kind.isLeaf = true) : idsOf (flatten (translate r k (.node id kind children))) = [] := by
  cases kind with
  | codeBlock info literal =>
    have hid : (Attributes.none.pushSome "outputclass" (r.settings.codeClass info)).get? "id" =
        none := by
      simp [Attributes.get?_pushSome]
    rw [translate, idsOf_silent hid]
    rfl
  | htmlBlock literal =>
    rw [translate]
    exact idsOf_htmlPieces rfl _
  | inlineHtml html =>
    rw [translate]
    exact idsOf_htmlPieces rfl _
  | text | code | softBreak | hardBreak | thematicBreak =>
    rw [translate]
    rfl
  | _ => cases hleaf

/-- The markup of a node has the identifiers that its strokes may write, and those of its
children. -/
theorem idsOf_translate_node (k id : Nat) {kind : NodeKind} (children : List Tree)
    (hleaf : kind.isLeaf = false) (hdocument : kind ≠ .document)
    (hcustom : ∀ name literal, kind ≠ .custom name literal) :
    idsOf (flatten (translate r k (.node id kind children))) =
      (lead r false id kind).flatMap Stroke.ids ++
        children.flatMap fun t => idsOf (flatten (translate r (linklessBelow k kind) t)) := by
  have hchildren := fun k => idsOf_content (r := r) k children
  cases kind with
  | document => exact absurd rfl hdocument
  | custom name literal => exact absurd rfl (hcustom name literal)
  | codeBlock | htmlBlock | text | code | inlineHtml | softBreak | hardBreak | thematicBreak =>
    cases hleaf
  | heading level written =>
    rw [translate, idsOf_element, hchildren, lead, List.flatMap_singleton]
    rfl
  | table alignments =>
    have hcols : (Attributes.none.push "cols" (toString alignments.length)).get? "id" = none := by
      simp [Attributes.get?_push]
    rw [translate, idsOf_silent rfl, idsOf_silent hcols, flatten_append, idsOf_append,
      idsOf_columnPieces, idsOf_tablePieces, hchildren]
    rfl
  | tableHead =>
    rw [translate, idsOf_silent rfl, idsOf_silent rfl, hchildren]
    rfl
  | link url title =>
    rw [translate]
    split
    · exact hchildren k
    · rw [idsOf_silent (linkAttributes_get?_id ..), hchildren]
      rfl
  | image url title =>
    rw [translate, idsOf_silent (imageAttributes_get?_id ..), idsOf_silent rfl, hchildren]
    rfl
  | _ =>
    rw [translate, idsOf_silent rfl, hchildren]
    rfl

/-- A tree without document nodes writes exactly the identifiers that its strokes may write. -/
theorem idsOf_translate {t : Tree} (h : NodeKind.document ∉ t.kinds) (k : Nat) :
    idsOf (flatten (translate r k t)) = (strokes r false k t).flatMap Stroke.ids := by
  induction t generalizing k with
  | node id kind children ih =>
    cases hleaf : kind.isLeaf with
    | true => rw [idsOf_translate_leaf k id children hleaf, ids_leaf false k id children hleaf]
    | false =>
      have hdocument : kind ≠ .document := by
        rintro rfl
        exact h (List.mem_cons_self ..)
      by_cases hcustom : ∀ name literal, kind ≠ .custom name literal
      · rw [idsOf_translate_node k id children hleaf hdocument hcustom,
          passesOver_ids.node false k id children hleaf hdocument hcustom]
        congr 1
        exact List.flatMap_congr fun t ht => ih t ht (not_mem_kinds_child h ht) _
      · simp only [not_forall, not_not] at hcustom
        obtain ⟨name, literal, rfl⟩ := hcustom
        rfl

theorem idsOf_translateInside {t : Tree} (h : NodeKind.document ∉ t.kinds) (k : Nat) :
    idsOf (flatten (translateInside r k t)) = (insideStrokes r k t).flatMap Stroke.ids := by
  obtain ⟨id, kind, children⟩ := t
  rw [translateInside, idsOf_content, insideStrokes, flatMap_children]
  exact List.flatMap_congr fun t ht => idsOf_translate (not_mem_kinds_child h ht) k

theorem ids_sectionHeading (k : Nat) {t : Tree} (h : t.kind.type = .heading) :
    (strokes r true k t).flatMap Stroke.ids =
      (r.idOf t.id).toList ++ (insideStrokes r k t).flatMap Stroke.ids := by
  obtain ⟨id, kind, children⟩ := t
  cases kind with
  | heading level written =>
    have hcustom : ∀ name literal, NodeKind.heading level written ≠ .custom name literal := nofun
    have hdocument : NodeKind.heading level written ≠ .document := nofun
    rw [passesOver_ids.node true k id children rfl hdocument hcustom, insideStrokes,
      flatMap_children]
    exact congrArg (· ++ _) ((List.flatMap_singleton ..).trans (ids_startSection r id level))
  | _ => cases h

/-- The division of a body into sections has the identifiers that the strokes of the body may
write. -/
theorem idsOf_divide {ts : List Tree} (h : ∀ t ∈ ts, NodeKind.document ∉ t.kinds) (k : Nat) :
    idsOf (flatten (divide r (blocks r k ts)).1) ++ idsOf (flatten (divide r (blocks r k ts)).2) =
      ts.flatMap fun t => (strokes r true k t).flatMap Stroke.ids := by
  induction ts with
  | nil => rfl
  | cons t rest ih =>
    have hrest := ih fun t ht => h t (List.mem_cons_of_mem _ ht)
    have ht := h t (List.mem_cons_self ..)
    rw [blocks, divide, List.flatMap_cons, ← hrest]
    by_cases hheading : t.kind.type = .heading
    · rw [if_pos (by exact hheading), ids_sectionHeading k hheading, ← idsOf_translateInside ht,
        idsOf_cons, idsOf_element, idsOf_cons, idsOf_silent rfl "title", sectionAttributes_id]
      show [] ++ _ = _
      rw [List.nil_append, List.append_assoc, List.append_assoc, List.append_assoc]
    · rw [if_neg (by exact hheading), flatten_append, idsOf_append, strokes_top hheading,
        idsOf_translate ht, List.append_assoc]

/-- The topic of a document has the identifiers that the strokes of the document may write. -/
theorem idsOf_topicOf {o : Opening Tree} (k : Nat)
    (htitle : ∀ t, o.title = some t → NodeKind.document ∉ t.kinds)
    (hshortdesc : ∀ t, o.shortdesc = some t → NodeKind.document ∉ t.kinds)
    (hbody : ∀ t ∈ o.body, NodeKind.document ∉ t.kinds) :
    idsOf (flatten [topicOf r (o.map (block r k))]) =
      (documentStrokes r (o.map (part r true k))).flatMap Stroke.ids := by
  have hinside : idsOf (flatten ((o.title.map (block r k)).elim [] Block.inside)) =
      ((o.title.map (part r true k)).elim [] Part.inside).flatMap Stroke.ids := by
    cases ho : o.title with
    | none => rfl
    | some t => exact idsOf_translateInside (htitle t ho) k
  have hdescription : idsOf (flatten ((o.shortdesc.map (block r k)).elim []
      fun block => [.element "shortdesc" .none block.inside])) =
        ((o.shortdesc.map (part r true k)).elim [] Part.inside).flatMap Stroke.ids := by
    cases ho : o.shortdesc with
    | none => rfl
    | some t =>
      exact (idsOf_silent rfl "shortdesc" _).trans (idsOf_translateInside (hshortdesc t ho) k)
  have hid : ((o.title.map (block r k)).bind fun block => r.idOf block.tree.id) =
      (o.title.map (part r true k)).bind fun part => r.idOf part.tree.id := by
    cases o.title <;> rfl
  have hdivided : idsOf (flatten [.element "body" .none
      ((divide r (blocks r k o.body)).1 ++ (divide r (blocks r k o.body)).2)]) =
        (parts r true k o.body).flatMap fun part => part.whole.flatMap Stroke.ids := by
    rw [idsOf_silent rfl, flatten_append, idsOf_append, idsOf_divide hbody, parts_eq,
      List.flatMap_map]
    rfl
  have hblocks : (o.map (block r k)).body = blocks r k o.body := (blocks_eq r k o.body).symm
  have hparts : (o.map (part r true k)).body = parts r true k o.body :=
    (parts_eq r true k o.body).symm
  rw [passesOver_ids.documentStrokes, topicOf, idsOf_element, idsOf_cons, idsOf_silent rfl "title",
    flatten_append, idsOf_append, hblocks, hparts, hdivided, Opening.map, Opening.map, hinside,
    hdescription, hid]
  rfl

/-- The outline of a document has the identifiers that the document's strokes may write. -/
theorem idsOf_outline (honly : OnlyRootIsDocument doc) (top : Bool) (k : Nat) :
    idsOf (outline r doc.tree).events = (strokes r top k doc.tree).flatMap Stroke.ids := by
  have hchildren : ∀ t ∈ (doc.children Document.rootId).map doc.arena.tree,
      NodeKind.document ∉ t.kinds := by
    intro t ht
    obtain ⟨c, hc, rfl⟩ := List.mem_map.mp ht
    obtain ⟨hlt, inside⟩ := Document.Arena.mem_children hc
    exact not_mem_kinds_tree honly inside (Nat.ne_of_gt hlt)
  rw [tree_root, strokes, parts_opening, outline, Tree.children, blocks_opening,
    ← idsOf_topicOf _ (fun t ht => hchildren t (Opening.title_mem ht))
      (fun t ht => hchildren t (Opening.shortdesc_mem ht))
      (fun t ht => hchildren t (Opening.body_mem ht)),
    flatten_cons, flatten_nil, List.append_nil]

/-! ## Identifiers that do not repeat -/

/-- The heading whose identifier a node gives. -/
def headingOf (doc : Document) (id : Nat) : Option Nat :=
  match doc.kind? id with
  | some .document => titleOf doc id
  | some (.heading ..) => if isTitle doc id then none else some id
  | _ => none

theorem headingOf_cases {id heading : Nat} (h : headingOf doc id = some heading) :
    doc.kind? id = some .document ∧ titleOf doc id = some heading ∨
      id = heading ∧ isTitle doc id = false := by
  unfold headingOf at h
  split at h
  · next hkind => exact .inl ⟨hkind, h⟩
  · split at h
    · cases h
    · next htitle => exact .inr ⟨Option.some.inj h, Bool.eq_false_iff.mpr htitle⟩
  · cases h

theorem isTitle_titleOf {id c : Nat} (hkind : doc.kind? id = some .document)
    (h : titleOf doc id = some c) : doc.arena.parent? c = some id ∧ isTitle doc c = true := by
  have hmem : c ∈ doc.children id := by
    rw [titleOf_eq] at h
    rw [← takeFirst_eq (typeAt doc) .heading (doc.children id), h]
    exact List.mem_cons_self ..
  refine ⟨doc.built.parent?_of_mem_children hmem, ?_⟩
  rw [isTitle_child (Document.lt_size_of_kind? hkind) hmem, typeAt_eq hkind, h]
  exact beq_self_eq_true _

/-- No two nodes give the identifier of the same heading: a title leaves its own to the document
node above it. -/
theorem headingOf_injective {id other heading : Nat} (h : headingOf doc id = some heading)
    (hother : headingOf doc other = some heading) : id = other := by
  rcases headingOf_cases h with ⟨hkind, htitle⟩ | ⟨rfl, hnot⟩ <;>
    rcases headingOf_cases hother with ⟨hkind', htitle'⟩ | ⟨rfl, hnot'⟩
  · have hparent := (isTitle_titleOf hkind htitle).1
    rw [(isTitle_titleOf hkind' htitle').1] at hparent
    exact (Option.some.inj hparent).symm
  · rw [(isTitle_titleOf hkind htitle).2] at hnot'
    cases hnot'
  · rw [(isTitle_titleOf hkind' htitle').2] at hnot
    cases hnot
  · rfl

/-- What a node gives is the identifier of its heading, or that of a document node without one. -/
theorem nameOf_cases {id : Nat} {x : String} (h : nameOf r doc id = some x) :
    (∃ heading, headingOf doc id = some heading ∧ r.idOf heading = some x) ∨
      doc.kind? id = some .document ∧ (titleOf doc id).bind r.idOf = none ∧
        x = defaultTopicId := by
  unfold nameOf at h
  unfold headingOf
  split at h
  · next hkind =>
    rw [hkind]
    cases hbind : (titleOf doc id).bind r.idOf with
    | none =>
      rw [hbind] at h
      exact .inr ⟨rfl, rfl, (Option.some.inj h).symm⟩
    | some y =>
      rw [hbind] at h
      obtain ⟨heading, htitle, hid⟩ := Option.bind_eq_some_iff.mp hbind
      exact .inl ⟨heading, htitle, hid.trans h⟩
  · next hkind =>
    rw [hkind]
    split at h
    · cases h
    · next htitle =>
      split at h
      · exact .inl ⟨id, if_neg htitle, h⟩
      · cases h
  · cases h

/-- A document node whose title has an identifier, if it has a title at all. -/
def Titled (r : Rules) (doc : Document) (id : Nat) : Prop := ((titleOf doc id).bind r.idOf).isSome

/-- An identifier is given once, unless it is the one that untitled document nodes fall back to. -/
theorem count_names_le_one
    (hunique : ∀ {heading other x}, r.idOf heading = some x → r.idOf other = some x →
      heading = other) {x : String}
    (hx : x = defaultTopicId → ∀ id ∈ doc.visited, doc.kind? id = some .document → Titled r doc id) :
    (names r doc).count x ≤ 1 := by
  have hvisited : doc.visited.Nodup := doc.nodup_preorder.filter _
  rw [names, count_filterMap_le_one_iff hvisited]
  have hheading : ∀ id ∈ doc.visited, nameOf r doc id = some x →
      ∃ heading, headingOf doc id = some heading ∧ r.idOf heading = some x := by
    intro id hid hname
    rcases nameOf_cases hname with h | ⟨hkind, hnone, hdefault⟩
    · exact h
    · have htitled := hx hdefault id hid hkind
      rw [Titled, hnone] at htitled
      cases htitled
  intro id hid other hother hname hname'
  obtain ⟨heading, hid, hx⟩ := hheading id hid hname
  obtain ⟨heading', hid', hx'⟩ := hheading other hother hname'
  obtain rfl := hunique hx hx'
  exact headingOf_injective hid hid'

/-- A renderer that assigns the identifiers of headings, or none where the options say so. -/
def AssignsHeadings (renderer : Renderer) : Prop :=
  renderer.assigner = none ∨ renderer.assigner = some Assigner.headings

/-- No two nodes are assigned the same identifier if the source does not repeat any. -/
theorem idOf_injective {renderer : Renderer} (hmake : AssignsHeadings renderer)
    (hdistinct : Key.headerIdResolveDupes.resolve (renderer.view doc) = true)
    (hown : (writtenIds doc).Nodup) {heading other : Nat} {x : String}
    (h : (rulesOf renderer doc).idOf heading = some x)
    (h' : (rulesOf renderer doc).idOf other = some x) : heading = other := by
  have hids : (rulesOf renderer doc).idOf =
      ((renderer.assignerFor (renderer.view doc)).assign doc).find? := rfl
  rw [hids] at h h'
  have hassigner : renderer.assignerFor (renderer.view doc) = .headings (renderer.view doc) ∨
      renderer.assignerFor (renderer.view doc) = .none := by
    rw [Renderer.assignerFor]
    rcases hmake with hmake | hmake <;> rw [hmake]
    · cases (Render.Settings.ofView (renderer.view doc)).headerIdsEnabled with
      | false => exact .inr rfl
      | true => exact .inl rfl
    · exact .inl rfl
  rcases hassigner with hassigner | hassigner <;> rw [hassigner] at h h'
  · have hrule : (HeadingRule.ofView (renderer.view doc)).distinct = true := hdistinct
    exact HeadingRule.find?_injective hrule hown h' h
  · cases h

/-- What the identifiers in the start tags of a whole document have to be. -/
structure Identified (r : Rules) (doc : Document) (ids : List String) : Prop where
  /-- Nodes of the document give them, in the order of the document. -/
  given : ids.Sublist (names r doc)
  once : ∀ x, x ≠ defaultTopicId → ids.count x ≤ 1
  titled : (∀ id ∈ doc.visited, doc.kind? id = some .document → Titled r doc id) → ids.Nodup
  /-- They do not repeat unless two nodes give the one that untitled document nodes fall back to. -/
  nodup : (names r doc).count defaultTopicId ≤ 1 → ids.Nodup
  /-- With two such nodes they do repeat, at least where only the root is a document node. -/
  repeated : OnlyRootIsDocument doc → 1 < (names r doc).count defaultTopicId → ¬ ids.Nodup

/-- The start tags that a session with the topic vocabulary alone writes have distinct identifiers,
but for the one that untitled document nodes fall back to. -/
theorem ids_distinct_but_default (renderer : Renderer) (doc : Document)
    (hmake : AssignsHeadings renderer)
    (hdistinct : Key.headerIdResolveDupes.resolve (renderer.view doc) = true)
    (hown : (writtenIds doc).Nodup) :
    ∃ t, renderer.topicOnly.render Sink.recorder doc #[] = .ok t ∧
      (t.outcome = .ok () → Identified (rulesOf renderer doc) doc (idsOf t.sink.toList)) := by
  refine ⟨_, renderNode_recorder renderer doc.built.size_pos, fun hok => ?_⟩
  have hnames := ids_strokesOf renderer ((outcome_scoreOf_eq_ok_iff renderer doc).mp hok)
  have hcount : ∀ x, (x = defaultTopicId → ∀ id ∈ doc.visited, doc.kind? id = some .document →
      Titled (rulesOf renderer doc) doc id) → (names (rulesOf renderer doc) doc).count x ≤ 1 :=
    fun x => count_names_le_one (idOf_injective hmake hdistinct hown)
  have hgiven : (idsOf (scoreOf renderer doc Document.rootId).closed).Sublist
      (names (rulesOf renderer doc) doc) := by
    rw [scoreOf, idsOf_closed, ← hnames]
    exact idsOf_score _ [] []
  have honce : ∀ x, x ≠ defaultTopicId → (names (rulesOf renderer doc) doc).count x ≤ 1 :=
    fun x hx => hcount x fun h => absurd h hx
  have hnodup : (names (rulesOf renderer doc) doc).count defaultTopicId ≤ 1 →
      (idsOf (scoreOf renderer doc Document.rootId).closed).Nodup := by
    refine fun hdefault => (List.nodup_iff_count_le_one.mpr fun x => ?_).sublist hgiven
    by_cases hx : x = defaultTopicId
    · rw [hx]
      exact hdefault
    · exact honce x hx
  refine ⟨hgiven, fun x hx => (hgiven.count_le x).trans (honce x hx),
    fun htitled => hnodup (hcount _ fun _ => htitled), hnodup, fun honly hrepeat hdistinct => ?_⟩
  -- without further document nodes everything that is given is written
  have hexact : idsOf (scoreOf renderer doc Document.rootId).closed =
      names (rulesOf renderer doc) doc := by
    rw [scoreOf, Score.outcome_inDocument] at hok
    rw [scoreOf, idsOf_closed, score_strokesOf renderer honly hok, idsOf_outline honly, ← hnames]
    rfl
  have hle := List.nodup_iff_count_le_one.mp hdistinct defaultTopicId
  rw [List.toList_toArray, hexact] at hle
  omega

/-- A paragraph and, behind it, a heading from whose text the identifier is made that untitled
document nodes fall back to. -/
def prefaceEvents : List Document.MarkdownEvent :=
  [.start .paragraph, .text "Intro", .close false,
    .start (.heading 1 none), .text "Topic", .close false]

theorem ids_distinct_but_default_preface :
    (writtenIds (Document.ofEvents prefaceEvents)).Nodup ∧
      Key.headerIdResolveDupes.resolve
        (Renderer.view {} (Document.ofEvents prefaceEvents)) = true ∧
      ∃ t, ({} : Renderer).topicOnly.render Sink.recorder (Document.ofEvents prefaceEvents) #[] =
          .ok t ∧
        t.outcome = .ok () ∧ Identified (rulesOf {} (Document.ofEvents prefaceEvents))
          (Document.ofEvents prefaceEvents) (idsOf t.sink.toList) := by
  have hown : (writtenIds (Document.ofEvents prefaceEvents)).Nodup := by decide +kernel
  have hdistinct : Key.headerIdResolveDupes.resolve
      (Renderer.view {} (Document.ofEvents prefaceEvents)) = true := by decide +kernel
  obtain ⟨t, hrender, hids⟩ := ids_distinct_but_default {} _ (.inl rfl) hdistinct hown
  have hrecorded := renderNode_recorder {} (Document.ofEvents prefaceEvents).built.size_pos
  obtain rfl := Except.ok.inj (hrender.symm.trans hrecorded)
  have hok : (scoreOf {} (Document.ofEvents prefaceEvents) Document.rootId).outcome = .ok () := by
    decide +kernel
  exact ⟨hown, hdistinct, _, hrender, hok, hids hok⟩

/-- The identifier of an untitled document node and that of a heading can be the same. -/
theorem default_id_repeats :
    (writtenIds (Document.ofEvents prefaceEvents)).Nodup ∧
      Key.headerIdResolveDupes.resolve
        (Renderer.view {} (Document.ofEvents prefaceEvents)) = true ∧
      ∃ t, ({} : Renderer).topicOnly.render Sink.recorder (Document.ofEvents prefaceEvents) #[] =
          .ok t ∧
        t.outcome = .ok () ∧ ¬ (idsOf t.sink.toList).Nodup := by
  refine ⟨by decide +kernel, by decide +kernel, _,
    renderNode_recorder _ (Document.built _).size_pos, by decide +kernel, by decide +kernel⟩

end DitaTopic.Topic
