import DitaTopic.Proofs.Topic.Compositional

/-!
# The topic around everything

A successful session on a whole document starts with the topic, and what it writes is balanced. The
topic is all that is written where sections are started near the root only: by headings that are
children of the root or of a document node directly below it. A heading of a document node further
down starts its section in the outermost body all the same, and ends what is open in that. The
handlers around it then end an element each, as if nothing had happened, and so may end the body and
the topic, with more to be written after them.
-/

namespace DitaTopic

open DitaTopic.Document (NodeKind Tree)
open DitaTopic.Markup
open DitaTopic.Render

/-- Only children of the root and of document nodes directly below it start sections: in every
other document node at most the first child is a heading, and that is the title. -/
def Document.SectionsNearRoot (doc : Document) : Prop :=
  ∀ p < doc.size, doc.type? p = some .document →
    p = Document.rootId ∨ p ∈ doc.children Document.rootId ∨
      ∀ c ∈ (doc.children p).tail, doc.type? c ≠ some .heading

instance (doc : Document) : Decidable doc.SectionsNearRoot :=
  inferInstanceAs (Decidable (∀ p < doc.size, _ → _))

namespace Topic

/-- A tree below whose root no heading starts a section. Whether the root does is for what is around
the tree to say. -/
inductive Unsectioned : Tree → Prop where
  | node {id : Nat} {kind : NodeKind} {children : List Tree}
    (leading : kind = .document → ∀ t ∈ children.tail, t.kind.type ≠ .heading)
    (below : ∀ t ∈ children, Unsectioned t) : Unsectioned (.node id kind children)

variable {doc : Document} {r : Rules} {k : Nat}

/-- A child of a node other than the root is neither the root nor a child of it. -/
theorem apart_of_mem_children {id c : Nat} (hroot : id ≠ Document.rootId) (hc : c ∈ doc.children id) :
    c < doc.size ∧ c ≠ Document.rootId ∧ c ∉ doc.children Document.rootId := by
  obtain ⟨hlt, inside⟩ := Document.Arena.mem_children hc
  refine ⟨inside, Nat.ne_of_gt (Nat.zero_lt_of_lt hlt), fun hmem => hroot ?_⟩
  have hparent := doc.built.parent?_of_mem_children hc
  rw [doc.built.parent?_of_mem_children hmem] at hparent
  exact (Option.some.inj hparent).symm

/-- Away from the root nothing starts a section. -/
theorem unsectioned_tree (h : doc.SectionsNearRoot) {id : Nat} (inside : id < doc.size)
    (hroot : id ≠ Document.rootId) (hchild : id ∉ doc.children Document.rootId) :
    Unsectioned (doc.arena.tree id) := by
  induction id using doc.arena.descent with
  | step id ih =>
    rw [Document.Arena.tree_eq]
    refine .node (fun hkind t ht => ?_) (fun t ht => ?_)
    · rw [← List.map_tail] at ht
      obtain ⟨c, hc, rfl⟩ := List.mem_map.mp ht
      obtain ⟨insideChild, -⟩ := apart_of_mem_children hroot (List.mem_of_mem_tail hc)
      have htype : doc.type? id = some .document := by
        rw [type?_eq inside, Document.Arena.tree_eq, hkind]
        rfl
      have hplain := ((h id inside htype).resolve_left hroot).resolve_left hchild c hc
      rw [type?_eq insideChild] at hplain
      exact fun hheading => hplain (congrArg some hheading)
    · obtain ⟨c, hc, rfl⟩ := List.mem_map.mp ht
      obtain ⟨insideChild, hroot, hchild⟩ := apart_of_mem_children hroot hc
      exact ih c hc insideChild hroot hchild

/-- Two levels below the root nothing starts a section. -/
theorem unsectioned_grandchild (h : doc.SectionsNearRoot) {id : Nat} (hroot : id ≠ Document.rootId) :
    ∀ t ∈ (doc.children id).map doc.arena.tree, Unsectioned t := by
  intro t ht
  obtain ⟨c, hc, rfl⟩ := List.mem_map.mp ht
  obtain ⟨inside, hroot, hchild⟩ := apart_of_mem_children hroot hc
  exact unsectioned_tree h inside hroot hchild

/-! ### Trees without sections -/

/-- Strokes that write the markup of some pieces, if they succeed. -/
def WritesPieces (ss : List Stroke) : Prop := ∃ pieces, Writes ss pieces

theorem writesPieces_compositional : Compositional WritesPieces where
  nil := ⟨[], Writes.nil⟩
  append := fun ⟨_, hfirst⟩ ⟨_, hsecond⟩ => ⟨_, hfirst.append hsecond⟩
  around := fun ⟨_, h⟩ name attributes => ⟨_, h.around name attributes⟩
  characters text := ⟨_, Writes.characters text⟩
  instruction target data := ⟨_, Writes.instruction target data⟩
  refuse type := ⟨[], fun _ _ hok => by cases hok⟩

/-- The attributes of the topic that a document node writes. -/
def attributesOf (r : Rules) (o : Opening Part) : Attributes :=
  topicAttributes (o.title.bind fun part => r.idOf part.tree.id)

/-- Up to its body a document node writes pieces inside its topic. -/
theorem score_upToBody (r : Rules) {o : Opening Part}
    (htitle : ∀ part, o.title = some part → WritesPieces part.inside)
    (hshortdesc : ∀ part, o.shortdesc = some part → WritesPieces part.inside) :
    ∃ opening, ∀ openElements marks,
      (score (documentStrokes r o) openElements marks).outcome = .ok () →
        (score (wholes o.body ++ [.finishBody]) ("body" :: "topic" :: openElements)
          ((openElements.length + 2) :: marks)).outcome = .ok () ∧
        score (documentStrokes r o) openElements marks =
          (score (wholes o.body ++ [.finishBody]) ("body" :: "topic" :: openElements)
            ((openElements.length + 2) :: marks)).behind
              (.startElement "topic" (attributesOf r o) ::
                (flatten opening ++ [.startElement "body" .none])) := by
  obtain ⟨opening, hopening⟩ := writesPieces_compositional.opening htitle hshortdesc
  refine ⟨opening, fun openElements marks hok => ?_⟩
  rw [documentStrokes, ← List.append_assoc, score_start] at hok ⊢
  obtain ⟨hbody, hscore⟩ := hopening.score_append hok
  rw [score_startBody] at hbody hscore
  exact ⟨hbody, by rw [hscore, Score.behind_behind, Score.behind_behind]; rfl⟩

/-- A document node whose body writes pieces writes one topic. -/
theorem writesPieces_document {o : Opening Part}
    (htitle : ∀ part, o.title = some part → WritesPieces part.inside)
    (hshortdesc : ∀ part, o.shortdesc = some part → WritesPieces part.inside)
    (hbody : WritesPieces (wholes o.body)) : WritesPieces (documentStrokes r o) := by
  obtain ⟨opening, hopening⟩ := score_upToBody r htitle hshortdesc
  obtain ⟨body, hbody⟩ := hbody
  refine ⟨[.element "topic" (attributesOf r o) (opening ++ [.element "body" .none body])],
    fun openElements marks hok => ?_⟩
  obtain ⟨hok, hscore⟩ := hopening openElements marks hok
  have hends : score [.finishBody] ("body" :: "topic" :: openElements)
      ((openElements.length + 2) :: marks) = _ := score_finishBody [] openElements marks
  rw [hscore, (hbody.score_append hok).2, hends]
  simp [Score.behind]

theorem Unsectioned.writes {t : Tree} (h : Unsectioned t) (k : Nat) :
    WritesPieces (strokes r false k t) ∧ WritesPieces (insideStrokes r k t) := by
  induction h generalizing k with
  | @node id kind children leading below ih =>
    have hchildren : ∀ k, ∀ t ∈ children, WritesPieces (strokes r false k t) :=
      fun k t ht => (ih t ht k).1
    refine ⟨?_, writesPieces_compositional.wholes (hchildren k)⟩
    by_cases hkind : kind = .document
    · subst hkind
      have hinside : ∀ p ∈ parts r true r.documentSuppression children, WritesPieces p.inside := by
        intro p hp
        obtain ⟨t, ht, rfl⟩ := mem_parts hp
        exact (ih t ht _).2
      refine writesPieces_document (fun p hp => hinside p (Opening.title_mem hp))
        (fun p hp => hinside p (Opening.shortdesc_mem hp)) ?_
      refine writesPieces_compositional.flatMap fun p hp => ?_
      obtain ⟨t, ht, rfl⟩ := mem_parts (Opening.body_mem hp)
      -- a heading in the body would not be the first child
      have hplain : t.kind.type ≠ .heading := by
        intro hheading
        have htail := Opening.mem_tail_of_body hp hheading
        rw [parts_eq, ← List.map_tail] at htail
        obtain ⟨t', ht', heq⟩ := List.mem_map.mp htail
        obtain rfl : t' = t := congrArg Part.tree heq
        exact leading rfl t' ht' hheading
      show WritesPieces (strokes r true _ t)
      rw [strokes_top hplain]
      exact hchildren _ t ht
    · exact writesPieces_compositional.node k id hkind hchildren

/-! ### Sections near the root -/

/-- Strokes that, if they succeed with the outermost body open, leave it and the topic around it
open and end nothing below `inner`. What they leave open inside is as before, or one of the
alternatives. -/
def Spares (alternatives : List (List String)) (ss : List Stroke) : Prop :=
  ∀ inner marks, (score ss (inner ++ ["body", "topic"]) marks).outcome = .ok () →
    ∃ events left, score ss (inner ++ ["body", "topic"]) marks =
        ⟨events, .ok (), left ++ ["body", "topic"], marks⟩ ∧
      openAfter inner events = some left ∧ (left = inner ∨ left ∈ alternatives)

variable {alternatives more : List (List String)} {first second ss inside : List Stroke}

theorem Spares.mono (h : Spares alternatives ss) (hsub : alternatives ⊆ more) : Spares more ss := by
  intro inner marks hok
  obtain ⟨events, left, hscore, hnests, hleft⟩ := h inner marks hok
  exact ⟨events, left, hscore, hnests, hleft.imp_right fun hmem => hsub hmem⟩

theorem Spares.append (hfirst : Spares alternatives first) (hsecond : Spares alternatives second) :
    Spares alternatives (first ++ second) := by
  intro inner marks hok
  rw [score_append] at hok ⊢
  obtain ⟨hok, hrest⟩ := Score.ok_of_followedBy hok
  obtain ⟨events, between, hscore, hnests, hbetween⟩ := hfirst inner marks hok
  rw [hscore] at hrest ⊢
  obtain ⟨later, left, hscore, hnests', hleft⟩ := hsecond between marks hrest
  refine ⟨events ++ later, left, ?_, ?_, ?_⟩
  · rw [Score.followedBy, hscore]
    rfl
  · rw [openAfter_append, hnests, Option.bind_some, hnests']
  · rcases hleft with rfl | hmem
    · exact hbetween
    · exact .inr hmem

theorem Spares.flatMap {α : Type} {items : List α} {strokesOf : α → List Stroke}
    (h : ∀ x ∈ items, Spares alternatives (strokesOf x)) :
    Spares alternatives (items.flatMap strokesOf) := by
  induction items with
  | nil => exact fun inner marks _ => ⟨[], inner, rfl, rfl, .inl rfl⟩
  | cons x rest ih =>
    exact (h x List.mem_cons_self).append (ih fun y hy => h y (List.mem_cons_of_mem _ hy))

theorem WritesPieces.spares (h : WritesPieces ss) : Spares alternatives ss := by
  obtain ⟨pieces, hwrites⟩ := h
  exact fun inner marks hok =>
    ⟨flatten pieces, inner, hwrites _ _ hok, openAfter_flatten inner pieces, .inl rfl⟩

/-- A section that is started in the outermost body leaves itself open. -/
theorem spares_heading (h : WritesPieces inside) (ofSection ofParagraph : Attributes) :
    Spares [["section"]] (.startSection ofSection ofParagraph :: (inside ++ [.finish])) := by
  obtain ⟨pieces, hwrites⟩ := h
  intro inner marks hok
  rw [score_startSection] at hok ⊢
  rw [(hwrites.score_append hok).2, score_finish]
  refine ⟨_, ["section"], rfl, ?_, .inr (List.mem_singleton_self _)⟩
  have htitle := openAfter_events ["section"] (.element "title" .none pieces)
  rw [events_element] at htitle
  rw [Score.behind, List.append_assoc, openAfter_append, openAfter_ends, Option.bind_some]
  exact htitle

/-- Where less is open than when a body was started, ending it ends one element. -/
theorem score_finishBody_of_le {name : String} {outer : List String} {mark : Nat}
    (h : outer.length + 2 ≤ mark) (marks : Marks) :
    score [.finishBody] (name :: outer) (mark :: marks) =
      ⟨[.endElement name], .ok (), outer, marks⟩ := by
  have hcount : (name :: outer).length + 1 - (mark :: marks).headD 0 = 0 := by
    rw [List.length_cons, List.headD_cons]
    omega
  have hscore : Stroke.score .finishBody (name :: outer) (mark :: marks) =
      ⟨[.endElement name], .ok (), outer, marks⟩ := by
    rw [Stroke.score, Stroke.commands, hcount]
    rfl
  rw [score, hscore]
  rfl

/-- A document node in the outermost body leaves open what was so before or, if it has sections,
nothing in that body. -/
theorem spares_document {o : Opening Part}
    (htitle : ∀ part, o.title = some part → WritesPieces part.inside)
    (hshortdesc : ∀ part, o.shortdesc = some part → WritesPieces part.inside)
    (hbody : Spares [["section"]] (wholes o.body)) : Spares [[]] (documentStrokes r o) := by
  obtain ⟨opening, hopening⟩ := score_upToBody r htitle hshortdesc
  intro inner marks hok
  obtain ⟨hok, hscore⟩ := hopening _ _ hok
  rw [score_append] at hok hscore
  obtain ⟨hok, -⟩ := Score.ok_of_followedBy hok
  obtain ⟨events, left, hwhole, hnests, hleft⟩ := hbody ("body" :: "topic" :: inner) _ hok
  rw [List.cons_append, List.cons_append] at hwhole
  rw [hscore, hwhole]
  have hstarted (ends : List MarkupEvent) :
      openAfter inner ((.startElement "topic" (attributesOf r o) ::
        (flatten opening ++ [.startElement "body" .none])) ++ (events ++ ends)) =
          openAfter left ends := by
    rw [List.cons_append, openAfter_start, List.append_assoc, openAfter_append, openAfter_flatten,
      Option.bind_some, List.singleton_append, openAfter_start, openAfter_append, hnests,
      Option.bind_some]
  rcases hleft with rfl | hsection
  · have hends : score [.finishBody] (("body" :: "topic" :: inner) ++ ["body", "topic"])
        (((inner ++ ["body", "topic"]).length + 2) :: marks) = _ :=
      score_finishBody [] (inner ++ ["body", "topic"]) marks
    rw [Score.followedBy, hends]
    exact ⟨_, inner, rfl, hstarted [.endElement "body", .endElement "topic"], .inl rfl⟩
  · obtain rfl : left = ["section"] := List.mem_singleton.mp hsection
    have hbelow : ["body", "topic"].length + 2 ≤ (inner ++ ["body", "topic"]).length + 2 := by
      rw [List.length_append]
      omega
    have hends : score [.finishBody] (["section"] ++ ["body", "topic"])
        (((inner ++ ["body", "topic"]).length + 2) :: marks) = _ :=
      score_finishBody_of_le hbelow marks
    rw [Score.followedBy, hends]
    exact ⟨_, [], rfl, hstarted [.endElement "section"], .inr (List.mem_singleton_self _)⟩

/-- In the outermost body a tree without sections may itself be a heading that starts one. -/
theorem Unsectioned.spares {t : Tree} (h : Unsectioned t) (k : Nat) :
    Spares [["section"]] (strokes r true k t) := by
  obtain ⟨hwhole, hinside⟩ := h.writes k
  by_cases hheading : t.kind.type = .heading
  · obtain ⟨ofParagraph, hstrokes⟩ := strokes_heading (r := r) (k := k) hheading
    rw [hstrokes]
    exact spares_heading hinside _ ofParagraph
  · rw [strokes_top hheading]
    exact hwhole.spares

/-- A document node whose children have no sections of their own is a topic with sections. -/
theorem spares_node {children : List Tree} (h : ∀ t ∈ children, Unsectioned t) (k id : Nat) :
    Spares [[]] (strokes r true k (.node id .document children)) := by
  have hinside : ∀ p ∈ parts r true r.documentSuppression children, WritesPieces p.inside := by
    intro p hp
    obtain ⟨t, ht, rfl⟩ := mem_parts hp
    exact ((h t ht).writes _).2
  refine spares_document (fun p hp => hinside p (Opening.title_mem hp))
    (fun p hp => hinside p (Opening.shortdesc_mem hp)) (Spares.flatMap fun p hp => ?_)
  obtain ⟨t, ht, rfl⟩ := mem_parts (Opening.body_mem hp)
  exact (h t ht).spares _

theorem unsectioned_child (h : doc.SectionsNearRoot) {c : Nat}
    (hc : c ∈ doc.children Document.rootId) (hplain : (doc.arena.tree c).kind ≠ .document) :
    Unsectioned (doc.arena.tree c) := by
  obtain ⟨hlt, -⟩ := Document.Arena.mem_children hc
  rw [Document.Arena.tree_eq] at hplain ⊢
  exact .node (fun hkind => absurd hkind hplain) (unsectioned_grandchild h (Nat.ne_of_gt hlt))

/-- A child of the root may start sections, and leave one open or else nothing. -/
theorem spares_child (h : doc.SectionsNearRoot) {c : Nat}
    (hc : c ∈ doc.children Document.rootId) (k : Nat) :
    Spares [["section"], []] (strokes r true k (doc.arena.tree c)) := by
  by_cases hkind : (doc.arena.tree c).kind = .document
  · obtain ⟨hlt, -⟩ := Document.Arena.mem_children hc
    rw [Document.Arena.tree_eq] at hkind ⊢
    obtain hkind : (doc.arena.kind? c).getD .document = .document := hkind
    rw [hkind]
    exact (spares_node (unsectioned_grandchild h (Nat.ne_of_gt hlt)) k c).mono (by simp)
  · exact ((unsectioned_child h hc hkind).spares k).mono (by simp)

/-! ### The root -/

/-- How the children of the root are used. -/
def rootOpening (r : Rules) (doc : Document) : Opening Part :=
  .ofList Part.type r.settings.shortdescParagraph
    (parts r true r.documentSuppression ((doc.children Document.rootId).map doc.arena.tree))

theorem strokesOf_root (renderer : Renderer) (doc : Document) :
    strokesOf renderer doc Document.rootId =
      documentStrokes (rulesOf renderer doc) (rootOpening (rulesOf renderer doc) doc) := by
  have hroot : doc.arena.tree Document.rootId = _ := tree_root doc
  rw [strokesOf, hroot]
  rfl

/-- If its body spares the topic, the root writes the topic and nothing else. -/
theorem score_enclosed {o : Opening Part}
    (htitle : ∀ part, o.title = some part → WritesPieces part.inside)
    (hshortdesc : ∀ part, o.shortdesc = some part → WritesPieces part.inside)
    (hbody : Spares alternatives (wholes o.body))
    (hok : (score (documentStrokes r o) [] []).outcome = .ok ()) :
    ∃ inside, openAfter [] inside = some [] ∧ score (documentStrokes r o) [] [] =
      ⟨.startElement "topic" (attributesOf r o) :: (inside ++ [.endElement "topic"]), .ok (), [],
        []⟩ := by
  obtain ⟨opening, hopening⟩ := score_upToBody r htitle hshortdesc
  obtain ⟨hok, hscore⟩ := hopening _ _ hok
  rw [score_append] at hok hscore
  obtain ⟨hok, -⟩ := Score.ok_of_followedBy hok
  obtain ⟨events, left, hwhole, hnests, -⟩ := hbody [] _ hok
  rw [List.nil_append] at hwhole
  rw [hscore, hwhole, Score.followedBy, score_finishBody left [] []]
  refine ⟨flatten opening ++ .startElement "body" .none ::
    (events ++ (left.map .endElement ++ [.endElement "body"])), ?_, by simp [Score.behind]⟩
  have hframe := openAfter_frame hnests ["body"]
  rw [List.nil_append] at hframe
  rw [openAfter_append, openAfter_flatten, Option.bind_some, openAfter_start, openAfter_append,
    hframe, Option.bind_some, openAfter_append, openAfter_ends_append]
  rfl

theorem score_root_enclosed (renderer : Renderer) (h : doc.SectionsNearRoot)
    (hok : (score (strokesOf renderer doc Document.rootId) [] []).outcome = .ok ()) :
    ∃ attributes inside, openAfter [] inside = some [] ∧
      score (strokesOf renderer doc Document.rootId) [] [] =
        ⟨.startElement "topic" attributes :: (inside ++ [.endElement "topic"]), .ok (), [], []⟩ := by
  rw [strokesOf_root] at hok ⊢
  -- neither the title nor the short description is a document node
  have hinside : ∀ p ∈ parts (rulesOf renderer doc) true (rulesOf renderer doc).documentSuppression
      ((doc.children Document.rootId).map doc.arena.tree), p.type ≠ .document →
        WritesPieces p.inside := by
    intro p hp htype
    obtain ⟨t, ht, rfl⟩ := mem_parts hp
    obtain ⟨c, hc, rfl⟩ := List.mem_map.mp ht
    exact ((unsectioned_child h hc fun hkind => htype (congrArg NodeKind.type hkind)).writes _).2
  have hbody : Spares [["section"], []] (wholes (rootOpening (rulesOf renderer doc) doc).body) := by
    refine Spares.flatMap fun p hp => ?_
    obtain ⟨t, ht, rfl⟩ := mem_parts (Opening.body_mem hp)
    obtain ⟨c, hc, rfl⟩ := List.mem_map.mp ht
    exact spares_child h hc _
  refine ⟨_, score_enclosed (fun p hp => ?_) (fun p hp => ?_) hbody hok⟩
  · refine hinside p (Opening.title_mem hp) ?_
    rw [Opening.title_type hp]
    nofun
  · refine hinside p (Opening.shortdesc_mem hp) ?_
    rw [(Opening.shortdesc_type hp).2]
    nofun

/-- Everything that a session writes is pieces, the first of them the topic. -/
theorem exists_topic (renderer : Renderer) (doc : Document) :
    ∃ attributes inside more,
      contentOf (scoreOf renderer doc Document.rootId).closed.toArray =
        flatten (.element "topic" attributes inside :: more) := by
  have hdelivers := delivers_playWhole Sink.recorder (strokesOf renderer doc Document.rootId) #[]
  have hnests : openAfter [] (scoreOf renderer doc Document.rootId).closed = some [] := by
    rw [scoreOf, Score.closed, openAfter_append, hdelivers.nests, Option.bind_some, openAfter_ends]
  obtain ⟨pieces, hpieces⟩ := exists_pieces hnests
  have hfirst : ∃ attributes rest, contentOf (scoreOf renderer doc Document.rootId).closed.toArray =
      .startElement "topic" attributes :: rest := by
    rw [scoreOf, Score.content_inDocument, strokesOf_root, documentStrokes, score_start]
    exact ⟨_, _, rfl⟩
  obtain ⟨attributes, rest, hrest⟩ := hfirst
  rw [contentOf, List.toList_toArray] at hrest ⊢
  obtain ⟨inside, more, rfl⟩ := eq_element_of_flatten (hpieces.symm.trans hrest)
  exact ⟨attributes, inside, more, hpieces⟩

/-- A whole document whose session succeeds is written as the topic and what may follow it. Where
sections are started near the root only, the topic is all there is. -/
theorem topic_encloses (renderer : Renderer) (doc : Document) :
    ∃ t, renderer.topicOnly.render Sink.recorder doc #[] = .ok t ∧
      (t.outcome = .ok () → ∃ attributes inside more,
        contentOf t.sink = flatten (.element "topic" attributes inside :: more) ∧
          (doc.SectionsNearRoot → more = [])) := by
  refine ⟨_, renderNode_recorder renderer doc.built.size_pos, fun hok => ?_⟩
  by_cases hnear : doc.SectionsNearRoot
  · rw [scoreOf, Score.outcome_inDocument] at hok
    obtain ⟨attributes, events, hnests, hscore⟩ := score_root_enclosed renderer hnear hok
    obtain ⟨inside, hinside⟩ := exists_pieces hnests
    refine ⟨attributes, inside, [], ?_, fun _ => rfl⟩
    rw [scoreOf, Score.content_inDocument, hscore, flatten_cons, events_element, ← hinside,
      Score.closed, List.map_nil, List.append_nil, List.filter_cons_of_pos rfl, List.filter_append,
      flatten_nil, List.append_nil]
    rfl
  · obtain ⟨attributes, inside, more, hcontent⟩ := exists_topic renderer doc
    exact ⟨attributes, inside, more, hcontent, fun h => absurd h hnear⟩

/-- A document node with a section directly below the root, and a paragraph behind it. -/
def chapter : Document :=
  (((Document.empty.attach 0 .document).attach 1 (.heading 1 (some "a"))).attach 1
    (.heading 1 (some "b"))).attach 0 .paragraph

theorem topic_encloses_chapter :
    chapter.SectionsNearRoot ∧
      ∃ t, ({} : Renderer).topicOnly.render Sink.recorder chapter #[] = .ok t ∧
        t.outcome = .ok () ∧
        ∃ attributes inside, contentOf t.sink = (Piece.element "topic" attributes inside).events := by
  have hnear : chapter.SectionsNearRoot := by decide +kernel
  have houtcome : (scoreOf {} chapter Document.rootId).outcome = .ok () := by decide +kernel
  obtain ⟨t, hrender, hcontent⟩ := topic_encloses {} chapter
  obtain rfl := Except.ok.inj (hrender.symm.trans (renderNode_recorder {} chapter.built.size_pos))
  obtain ⟨attributes, inside, more, hcontent, hmore⟩ := hcontent houtcome
  rw [hmore hnear, flatten_cons, flatten_nil, List.append_nil] at hcontent
  exact ⟨hnear, _, hrender, houtcome, attributes, inside, hcontent⟩

/-- The same document node in a list, and a paragraph behind that. -/
def chapterInList : Document :=
  (((((Document.empty.attach 0 (.list none)).attach 1 .item).attach 2 .document).attach 3
    (.heading 1 (some "a"))).attach 3 (.heading 1 (some "b"))).attach 0 .paragraph

/-- The paragraph stands outside the topic. -/
theorem topic_not_alone :
    ∃ t, ({} : Renderer).topicOnly.render Sink.recorder chapterInList #[] = .ok t ∧
      t.outcome = .ok () ∧
      ∀ attributes inside, contentOf t.sink ≠ (Piece.element "topic" attributes inside).events := by
  refine ⟨_, renderNode_recorder {} chapterInList.built.size_pos, by decide +kernel, ?_⟩
  have hlast : (contentOf (scoreOf {} chapterInList Document.rootId).closed.toArray).getLast? =
      some (.endElement "p") := by decide +kernel
  intro attributes inside hcontent
  have hend : (contentOf (scoreOf {} chapterInList Document.rootId).closed.toArray).getLast? =
      some (.endElement "topic") := by
    rw [hcontent, events_element, ← List.cons_append, List.getLast?_concat]
  rw [hlast] at hend
  exact absurd hend (by decide)

end Topic

end DitaTopic
