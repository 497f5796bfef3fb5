import DitaTopic.Proofs.Topic.Content
import DitaTopic.Proofs.Topic.Outline
import DitaTopic.Proofs.Topic.Runs

/-!
# Rendering a node alone

Where only the root is a document node, a node that is rendered in the course of the whole document
gets there what it gets when it is rendered alone. Its strokes are written as the same markup
whatever is open around it, its identifiers are those of the document in either session, and
without an image above it links are suppressed in both or in neither. Headings that are children of
the root are left out: alone they are paragraphs, since no body is open.
-/

namespace DitaTopic.Topic

open DitaTopic.Document (NodeKind NodeType)
open DitaTopic.Markup
open DitaTopic.Options
open DitaTopic.Render

variable {renderer : Renderer} {doc : Document} {node : Nat}

/-- Without an image above a node its suppression is the one with which a document node starts. -/
theorem suppressionAt_of_no_image (base : Nat)
    (h : ∀ p ∈ doc.arena.ancestors node, doc.type? p ≠ some .image) :
    doc.suppressionAt base node = base := by
  rw [Document.suppressionAt, List.countP_eq_zero.mpr, Nat.add_zero]
  intro p hp
  rw [beq_iff_eq]
  exact h p ((List.takeWhile_sublist _).subset hp)

theorem contentOf_pieces {pieces : List Piece} {marks : Marks} :
    contentOf (Score.inDocument ⟨flatten pieces, .ok (), [], marks⟩).closed.toArray =
      flatten pieces := by
  rw [Score.content_inDocument, Score.closed, List.map_nil, List.append_nil, filter_flatten]

/-- A node that is neither the root nor a heading that is the root's child gives its markup when it
is rendered alone, if its strokes succeed anywhere. -/
theorem renderNode_alone (renderer : Renderer) {pieces : List Piece} (inside : node < doc.size)
    (hwrites : Writes (strokesOf renderer doc node) pieces) {openElements : List String}
    {marks : Marks}
    (hok : (score (strokesOf renderer doc node) openElements marks).outcome = .ok ()) :
    ∃ u, renderer.topicOnly.renderNode Sink.recorder doc node #[] = .ok u ∧
      u.outcome = .ok () ∧ contentOf u.sink = flatten pieces := by
  have halone : (score (strokesOf renderer doc node) [] []).outcome = .ok () := by
    rw [(leaves_score _ _ _).2] at hok ⊢
    exact hok
  refine ⟨_, renderNode_recorder renderer inside, ?_, ?_⟩
  · rw [scoreOf, Score.outcome_inDocument, halone]
  · rw [scoreOf, hwrites _ _ halone, contentOf_pieces]

/-- In a successful session of the topic vocabulary alone on a whole document, a node that is
rendered emits what it gives when it is rendered alone. -/
theorem subtree_agrees (renderer : Renderer) (honly : OnlyRootIsDocument doc)
    (hroot : node ≠ Document.rootId)
    (hheading : node ∈ doc.children Document.rootId → doc.type? node ≠ some .heading)
    (himage : ∀ p ∈ doc.arena.ancestors node, doc.type? p ≠ some .image)
    {t : Transcript (Array MarkupEvent)}
    (hrender : renderer.topicOnly.render Sink.recorder doc #[] = .ok t)
    (hok : t.outcome = .ok ()) :
    let session := sessionOf renderer doc Sink.recorder
    let depth := renderer.depth doc session.registry
    ∀ start ∈ session.startsOf depth (.render Document.rootId) (openingState session),
      start.frame.node = node →
        ∃ u, renderer.topicOnly.renderNode Sink.recorder doc node #[] = .ok u ∧
          u.outcome = .ok () ∧ Emits session t.sink.toList start (contentOf u.sink) := by
  intro session depth start hstart hnode
  have hsink : session.sink = Sink.recorder := rfl
  have hregistry : session.registry = registry (renderer.view doc) := rfl
  have hrendered : Rendered session (Settings.ofView (renderer.view doc)) t.sink.toList start :=
    rendered_of_run hsink hregistry (size_le_depth renderer doc) (run_of_render hrender) hok hstart
  obtain ⟨hscored, hemits, -⟩ := written_of_rendered hsink hregistry hrendered
  obtain ⟨inside, -⟩ := Document.mem_visited.mp hrendered.visited
  have hsuppression : start.before.suppression = (rulesOf renderer doc).documentSuppression := by
    rw [hrendered.suppression, hnode]
    exact suppressionAt_of_no_image _ himage
  have hstrokes : strokesAt session (Settings.ofView (renderer.view doc))
      start.before.suppression start.frame.node = strokesOf renderer doc node := by
    rw [hsuppression, hnode]
    rfl
  have hwrites : Writes (strokesOf renderer doc node) _ :=
    writes_node honly (hnode ▸ inside) hroot hheading (rulesOf renderer doc).documentSuppression
  rw [scoreAt, hstrokes] at hscored hemits
  obtain ⟨u, hu, houtcome, hcontent⟩ := renderNode_alone renderer (hnode ▸ inside) hwrites hscored
  rw [hwrites _ _ hscored, ← hcontent] at hemits
  exact ⟨u, hu, houtcome, hemits⟩

/-- A heading in a block quote. -/
def quoted : Document :=
  ((Document.empty.attach 0 .blockQuote).attach 1 (.heading 2 none)).attach 2 (.text "Quoted")

/-- The block quote is rendered with its document and gives the same alone. -/
theorem subtree_agrees_quoted :
    let renderer : Renderer := { extraDepth := 0 }
    let session := sessionOf renderer quoted Sink.recorder
    let depth := renderer.depth quoted session.registry
    OnlyRootIsDocument quoted ∧ quoted.type? 1 ≠ some .heading ∧
      (∀ p ∈ quoted.arena.ancestors 1, quoted.type? p ≠ some .image) ∧
      ∃ t, renderer.topicOnly.render Sink.recorder quoted #[] = .ok t ∧ t.outcome = .ok () ∧
        ∃ start ∈ session.startsOf depth (.render Document.rootId) (openingState session),
          ∃ u, renderer.topicOnly.renderNode Sink.recorder quoted 1 #[] = .ok u ∧
            u.outcome = .ok () ∧ Emits session t.sink.toList start (contentOf u.sink) := by
  intro renderer session depth
  have hquote : NodeKind.blockQuote ≠ .document := nofun
  have hsub : NodeKind.heading 2 none ≠ .document := nofun
  have htext : NodeKind.text "Quoted" ≠ .document := nofun
  have honly : OnlyRootIsDocument quoted :=
    ((onlyRootIsDocument_empty.attach 0 hquote).attach 1 hsub).attach 2 htext
  have hheading : quoted.type? 1 ≠ some .heading := by decide +kernel
  have himage : ∀ p ∈ quoted.arena.ancestors 1, quoted.type? p ≠ some .image := by decide +kernel
  have hrender := renderNode_recorder renderer quoted.built.size_pos
  have hok : (scoreOf renderer quoted Document.rootId).outcome = .ok () := by decide +kernel
  obtain ⟨start, hstart, hnode⟩ : ∃ start ∈ session.startsOf depth (.render Document.rootId)
      (openingState session), start.frame.node = 1 := by
    have hnodes : 1 ∈ (session.startsOf depth (.render Document.rootId)
        (openingState session)).map fun start => start.frame.node := by decide +kernel
    exact List.mem_map.mp hnodes
  exact ⟨honly, hheading, himage, _, hrender, hok, start, hstart,
    subtree_agrees renderer honly (by decide) (fun _ => hheading) himage hrender hok start hstart
      hnode⟩

end DitaTopic.Topic
