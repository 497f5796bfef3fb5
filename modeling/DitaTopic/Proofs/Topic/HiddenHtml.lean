import DitaTopic.Proofs.Document.RawHtml
import DitaTopic.Proofs.Identifier.Distinct
import DitaTopic.Proofs.Topic.Content
import DitaTopic.Proofs.Topic.Layering

/-!
# Suppressed raw HTML

Where the options suppress raw HTML of every class, what it says has no influence on a session with
the topic vocabulary: documents that differ in raw HTML alone get the same identifiers and the same
strokes, and so the same transcript in every sink. No instruction with raw HTML is written then.
A renderer that was given something else to make identifiers with is covered as far as that takes
no notice of raw HTML either.
-/

namespace DitaTopic

open DitaTopic.Document (NodeKind NodeType Tree DifferInHtml)
open DitaTopic.Identifier
open DitaTopic.Markup
open DitaTopic.Options
open DitaTopic.Render

namespace Document.DifferInHtml

variable {doc other : Document}

theorem heading? (h : doc.DifferInHtml other) (id : Nat) :
    Identifier.heading? doc id = Identifier.heading? other id := by
  have hkind := h.kind? id
  rw [Identifier.heading?, Identifier.heading?]
  cases hdoc : doc.kind? id with
  | none =>
    rw [hdoc] at hkind
    rw [Option.map_eq_none_iff.mp hkind.symm]
  | some kind =>
    rw [hdoc] at hkind
    obtain ⟨kind', hother, hsame⟩ := Option.map_eq_some_iff.mp hkind.symm
    rw [hother]
    cases kind <;> cases kind' <;> cases hsame <;> rfl

/-- Headings get the same identifiers under any rule. -/
theorem assignHeadings (h : doc.DifferInHtml other) (rule : HeadingRule) :
    assignHeadings rule doc = assignHeadings rule other := by
  have hpreorder : doc.preorder = other.preorder := h.subtree Document.rootId
  have hheading : Identifier.heading? doc = Identifier.heading? other := funext h.heading?
  have hown : ownId? doc = ownId? other := by
    funext id
    rw [ownId?, ownId?, hheading]
  have hvisit : rule.visit doc = rule.visit other := by
    funext pass id
    simp only [HeadingRule.visit_eq, HeadingRule.given?, HeadingRule.made?, hheading, hown,
      h.textContent]
  rw [Identifier.assignHeadings, Identifier.assignHeadings, writtenIds_eq, writtenIds_eq, hown,
    hvisit, hpreorder]

theorem isTopLevel (h : doc.DifferInHtml other) (id : Nat) :
    Topic.isTopLevel doc id = Topic.isTopLevel other id := by
  have hparent : (doc.node? id).bind Node.parent = (other.node? id).bind Node.parent :=
    h.parent? id
  rw [Topic.isTopLevel, Topic.isTopLevel, hparent]
  cases (other.node? id).bind Node.parent with
  | none => rfl
  | some p => exact congrArg (· == some NodeType.document) (h.type? p)

end Document.DifferInHtml

namespace Topic

/-- The options suppress raw HTML of every class. -/
structure SuppressesHtml (view : OptionView) : Prop where
  blocks : Key.suppressHtmlBlocks.resolve view = true
  commentBlocks : Key.suppressHtmlCommentBlocks.resolve view = true
  inline : Key.suppressInlineHtml.resolve view = true
  inlineComments : Key.suppressInlineHtmlComments.resolve view = true

namespace SuppressesHtml

variable {view : OptionView}

theorem blockTreatment (h : SuppressesHtml view) (html : String) :
    (Settings.ofView view).blockTreatment html = .dropped := by
  rw [Settings.blockTreatment]
  split
  · exact if_pos h.commentBlocks
  · exact if_pos h.blocks

theorem inlineTreatment (h : SuppressesHtml view) (html : String) :
    (Settings.ofView view).inlineTreatment html = .dropped := by
  rw [Settings.inlineTreatment]
  split
  · exact if_pos h.inlineComments
  · exact if_pos h.inline

end SuppressesHtml

/-- The strokes of a document node depend on the strokes of its children and on the number of the
title. -/
theorem documentStrokes_map_congr {α : Type} (r : Rules) {o : Opening α} {f g : α → Part}
    (hid : ∀ item, (f item).tree.id = (g item).tree.id)
    (h : ∀ item ∈ o.title.toList ++ (o.shortdesc.toList ++ o.body),
      (f item).inside = (g item).inside ∧ (f item).whole = (g item).whole) :
    documentStrokes r (o.map f) = documentStrokes r (o.map g) := by
  obtain ⟨title, shortdesc, body⟩ := o
  obtain ⟨htitle, hrest⟩ := List.forall_mem_append.mp h
  obtain ⟨hshortdesc, hbody⟩ := List.forall_mem_append.mp hrest
  have hwholes : wholes (body.map f) = wholes (body.map g) := by
    rw [wholes, wholes, List.flatMap_map, List.flatMap_map]
    exact List.flatMap_congr fun item hitem => (hbody item hitem).2
  have hinside {item : Option α} (hitem : ∀ x ∈ item.toList, (f x).inside = (g x).inside ∧
      (f x).whole = (g x).whole) (around : List Stroke → List Stroke) :
      (item.map f).elim [] (fun part => around part.inside) =
        (item.map g).elim [] (fun part => around part.inside) := by
    cases item with
    | none => rfl
    | some x => exact congrArg around (hitem x (List.mem_cons_self ..)).1
  have htopic : ((title.map f).bind fun part => r.idOf part.tree.id) =
      (title.map g).bind fun part => r.idOf part.tree.id := by
    cases title with
    | none => rfl
    | some x => exact congrArg r.idOf (hid x)
  rw [documentStrokes, documentStrokes]
  simp only [Opening.map, htopic, hwholes, hinside hshortdesc (around "shortdesc" .none)]
  rw [show (title.map f).elim [] Part.inside = (title.map g).elim [] Part.inside from
    hinside htitle id]

theorem rowStrokes_map_congr {α : Type} {items : List α} {f g : α → Part}
    (htype : ∀ item, (f item).type = (g item).type)
    (h : ∀ item ∈ items, (f item).whole = (g item).whole) (inBody : Bool) :
    rowStrokes inBody (items.map f) = rowStrokes inBody (items.map g) := by
  induction items generalizing inBody with
  | nil => rfl
  | cons item rest ih =>
    obtain ⟨hitem, hrest⟩ := List.forall_mem_cons.mp h
    rw [List.map_cons, List.map_cons, rowStrokes, rowStrokes]
    simp only [htype item, hitem, ih hrest]

/-- Where raw HTML is suppressed, a tree has the strokes of the tree without it. -/
theorem strokes_withoutHtml {r : Rules} {view : OptionView}
    (hr : r.settings = Settings.ofView view) (hsuppress : SuppressesHtml view) (t : Tree) :
    (∀ top k, strokes r top k t.withoutHtml = strokes r top k t) ∧
      ∀ k, insideStrokes r k t.withoutHtml = insideStrokes r k t := by
  induction t with
  | node id kind children ih =>
    rw [Tree.withoutHtml_node]
    have hparts (top : Bool) (k : Nat) : parts r top k (children.map Tree.withoutHtml) =
        children.map (part r top k ∘ Tree.withoutHtml) := by
      rw [parts_eq, List.map_map]
    have htypes (top : Bool) (k : Nat) : Part.type ∘ (part r top k ∘ Tree.withoutHtml) =
        Part.type ∘ part r top k := funext Tree.type_withoutHtml
    have hwholes (top : Bool) (k : Nat) : wholes (parts r top k (children.map Tree.withoutHtml)) =
        wholes (parts r top k children) := by
      rw [wholes_parts, wholes_parts, List.flatMap_map]
      exact List.flatMap_congr fun t ht => (ih t ht).1 top k
    refine ⟨fun top k => ?_, fun k => ?_⟩
    · cases kind with
      | document =>
        simp only [NodeKind.withoutHtml, strokes, hparts, parts_eq r true _ children,
          Opening.ofList_map, htypes]
        refine documentStrokes_map_congr r Tree.id_withoutHtml fun t ht => ?_
        rw [Opening.items_eq] at ht
        exact ⟨(ih t ht).2 _, (ih t ht).1 true _⟩
      | table alignments =>
        have hrows : rowStrokes false (parts r false k (children.map Tree.withoutHtml)) =
            rowStrokes false (parts r false k children) := by
          rw [hparts, parts_eq]
          exact rowStrokes_map_congr Tree.type_withoutHtml (fun t ht => (ih t ht).1 false k) false
        simp only [NodeKind.withoutHtml, strokes, hrows]
      | htmlBlock literal =>
        simp only [NodeKind.withoutHtml, strokes, hr, hsuppress.blockTreatment, htmlStrokes]
      | inlineHtml html =>
        simp only [NodeKind.withoutHtml, strokes, hr, hsuppress.inlineTreatment, htmlStrokes]
      | _ => simp only [NodeKind.withoutHtml, strokes, hwholes]
    · rw [insideStrokes, insideStrokes, hwholes]

variable {view : OptionView}

theorem contribution_ne_html (h : SuppressesHtml view) (kind : NodeKind) (data : String) :
    .instruction "html" data ∉ contribution view kind := by
  cases kind with
  | htmlBlock literal =>
    simp only [contribution, rawHtml, h.blocks, h.commentBlocks, if_true, ite_self]
    exact List.not_mem_nil
  | inlineHtml html =>
    simp only [contribution, rawHtml, h.inline, h.inlineComments, if_true, ite_self]
    exact List.not_mem_nil
  | _ => simp [contribution]

theorem mem_found {event : MarkupEvent} {l : List Finding} (h : event ∈ found l) : .ok event ∈ l := by
  induction l with
  | nil => cases h
  | cons finding rest ih =>
    cases finding with
    | error type => cases h
    | ok first =>
      rcases List.mem_cons.mp h with rfl | h
      · exact List.mem_cons_self ..
      · exact List.mem_cons_of_mem _ (ih h)

/-- Suppressed raw HTML is not written, whatever node a session starts from. -/
theorem html_not_mem_closed {renderer : Renderer} {doc : Document} {node : Nat}
    (h : SuppressesHtml (renderer.view doc)) (data : String) :
    .instruction "html" data ∉ (scoreOf renderer doc node).closed := by
  intro hmem
  have hsettings : (rulesOf renderer doc).settings = Settings.ofView (renderer.view doc) := rfl
  have hleaf : .instruction "html" data ∈
      (scoreOf renderer doc node).closed.filter MarkupEvent.isLeaf :=
    List.mem_filter.mpr ⟨hmem, rfl⟩
  rw [scoreOf, leaves_closed, (leaves_score _ _ _).1, ← found_reach, strokesOf,
    reach_strokes hsettings, found_reach] at hleaf
  obtain ⟨kind, -, hkind⟩ := List.mem_flatMap.mp (mem_found hleaf)
  cases kind with
  | custom name literal => cases List.mem_singleton.mp hkind
  | _ =>
    obtain ⟨event, hevent, heq⟩ := List.mem_map.mp hkind
    obtain rfl := Except.ok.inj heq
    exact contribution_ne_html h _ data hevent

end Topic

namespace Renderer

open DitaTopic.Topic

/-- What the renderer was given to make identifiers with, if anything, takes no notice of raw HTML. -/
def IgnoresHtml (renderer : Renderer) : Prop :=
  ∀ make, renderer.assigner = some make → ∀ (view : OptionView) (doc other : Document),
    doc.DifferInHtml other → (make view).assign doc = (make view).assign other

theorem ignoresHtml_of_none {renderer : Renderer} (h : renderer.assigner = none) :
    renderer.IgnoresHtml := by
  intro make hmake
  rw [h] at hmake
  cases hmake

theorem ignoresHtml_of_headings {renderer : Renderer}
    (h : renderer.assigner = some Assigner.headings) : renderer.IgnoresHtml := by
  intro make hmake view doc other hsame
  rw [h] at hmake
  cases hmake
  exact hsame.assignHeadings _

variable {renderer : Renderer} {doc other : Document}

theorem assign_html (h : renderer.IgnoresHtml) (hsame : doc.DifferInHtml other)
    (view : OptionView) :
    (renderer.assignerFor view).assign doc = (renderer.assignerFor view).assign other := by
  rw [assignerFor]
  cases hmake : renderer.assigner with
  | some make => exact h make hmake view doc other hsame
  | none =>
    simp only
    split
    · exact hsame.assignHeadings _
    · rfl

theorem view_html (renderer : Renderer) (hsame : doc.DifferInHtml other) :
    renderer.view doc = renderer.view other := by
  rw [view, view, hsame.options]

theorem rulesOf_html (h : renderer.IgnoresHtml) (hsame : doc.DifferInHtml other) :
    rulesOf renderer doc = rulesOf renderer other := by
  rw [rulesOf, rulesOf, Rules.ofScene, Rules.ofScene, scene, scene]
  simp only [renderer.view_html hsame, Rules.mk.injEq, true_and]
  exact congrArg KeyedList.find? (assign_html h hsame _)

/-- Documents that differ in raw HTML are written with the same strokes where it is suppressed. -/
theorem strokesOf_html (h : renderer.IgnoresHtml) (hsame : doc.DifferInHtml other)
    (hsuppress : SuppressesHtml (renderer.view doc)) (node : Nat) :
    strokesOf renderer doc node = strokesOf renderer other node := by
  have hsettings : (rulesOf renderer doc).settings = Topic.Settings.ofView (renderer.view doc) := rfl
  have hstrokes (t : Tree) := (strokes_withoutHtml hsettings hsuppress t).1
  rw [strokesOf, strokesOf, ← rulesOf_html h hsame, ← hsame.isTopLevel node, ← hstrokes,
    hsame.tree, hstrokes]

/-- Where the options suppress raw HTML of every class, documents that differ in raw HTML alone have
the same results, and nothing with raw HTML is written as an instruction. -/
theorem suppressed_html_hidden (renderer : Renderer) (hids : renderer.IgnoresHtml)
    (doc other : Document) (hsame : doc.DifferInHtml other)
    (hsuppress : SuppressesHtml (renderer.view doc)) :
    SameResults renderer renderer doc other ∧
      ∀ node < doc.size, ∃ t,
        renderer.topicOnly.renderNode Sink.recorder doc node #[] = .ok t ∧
        renderer.topicOnly.renderNode Sink.recorder other node #[] = .ok t ∧
        ∀ data, .instruction "html" data ∉ t.sink.toList := by
  have hresults {σ : Type} (sink : Sink σ) (node : Nat) (start : σ) :
      renderer.topicOnly.renderNode sink doc node start =
        renderer.topicOnly.renderNode sink other node start := by
    by_cases inside : node < doc.size
    · have insideOther : node < other.size := hsame.size ▸ inside
      rw [renderNode_eq renderer sink inside, renderNode_eq renderer sink insideOther,
        strokesOf_html hids hsame hsuppress]
    · have outsideOther : ¬ node < other.size := hsame.size ▸ inside
      rw [renderNode, renderNode, if_neg inside, if_neg outsideOther]
  refine ⟨⟨hresults, ?_⟩, fun node inside => ?_⟩
  · have hview : renderer.topicOnly.view doc = renderer.topicOnly.view other :=
      renderer.view_html hsame
    rw [renderToString, renderToString, hview]
    simp only [render, hresults]
  · have hrender := renderNode_recorder renderer inside
    exact ⟨_, hrender, (hresults ..).symm.trans hrender, html_not_mem_closed hsuppress⟩

theorem options_attach (doc : Document) (parent : Nat) (kind : NodeKind) :
    (doc.attach parent kind).options = doc.options := by
  rw [Document.attach]
  split <;> rfl

/-- A comment instead of a tag in a heading, and another block behind it. -/
theorem suppressed_html_hidden_heading :
    let renderer : Renderer := { options := OptionSet.set KeyedList.empty Key.suppressHtml true }
    let nodesWith (inline block : String) : Document :=
      (((Document.empty.attach 0 (.heading 1 none)).attach 1 (.text "First")).attach 1
        (.inlineHtml inline)).attach 0 (.htmlBlock block)
    let doc := nodesWith "<b>" "<hr>"
    let other := nodesWith "<!-- no -->" "plain"
    renderer.IgnoresHtml ∧ doc.DifferInHtml other ∧ SuppressesHtml (renderer.view doc) ∧
      doc.kind? 3 ≠ other.kind? 3 ∧ SameResults renderer renderer doc other := by
  intro renderer nodesWith doc other
  have hids : renderer.IgnoresHtml := ignoresHtml_of_none rfl
  have hsame : doc.DifferInHtml other :=
    ⟨by simp only [doc, other, nodesWith, options_attach], by decide +kernel⟩
  have hsuppress : SuppressesHtml (renderer.view doc) := by
    constructor <;> decide +kernel
  have hne : doc.kind? 3 ≠ other.kind? 3 := by decide +kernel
  exact ⟨hids, hsame, hsuppress, hne,
    (suppressed_html_hidden renderer hids doc other hsame hsuppress).1⟩

end Renderer

end DitaTopic
