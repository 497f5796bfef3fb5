import DitaTopic.Proofs.Options.Layering
import DitaTopic.Proofs.Topic.Session

/-!
# Options of the session and of the document

What a renderer with the topic vocabulary writes depends on the options of the session and of the
document only through the view that the two make. Where the views of two sessions agree, the rules
under which they write are the same, and from these follow the transcript for every sink and the
text. So it makes no difference which of the two options are set on.
-/

namespace DitaTopic

open DitaTopic.Identifier
open DitaTopic.Markup
open DitaTopic.Options
open DitaTopic.Render
open DitaTopic.Topic

namespace Renderer

/-- What the renderer was given to make identifiers with, if anything, looks at options only
through the view of the session. -/
def AssignsByView (renderer : Renderer) : Prop :=
  ∀ make, renderer.assigner = some make → ∀ v w : OptionView, v.Agrees w →
    ∀ (doc : Document) (options : OptionSet),
      (make v).assign (doc.withOptions options) = (make w).assign doc

theorem assignsByView_of_none {renderer : Renderer} (h : renderer.assigner = none) :
    renderer.AssignsByView := by
  intro make hmake
  rw [h] at hmake
  cases hmake

/-- The heading rule looks at a document's nodes only. -/
theorem assignHeadings_withOptions (rule : HeadingRule) (doc : Document) (options : OptionSet) :
    assignHeadings rule (doc.withOptions options) = assignHeadings rule doc := by
  have hkind : (doc.withOptions options).kind? = doc.kind? := rfl
  have htext : (doc.withOptions options).textContent = doc.textContent := rfl
  have hpreorder : (doc.withOptions options).preorder = doc.preorder := rfl
  have hvisit : rule.visit (doc.withOptions options) = rule.visit doc := by
    funext pass id
    rw [HeadingRule.visit, HeadingRule.visit, hkind, htext]
  rw [assignHeadings, assignHeadings, writtenIds, writtenIds, hvisit, hkind, hpreorder]

theorem assign_headings {v w : OptionView} (h : v.Agrees w) (doc : Document)
    (options : OptionSet) :
    (Assigner.headings v).assign (doc.withOptions options) = (Assigner.headings w).assign doc := by
  show assignHeadings (HeadingRule.ofView v) (doc.withOptions options) =
    assignHeadings (HeadingRule.ofView w) doc
  rw [HeadingRule.ofView_congr h, assignHeadings_withOptions]

theorem assignsByView_of_headings {renderer : Renderer}
    (h : renderer.assigner = some Assigner.headings) : renderer.AssignsByView := by
  intro make hmake v w hagrees doc options
  rw [h] at hmake
  cases hmake
  exact assign_headings hagrees doc options

variable {renderer other : Renderer} {doc : Document} {own otherOwn : OptionSet}

/-- Where the views of two sessions agree, both assign the same identifiers. -/
theorem assign_congr (h : renderer.AssignsByView) (hassigner : other.assigner = renderer.assigner)
    {v w : OptionView} (hagrees : v.Agrees w) :
    (renderer.assignerFor v).assign (doc.withOptions own) =
      (other.assignerFor w).assign (doc.withOptions otherOwn) := by
  rw [assignerFor, assignerFor, hassigner]
  cases hmake : renderer.assigner with
  | some make =>
    exact (h make hmake v w hagrees doc own).trans
      (h make hmake w w (fun _ => rfl) doc otherOwn).symm
  | none =>
    simp only [Render.Settings.ofView_congr hagrees]
    split
    · exact (assign_headings hagrees doc own).trans
        (assign_headings (fun _ => rfl) doc otherOwn).symm
    · rfl

variable {σ : Type}

theorem rulesOf_congr (h : renderer.AssignsByView) (hassigner : other.assigner = renderer.assigner)
    (hagrees : (renderer.view (doc.withOptions own)).Agrees
      (other.view (doc.withOptions otherOwn))) :
    rulesOf renderer (doc.withOptions own) = rulesOf other (doc.withOptions otherOwn) := by
  rw [rulesOf, rulesOf, Rules.ofScene, Rules.ofScene, scene, scene]
  simp only [Topic.Settings.ofView_congr hagrees, Render.Settings.ofView_congr hagrees,
    Rules.mk.injEq, true_and]
  exact congrArg KeyedList.find? (assign_congr h hassigner hagrees)

/-- Where the views of two sessions agree, nothing that a sink sees tells them apart. -/
theorem renderNode_congr (h : renderer.AssignsByView)
    (hassigner : other.assigner = renderer.assigner)
    (hagrees : (renderer.view (doc.withOptions own)).Agrees
      (other.view (doc.withOptions otherOwn))) (sink : Sink σ) (node : Nat) (start : σ) :
    renderer.topicOnly.renderNode sink (doc.withOptions own) node start =
      other.topicOnly.renderNode sink (doc.withOptions otherOwn) node start := by
  by_cases hinside : node < doc.size
  · have hstrokes : strokesOf renderer (doc.withOptions own) node =
        strokesOf other (doc.withOptions otherOwn) node := by
      rw [strokesOf, strokesOf, rulesOf_congr h hassigner hagrees]
      rfl
    have hown : node < (doc.withOptions own).size := hinside
    have hother : node < (doc.withOptions otherOwn).size := hinside
    rw [renderNode_eq renderer sink hown, renderNode_eq other sink hother, hstrokes]
  · rw [renderNode, renderNode]
    exact (if_neg hinside).trans (if_neg hinside).symm

theorem renderToString_congr (h : renderer.AssignsByView)
    (hassigner : other.assigner = renderer.assigner)
    (hagrees : (renderer.view (doc.withOptions own)).Agrees
      (other.view (doc.withOptions otherOwn))) :
    renderer.topicOnly.renderToString (doc.withOptions own) =
      other.topicOnly.renderToString (doc.withOptions otherOwn) := by
  have hsettings : Render.Settings.ofView (renderer.topicOnly.view (doc.withOptions own)) =
      Render.Settings.ofView (other.topicOnly.view (doc.withOptions otherOwn)) :=
    Render.Settings.ofView_congr hagrees
  rw [renderToString, renderToString, hsettings]
  simp only [render, renderNode_congr h hassigner hagrees]

/-- Two renderers with the topic vocabulary make the same of two documents: the same transcript in
every sink, whatever node they start from, and the same text. -/
structure SameResults (renderer other : Renderer) (doc otherDoc : Document) : Prop where
  transcript : ∀ {σ : Type} (sink : Sink σ) (node : Nat) (start : σ),
    renderer.topicOnly.renderNode sink doc node start =
      other.topicOnly.renderNode sink otherDoc node start
  text : renderer.topicOnly.renderToString doc = other.topicOnly.renderToString otherDoc

theorem sameResults_of_agrees (h : renderer.AssignsByView)
    (hassigner : other.assigner = renderer.assigner)
    (hagrees : (renderer.view (doc.withOptions own)).Agrees
      (other.view (doc.withOptions otherOwn))) :
    SameResults renderer other (doc.withOptions own) (doc.withOptions otherOwn) :=
  ⟨renderNode_congr h hassigner hagrees, renderToString_congr h hassigner hagrees⟩

/-- Options of the session with options of the document over them do what the merged options do as
options of the session alone and as options of the document alone. -/
theorem layered_eq_merged (renderer : Renderer) (h : renderer.AssignsByView)
    (broad narrow : OptionSet) (doc : Document) :
    SameResults { renderer with options := broad }
        { renderer with options := broad.extend narrow }
        (doc.withOptions narrow) (doc.withOptions KeyedList.empty) ∧
      SameResults { renderer with options := broad }
        { renderer with options := KeyedList.empty }
        (doc.withOptions narrow) (doc.withOptions (broad.extend narrow)) := by
  have hmerged := OptionView.agrees_layer broad narrow
  have hby : AssignsByView { renderer with options := broad } := h
  have hsession := hmerged.trans (OptionView.agrees_layer_empty (broad.extend narrow)).symm
  have hdocument := hmerged.trans (OptionView.agrees_empty_layer (broad.extend narrow)).symm
  exact ⟨sameResults_of_agrees hby rfl hsession, sameResults_of_agrees hby rfl hdocument⟩

/-- A paragraph with a link. -/
def linking : Document :=
  ((Document.empty.attach 0 .paragraph).attach 1 (.link "a.md" "")).attach 2 (.text "a")

def hidingLinks : OptionSet := .set KeyedList.empty Key.doNotRenderLinks true

/-- A value of another type than the option has. -/
def mistyped : OptionSet := KeyedList.empty.insert Key.doNotRenderLinks.name .null

/-- A value of another type in the document hides the one of the session in either form, so that the
link is written. Alone the session's option keeps the link out. -/
theorem layered_eq_merged_hidden :
    let session : Renderer := { options := hidingLinks }
    AssignsByView {} ∧
      SameResults session { options := hidingLinks.extend mistyped }
        (linking.withOptions mistyped) (linking.withOptions KeyedList.empty) ∧
      SameResults session { options := KeyedList.empty }
        (linking.withOptions mistyped) (linking.withOptions (hidingLinks.extend mistyped)) ∧
      (∃ t, session.topicOnly.render Sink.recorder (linking.withOptions mistyped) #[] = .ok t ∧
        t.outcome = .ok () ∧ .endElement "xref" ∈ contentOf t.sink) ∧
      ∃ t, session.topicOnly.render Sink.recorder (linking.withOptions KeyedList.empty) #[] = .ok t ∧
        t.outcome = .ok () ∧ .endElement "xref" ∉ contentOf t.sink := by
  intro session
  have hby : AssignsByView {} := assignsByView_of_none rfl
  obtain ⟨hsession, hdocument⟩ := layered_eq_merged {} hby hidingLinks mistyped linking
  have inside : ∀ options, Document.rootId < (linking.withOptions options).size :=
    fun _ => linking.built.size_pos
  have hmerged := renderNode_recorder { options := hidingLinks.extend mistyped }
    (inside KeyedList.empty)
  refine ⟨hby, hsession, hdocument,
    ⟨_, (hsession.transcript Sink.recorder Document.rootId #[]).trans hmerged, ?_, ?_⟩,
    ⟨_, renderNode_recorder session (inside KeyedList.empty), ?_, ?_⟩⟩
  · decide +kernel
  · decide +kernel
  · decide +kernel
  · decide +kernel

end Renderer

end DitaTopic
