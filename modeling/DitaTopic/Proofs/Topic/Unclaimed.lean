import DitaTopic.Proofs.Document.Stream
import DitaTopic.Proofs.Topic.Content
import DitaTopic.Proofs.Topic.Truncation

/-!
# Unclaimed types

A session with the topic vocabulary alone ends at the first custom node that is rendered, and
only there. What it has written until then is what the nodes before that one give. Since no node
of a document read from events is out of reach, a construct that has no kind of its own makes the
session fail.
-/

namespace DitaTopic

open DitaTopic.Document (MarkdownEvent outsideMetadata plainBlocks ofEvents)
open DitaTopic.Markup
open DitaTopic.Options (OptionSet)
open DitaTopic.Render

/-- A node is of a type that is known by its name alone. -/
def Document.IsCustom (doc : Document) (id : Nat) : Prop :=
  ∃ name literal, doc.kind? id = some (.custom name literal)

/-- A sink that rejects nothing. -/
def Markup.Sink.NeverRejects {σ : Type} (sink : Sink σ) : Prop :=
  ∀ event s, (sink.offer event s).1 = .ok ()

namespace Topic

variable {σ : Type} {sink : Sink σ} {doc : Document}

theorem accepts_of_neverRejects (h : sink.NeverRejects) (events : List MarkupEvent) (s : σ) :
    sink.Accepts events s := by
  induction events generalizing s with
  | nil => exact Sink.accepts_nil sink s
  | cons event rest ih => exact Sink.accepts_cons.mpr ⟨h event s, ih _⟩

theorem renderNode_of_neverRejects (renderer : Renderer) (h : sink.NeverRejects) {node : Nat}
    (inside : node < doc.size) (start : σ) :
    renderer.topicOnly.renderNode sink doc node start =
      .ok ⟨(scoreOf renderer doc node).outcome,
        sink.after (scoreOf renderer doc node).closed start, #[]⟩ := by
  obtain ⟨result, offered, hrender, hfollows⟩ := session_follows renderer sink inside start
  obtain ⟨rfl, rfl⟩ := hfollows.accepted (accepts_of_neverRejects h _ start)
  exact hrender

theorem exists_first_custom {ids : List Nat} (h : ¬ ∀ id ∈ ids, ¬ doc.IsCustom id) :
    ∃ before id behind name literal, ids = before ++ id :: behind ∧
      (∀ n ∈ before, ¬ doc.IsCustom n) ∧ doc.kind? id = some (.custom name literal) := by
  induction ids with
  | nil => exact absurd nofun h
  | cons id rest ih =>
    by_cases hid : doc.IsCustom id
    · obtain ⟨name, literal, hkind⟩ := hid
      exact ⟨[], id, rest, name, literal, rfl, nofun, hkind⟩
    · have hrest : ¬ ∀ n ∈ rest, ¬ doc.IsCustom n :=
        fun hrest => h (List.forall_mem_cons.mpr ⟨hid, hrest⟩)
      obtain ⟨before, first, behind, name, literal, rfl, hbefore, hkind⟩ := ih hrest
      exact ⟨id :: before, first, behind, name, literal, rfl,
        List.forall_mem_cons.mpr ⟨hid, hbefore⟩, hkind⟩

theorem forall_kinds_iff {ids : List Nat} :
    (∀ kind ∈ ids.filterMap doc.kind?, ∀ name literal, kind ≠ .custom name literal) ↔
      ∀ id ∈ ids, ¬ doc.IsCustom id := by
  constructor
  · rintro h id hid ⟨name, literal, hkind⟩
    exact h _ (List.mem_filterMap.mpr ⟨id, hid, hkind⟩) name literal rfl
  · rintro h kind hmem name literal rfl
    obtain ⟨id, hid, hkind⟩ := List.mem_filterMap.mp hmem
    exact h id hid ⟨name, literal, hkind⟩

theorem outcome_scoreOf_eq_ok_iff (renderer : Renderer) (doc : Document) :
    (scoreOf renderer doc Document.rootId).outcome = .ok () ↔
      ∀ id ∈ doc.visited, ¬ doc.IsCustom id := by
  rw [(findings_scoreOf renderer doc).1, outcomeOf_eq_ok_iff]
  exact forall_kinds_iff

/-- A session that meets a custom node fails with the type of the first one, and leaves what the
nodes before it give. -/
theorem scoreOf_first_custom (renderer : Renderer)
    (h : (scoreOf renderer doc Document.rootId).outcome ≠ .ok ()) :
    ∃ before id behind name literal, doc.visited = before ++ id :: behind ∧
      (∀ n ∈ before, ¬ doc.IsCustom n) ∧ doc.kind? id = some (.custom name literal) ∧
      (scoreOf renderer doc Document.rootId).outcome = .error (.noHandler (.custom name)) ∧
      (scoreOf renderer doc Document.rootId).closed.filter MarkupEvent.isLeaf =
        (before.filterMap doc.kind?).flatMap (contribution (renderer.view doc)) := by
  rw [Ne, outcome_scoreOf_eq_ok_iff] at h
  obtain ⟨before, id, behind, name, literal, hvisited, hbefore, hkind⟩ := exists_first_custom h
  refine ⟨before, id, behind, name, literal, hvisited, hbefore, hkind, ?_⟩
  have hkinds : renderedKinds doc =
      before.filterMap doc.kind? ++ .custom name literal :: behind.filterMap doc.kind? := by
    show doc.visited.filterMap doc.kind? = _
    rw [hvisited, List.filterMap_append, List.filterMap_cons_some hkind]
  obtain ⟨houtcome, hleaves⟩ := findings_scoreOf renderer doc
  rw [houtcome, hleaves, hkinds]
  exact findings_first_custom (forall_kinds_iff.mpr hbefore) name literal _

theorem forall_visited_ofEvents {events : List MarkdownEvent}
    (h : plainBlocks [] (outsideMetadata false events) = true) :
    ∀ id < (ofEvents events).size, id ∈ (ofEvents events).visited :=
  fun id inside => Document.mem_visited.mpr ⟨inside, (Document.childless_ofEvents h).underLeaf id⟩

/-- A session with the topic vocabulary alone into a sink that rejects nothing succeeds exactly if
no node that it visits is custom. Else it fails with the type of the first one, after the
contributions of the nodes before that. Every node of a document read from events is visited, if
code and HTML blocks hold nothing but text. -/
theorem custom_nodes_refused (renderer : Renderer) (sink : Sink σ) (hsink : sink.NeverRejects)
    (start : σ) :
    (∀ doc : Document, ∃ outcome offered,
      renderer.topicOnly.render sink doc start =
        .ok ⟨outcome, sink.after offered start, #[]⟩ ∧
      renderer.topicOnly.render sink.logged doc (start, []) =
        .ok ⟨outcome, (sink.after offered start, offered), #[]⟩ ∧
      (outcome = .ok () ↔ ∀ id ∈ doc.visited, ¬ doc.IsCustom id) ∧
      (outcome ≠ .ok () → ∃ before id behind name literal,
        doc.visited = before ++ id :: behind ∧ (∀ n ∈ before, ¬ doc.IsCustom n) ∧
        doc.kind? id = some (.custom name literal) ∧
        outcome = .error (.noHandler (.custom name)) ∧
        offered.filter MarkupEvent.isLeaf =
          (before.filterMap doc.kind?).flatMap (contribution (renderer.view doc)))) ∧
    ∀ events, plainBlocks [] (outsideMetadata false events) = true →
      (∀ id < (ofEvents events).size, id ∈ (ofEvents events).visited) ∧
      ∀ options : OptionSet, ∃ t,
        renderer.topicOnly.render sink ((ofEvents events).withOptions options) start = .ok t ∧
        (t.outcome = .ok () ↔ ∀ event ∈ outsideMetadata false events, ∀ name literal,
          event.kind? ≠ some (.custom name literal)) := by
  have hrender := fun doc : Document =>
    renderNode_of_neverRejects renderer hsink doc.built.size_pos start
  constructor
  · intro doc
    have hlogs : sink.logged.NeverRejects := fun event s => hsink event s.1
    have hlogged := renderNode_of_neverRejects renderer hlogs doc.built.size_pos (start, [])
    rw [Sink.after_logged, List.nil_append] at hlogged
    exact ⟨_, _, hrender doc, hlogged, outcome_scoreOf_eq_ok_iff renderer doc,
      scoreOf_first_custom renderer⟩
  · intro events hplain
    have hvisited := forall_visited_ofEvents hplain
    refine ⟨hvisited, fun options => ⟨_, hrender _, ?_⟩⟩
    refine (outcome_scoreOf_eq_ok_iff renderer _).trans ?_
    show (∀ id ∈ (ofEvents events).visited, ¬ (ofEvents events).IsCustom id) ↔ _
    constructor
    · intro h event hevent name literal hkind
      obtain ⟨id, hid⟩ := Document.hasCustom_ofEvents.mpr ⟨event, hevent, hkind⟩
      exact h id (hvisited id (Document.lt_size_of_kind? hid)) ⟨name, literal, hid⟩
    · rintro h id - ⟨name, literal, hkind⟩
      obtain ⟨event, hevent, hadded⟩ := Document.hasCustom_ofEvents.mp ⟨id, hkind⟩
      exact h event hevent name literal hadded

/-- A paragraph with a footnote reference between two texts. -/
def footnoteEvents : List MarkdownEvent :=
  [.start .paragraph, .text "before", .footnoteReference "1", .text "behind", .close false]

theorem custom_nodes_refused_footnote :
    Sink.recorder.NeverRejects ∧ plainBlocks [] (outsideMetadata false footnoteEvents) = true ∧
      ∃ t, ({} : Renderer).topicOnly.render Sink.recorder (ofEvents footnoteEvents) #[] = .ok t ∧
        t.outcome = .error (.noHandler (.custom "footnote-reference")) := by
  have hsink : Sink.recorder.NeverRejects := fun _ _ => rfl
  have hplain : plainBlocks [] (outsideMetadata false footnoteEvents) = true := by decide
  obtain ⟨hsession, hstream⟩ := custom_nodes_refused {} Sink.recorder hsink #[]
  obtain ⟨outcome, offered, hrender, -, hok, hfirst⟩ := hsession (ofEvents footnoteEvents)
  have hkind : (ofEvents footnoteEvents).kind? 3 = some (.custom "footnote-reference" "1") := by
    decide
  have hfailed : outcome ≠ .ok () := by
    intro houtcome
    have hvisited := (hstream footnoteEvents hplain).1 3 (by decide)
    exact hok.mp houtcome 3 hvisited ⟨_, _, hkind⟩
  obtain ⟨before, id, behind, name, literal, -, -, hid, houtcome, -⟩ := hfirst hfailed
  obtain ⟨event, hevent, hadded⟩ := Document.hasCustom_ofEvents.mp ⟨id, hid⟩
  have hevents : outsideMetadata false footnoteEvents = footnoteEvents := rfl
  rw [hevents, footnoteEvents] at hevent
  have hname : name = "footnote-reference" := by
    simp only [List.mem_cons, List.not_mem_nil, or_false] at hevent
    rcases hevent with rfl | rfl | rfl | rfl | rfl <;> cases hadded
    rfl
  rw [hname] at houtcome
  exact ⟨hsink, hplain, _, hrender, houtcome⟩

end Topic

end DitaTopic
