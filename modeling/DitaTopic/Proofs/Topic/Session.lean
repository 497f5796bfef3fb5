import DitaTopic.Proofs.Topic.Refinement
import DitaTopic.Proofs.Topic.Score

/-!
# Whole sessions

A session with the topic vocabulary alone, from its first event to its last. It never gets
interrupted: whatever the sink does, it comes to an end with a transcript. The transcript is found
by playing the strokes of the rendered node between the events that open and close a document, and
that follows a score which does not depend on the sink.
-/

namespace DitaTopic

/-- A renderer with the topic vocabulary as its only provider. -/
def Renderer.topicOnly (renderer : Renderer) : Renderer :=
  { renderer with providers := [Topic.provider] }

namespace Topic

open DitaTopic.Markup
open DitaTopic.Render

/-- The rules under which a renderer with the topic vocabulary writes a document. -/
def rulesOf (renderer : Renderer) (doc : Document) : Rules :=
  .ofScene (Settings.ofView (renderer.view doc)) (renderer.scene doc)

/-- The session in which such a renderer writes a document. -/
def sessionOf {σ : Type} (renderer : Renderer) (doc : Document) (sink : Sink σ) : Session σ :=
  { scene := renderer.scene doc, registry := registry (renderer.view doc), sink }

/-- The strokes of a node that is rendered as a whole document. -/
def strokesOf (renderer : Renderer) (doc : Document) (node : Nat) : List Stroke :=
  strokes (rulesOf renderer doc) (isTopLevel doc node) (rulesOf renderer doc).documentSuppression
    (doc.arena.tree node)

variable {σ : Type}

def passOn (sink : Sink σ) (event : MarkupEvent) (w : Writer σ) : Outcome × Writer σ :=
  ((w.emit sink event).1.mapError .writeFailure, (w.emit sink event).2)

def endAll (sink : Sink σ) (w : Writer σ) : Outcome × Writer σ :=
  ((w.close sink).1.mapError .writeFailure, (w.close sink).2)

/-- Plays strokes inside the events that open and close a document. -/
def playWhole (sink : Sink σ) (ss : List Stroke) (w : Writer σ) : Outcome × Writer σ :=
  andThen (passOn sink .startDocument w) fun w =>
    andThen (passOn sink (.bindNamespace archPrefixName archNamespace) w) fun w =>
      andThen ((play sink ss ⟨w, []⟩).1, (play sink ss ⟨w, []⟩).2.writer) fun w =>
        andThen (endAll sink w) fun w =>
          andThen (passOn sink (.unbindNamespace archPrefixName) w) fun w =>
            passOn sink .endDocument w

/-- The transcript of a session that ends like this: after an error the open elements are ended. -/
def conclude (sink : Sink σ) (result : Outcome × Writer σ) : Transcript σ :=
  match result.1 with
  | .ok _ => ⟨.ok (), result.2.sink, #[]⟩
  | .error e => ⟨.error e, (result.2.close sink).2.sink, #[]⟩

/-- A step of a session has a certain result at the writer and changes nothing else, but that it may
leave another suppression when it fails. -/
def ActsAt (s : State σ) (step : ExceptT RenderError (Run σ) Unit)
    (result : Outcome × Writer σ) : Prop :=
  ∃ k, step.run s = .ok (result.1, { s with writer := result.2, suppression := k }) ∧
    (result.1 = .ok () → k = s.suppression)

theorem ActsAt.seq {s : State σ} {first second : ExceptT RenderError (Run σ) Unit}
    {result : Outcome × Writer σ} {next : Writer σ → Outcome × Writer σ}
    (hfirst : ActsAt s first result)
    (hnext : ∀ w, ActsAt { s with writer := w } second (next w)) :
    ActsAt s (first >>= fun _ => second) (andThen result next) := by
  obtain ⟨outcome, w⟩ := result
  obtain ⟨k, hrun, hk⟩ := hfirst
  rw [ActsAt, Session.step_bind, hrun]
  cases outcome with
  | error e => exact ⟨k, rfl, nofun⟩
  | ok _ =>
    obtain rfl := hk rfl
    exact hnext w

theorem actsAt_emit (session : Session σ) (event : MarkupEvent) (s : State σ) :
    ActsAt s (session.emit event) (passOn session.sink event s.writer) :=
  ⟨s.suppression, rfl, fun _ => rfl⟩

theorem actsAt_close (session : Session σ) (s : State σ) :
    ActsAt s session.close (endAll session.sink s.writer) :=
  ⟨s.suppression, rfl, fun _ => rfl⟩

theorem actsAt_render (renderer : Renderer) {doc : Document} {node depth : Nat} (sink : Sink σ)
    (inside : node < doc.size) (hdepth : doc.size ≤ depth + node) {s : State σ}
    (hs : s.suppression = (rulesOf renderer doc).documentSuppression) :
    ActsAt s (ExceptT.mk ((sessionOf renderer doc sink).render depth node))
      ((play sink (strokesOf renderer doc node) ⟨s.writer, []⟩).1,
        (play sink (strokesOf renderer doc node) ⟨s.writer, []⟩).2.writer) := by
  obtain ⟨k, hperform, hok⟩ := carries_node (sessionOf renderer doc sink) rfl inside hdepth
    (rulesOf renderer doc).documentSuppression s [] hs
  rw [Session.perform_node] at hperform
  exact ⟨k, hperform, fun hplay => (hok hplay).1⟩

theorem actsAt_wrapped (renderer : Renderer) {doc : Document} {node depth : Nat} (sink : Sink σ)
    (inside : node < doc.size) (hdepth : doc.size ≤ depth + node) {s : State σ}
    (hs : s.suppression = (rulesOf renderer doc).documentSuppression) :
    ActsAt s ((sessionOf renderer doc sink).wrapped depth node)
      (playWhole sink (strokesOf renderer doc node) s.writer) := by
  have hemit := actsAt_emit (sessionOf renderer doc sink)
  refine (hemit .startDocument s).seq fun w => (hemit _ _).seq fun w => ?_
  refine (actsAt_render renderer sink inside hdepth (s := { s with writer := w }) hs).seq fun w => ?_
  exact (actsAt_close _ _).seq fun w => (hemit _ _).seq fun w => hemit _ _

theorem size_le_depth (renderer : Renderer) (doc : Document) :
    doc.size ≤ renderer.depth doc (registry (renderer.view doc)) := by
  have hmul := Nat.mul_le_mul_left doc.size (one_le_longestChain (renderer.view doc))
  rw [Renderer.depth]
  omega

def startState (renderer : Renderer) (doc : Document) (start : σ) : State σ :=
  { writer := ⟨start, []⟩, suppression := (rulesOf renderer doc).documentSuppression }

/-- A session with the topic vocabulary alone always has a transcript. -/
theorem renderNode_eq (renderer : Renderer) (sink : Sink σ) {doc : Document} {node : Nat}
    (inside : node < doc.size) (start : σ) :
    renderer.topicOnly.renderNode sink doc node start =
      .ok (conclude sink (playWhole sink (strokesOf renderer doc node) ⟨start, []⟩)) := by
  have hbuild : Registry.build renderer.topicOnly.providers (renderer.topicOnly.view doc) =
      .ok (registry (renderer.view doc)) := build_provider _
  rw [Renderer.renderNode, if_pos inside, hbuild]
  obtain ⟨k, hwrapped, -⟩ := actsAt_wrapped renderer sink inside
    (Nat.le_add_right_of_le (size_le_depth renderer doc)) (s := startState renderer doc start) rfl
  show ((((sessionOf renderer doc sink).wrapped
    (renderer.depth doc (registry (renderer.view doc))) node).run
      (startState renderer doc start)).bind _) = _
  rw [hwrapped, startState]
  generalize playWhole sink (strokesOf renderer doc node) ⟨start, []⟩ = result
  obtain ⟨outcome, w⟩ := result
  cases outcome <;> rfl

/-- A score inside the events that open and close a document. After an error the latter are
missing. -/
def Score.inDocument (s : Score) : Score :=
  let opening := [.startDocument, .bindNamespace archPrefixName archNamespace]
  match s.outcome with
  | .ok _ =>
    { events := opening ++ (s.events ++ (s.openElements.map .endElement ++
        [.unbindNamespace archPrefixName, .endDocument]))
      outcome := .ok ()
      openElements := []
      marks := s.marks }
  | .error e => { s with events := opening ++ s.events, outcome := .error e }

/-- The events of a score with the ends of the elements that it leaves open. -/
def Score.closed (s : Score) : List MarkupEvent := s.events ++ s.openElements.map .endElement

theorem Score.outcome_inDocument (s : Score) : s.inDocument.outcome = s.outcome := by
  rw [inDocument]
  cases s.outcome <;> rfl

/-- What opens and closes a document is no content. -/
theorem Score.content_inDocument (s : Score) :
    contentOf s.inDocument.closed.toArray = s.closed.filter MarkupEvent.isContent := by
  obtain ⟨events, outcome, openElements, marks⟩ := s
  cases outcome <;> simp [contentOf, closed, inDocument, MarkupEvent.isContent]

theorem delivers_passOn (sink : Sink σ) {event : MarkupEvent} {openElements : List String}
    (hnest : event.nest openElements = some openElements)
    (hwithout : event.openWithout openElements = openElements) (s : σ) :
    Delivers .writeFailure sink ⟨s, openElements⟩ [event] (.ok ()) openElements
      (passOn sink event ⟨s, openElements⟩) :=
  (Writer.delivers_emit sink s hnest hwithout).mapError RenderError.writeFailure

/-- A whole session follows its score up to the first rejection. -/
theorem delivers_playWhole (sink : Sink σ) (ss : List Stroke) (s : σ) :
    Delivers .writeFailure sink ⟨s, []⟩ (score ss [] []).inDocument.events
      (score ss [] []).inDocument.outcome (score ss [] []).inDocument.openElements
      (playWhole sink ss ⟨s, []⟩) := by
  have hplay : ∀ s, Delivers .writeFailure sink ⟨s, []⟩ (score ss [] []).events
      (score ss [] []).outcome (score ss [] []).openElements
      ((play sink ss ⟨⟨s, []⟩, []⟩).1, (play sink ss ⟨⟨s, []⟩, []⟩).2.writer) :=
    fun s => delivers_play sink ss ⟨s, []⟩ []
  rw [Score.inDocument]
  cases houtcome : (score ss [] []).outcome with
  | error e =>
    rw [houtcome] at hplay
    exact (delivers_passOn sink rfl rfl s).seq fun s => (delivers_passOn sink rfl rfl s).seq fun s =>
      (hplay s).stop _
  | ok _ =>
    rw [houtcome] at hplay
    exact (delivers_passOn sink rfl rfl s).seq fun s => (delivers_passOn sink rfl rfl s).seq fun s =>
      (hplay s).seq fun s => ((Writer.delivers_close sink ⟨s, _⟩).mapError _).seq fun s =>
        (delivers_passOn sink rfl rfl s).seq fun s => delivers_passOn sink rfl rfl s

theorem Score.openElements_inDocument (s : Score) (h : s.inDocument.outcome = .ok ()) :
    s.inDocument.openElements = [] := by
  rw [Score.outcome_inDocument] at h
  rw [inDocument, h]

theorem conclude_of_accepts {sink : Sink σ} {start : σ} {s : Score} {result : Outcome × Writer σ}
    (h : Delivers .writeFailure sink ⟨start, []⟩ s.events s.outcome s.openElements result)
    (hok : s.outcome = .ok () → s.openElements = []) (haccepts : sink.Accepts s.events start) :
    conclude sink result = ⟨s.outcome, sink.after s.closed start, #[]⟩ := by
  rw [h.accepted haccepts, conclude, Score.closed, Sink.after_append]
  cases houtcome : s.outcome with
  | ok _ => rw [hok houtcome]; rfl
  | error e => simp only [Writer.close_sink]

/-- The score of a session with the topic vocabulary alone. -/
def scoreOf (renderer : Renderer) (doc : Document) (node : Nat) : Score :=
  (score (strokesOf renderer doc node) [] []).inDocument

/-- A recorder holds the events of the score, and the ends of what it leaves open. -/
theorem renderNode_recorder (renderer : Renderer) {doc : Document} {node : Nat}
    (inside : node < doc.size) :
    renderer.topicOnly.renderNode Sink.recorder doc node #[] =
      .ok ⟨(scoreOf renderer doc node).outcome, (scoreOf renderer doc node).closed.toArray, #[]⟩ := by
  have hconclude := conclude_of_accepts
    (delivers_playWhole Sink.recorder (strokesOf renderer doc node) #[])
    (Score.openElements_inDocument _) (Sink.recorder_accepts _ _)
  rw [renderNode_eq renderer Sink.recorder inside, hconclude, Sink.after_recorder, scoreOf]
  simp

end Topic

end DitaTopic
