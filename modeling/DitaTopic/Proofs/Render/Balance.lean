import DitaTopic.Proofs.Markup.Delivery
import DitaTopic.Proofs.Render.Discipline
import DitaTopic.Render.Renderer

/-!
# Balance

Whatever its handlers do, short of ending elements by name, a session writes balanced markup:
every element that is started is ended, in the right order, also where handlers end too many
elements, leave some open or fail. Nothing is said here of a sink that rejects events.
-/

namespace DitaTopic.Render

open DitaTopic.Markup
open DitaTopic.Options (OptionView)

/-- Requests other than those that end an element by name. -/
def Request.KeepsNesting : Request → Prop
  | .write command => command.keepsNesting = true
  | _ => True

theorem filter_eventsOf_command (openElements : List String) (command : Command) :
    (command.events openElements).filter MarkupEvent.isContent = command.events openElements := by
  apply List.filter_eq_self.mpr
  intro event hevent
  cases command with
  | finish =>
    obtain ⟨name, -, rfl⟩ := List.mem_map.mp hevent
    rfl
  | close =>
    obtain ⟨name, -, rfl⟩ := List.mem_map.mp hevent
    rfl
  | _ =>
    rw [List.mem_singleton.mp hevent]
    rfl

/-- From the one state to the other a recorder has recorded content that leads from the elements
open before to those open after it. -/
structure Grows (s t : State (Array MarkupEvent)) : Prop where
  frame : t.frame = s.frame
  grown : ∃ events : List MarkupEvent,
    t.writer.sink.toList = s.writer.sink.toList ++ events ∧
    events.filter MarkupEvent.isContent = events ∧
    openAfter s.writer.openElements events = some t.writer.openElements

theorem Grows.of_writer {s t : State (Array MarkupEvent)} (hframe : t.frame = s.frame)
    (hwriter : t.writer = s.writer) : Grows s t :=
  ⟨hframe, [], by rw [hwriter, List.append_nil], rfl, by rw [hwriter]; rfl⟩

variable {session : Session (Array MarkupEvent)}

/-- Growing is what all handlers keep to that end no element by name. -/
theorem discipline_grows (hsink : session.sink = Sink.recorder) :
    Discipline session Request.KeepsNesting Grows where
  refl s := .of_writer rfl rfl
  trans := by
    intro s t u hst htu
    obtain ⟨hframe, first, hlog, hcontent, hopen⟩ := hst
    obtain ⟨hframe', second, hlog', hcontent', hopen'⟩ := htu
    refine ⟨hframe'.trans hframe, first ++ second, ?_, ?_, ?_⟩
    · rw [hlog', hlog, List.append_assoc]
    · rw [List.filter_append, hcontent, hcontent']
    · rw [openAfter_append, hopen]
      exact hopen'
  frame h := h.frame
  write := by
    intro command hallowed s
    have hdelivers := Writer.delivers_perform session.sink s.writer hallowed
    rw [hsink] at hdelivers ⊢
    have hperform := hdelivers.accepted (Sink.recorder_accepts _ _)
    refine ⟨rfl, command.events s.writer.openElements, ?_, filter_eventsOf_command _ _, ?_⟩
    · rw [hperform]
      exact Sink.toList_after_recorder _ _
    · rw [hperform]
      exact hdelivers.nests
  suppress n s := .of_writer rfl rfl
  note notes s := .of_writer rfl rfl
  call h := ⟨rfl, h.grown⟩

/-- What a recorder has recorded when the node of a session is rendered. -/
def opening : List MarkupEvent :=
  [.startDocument, .bindNamespace archPrefixName archNamespace]

/-- What a session records after the content: nothing if it fails. -/
def ending : Outcome → List MarkupEvent
  | .ok _ => [.unbindNamespace archPrefixName, .endDocument]
  | .error _ => []

/-- The state of a session on a recorder when its node is rendered. -/
def openingState (session : Session (Array MarkupEvent)) : State (Array MarkupEvent) :=
  { writer := ⟨opening.toArray, []⟩, suppression := session.scene.settings.documentSuppression }

theorem close_recorder (w : Writer (Array MarkupEvent)) :
    w.close Sink.recorder =
      (.ok (), ⟨Sink.recorder.after (w.openElements.map .endElement) w.sink, []⟩) :=
  (Writer.delivers_close Sink.recorder w).accepted (Sink.recorder_accepts _ _)

/-- A session on a recorder, seen from what it records around the node that it renders. -/
theorem run_recorder (hsink : session.sink = Sink.recorder) {depth node : Nat}
    {t : Transcript (Array MarkupEvent)} (h : session.run depth node #[] = .ok t) :
    ∃ s, session.render depth node (openingState session) = .ok (t.outcome, s) ∧
      t.sink.toList = s.writer.sink.toList ++ (s.writer.openElements.map .endElement ++
        ending t.outcome) := by
  obtain ⟨scene, registry, sink⟩ := session
  obtain rfl : sink = Sink.recorder := hsink
  let session : Session (Array MarkupEvent) := ⟨scene, registry, Sink.recorder⟩
  change (((ExceptT.mk (session.render depth node) >>= fun _ => session.close >>= fun _ =>
    session.emit (.unbindNamespace archPrefixName) >>= fun _ => session.emit .endDocument).run
      (openingState session)).bind _) = _ at h
  rw [Session.step_bind] at h
  cases hrender : (ExceptT.mk (session.render depth node)).run (openingState session) with
  | error i =>
    rw [hrender] at h
    cases h
  | ok q =>
    obtain ⟨outcome, s⟩ := q
    rw [hrender] at h
    cases outcome with
    | error e =>
      cases h
      refine ⟨s, hrender, ?_⟩
      rw [close_recorder, ending, List.append_nil]
      exact Sink.toList_after_recorder _ _
    | ok _ =>
      have hclose : session.close.run s = .ok (.ok (), { s with
          writer := ⟨Sink.recorder.after (s.writer.openElements.map .endElement) s.writer.sink,
            []⟩ }) := by
        show Except.ok ((s.writer.close Sink.recorder).1.mapError RenderError.writeFailure,
          { s with writer := (s.writer.close Sink.recorder).2 }) = _
        rw [close_recorder]
        rfl
      simp only [Session.step_bind, hclose] at h
      cases h
      refine ⟨s, hrender, ?_⟩
      show (((Sink.recorder.after (s.writer.openElements.map .endElement) s.writer.sink).push
        _).push _).toList = _
      rw [Array.toList_push, Array.toList_push, Sink.toList_after_recorder, ending,
        List.append_assoc, List.append_assoc]
      rfl

/-- A session whose handlers end no element by name records balanced content between the events
that open and close a document; the closing ones are missing if it fails. -/
theorem balanced_of_run (hsink : session.sink = Sink.recorder)
    (hregistry : session.registry.Asks Request.KeepsNesting session.scene) {depth node : Nat}
    {t : Transcript (Array MarkupEvent)} (h : session.run depth node #[] = .ok t) :
    ∃ pieces, t.sink.toList = opening ++ (flatten pieces ++ ending t.outcome) := by
  obtain ⟨s, hrender, hlog⟩ := run_recorder hsink h
  have hsound : Sound session Request.KeepsNesting (openingState session) := nofun
  obtain ⟨-, events, hgrown, hcontent, hopen⟩ :=
    (discipline_grows hsink).keeps_render hregistry depth node hsound hrender
  have hclosed : openAfter [] (events ++ s.writer.openElements.map .endElement) = some [] := by
    have hopen' : openAfter [] events = some s.writer.openElements := hopen
    rw [openAfter_append, hopen']
    exact openAfter_ends s.writer.openElements
  obtain ⟨pieces, hpieces⟩ := exists_pieces hclosed
  have hends := filter_eventsOf_command s.writer.openElements .close
  rw [Command.events] at hends
  rw [List.filter_append, hcontent, hends] at hpieces
  refine ⟨pieces, ?_⟩
  rw [hlog, hgrown, ← hpieces, List.append_assoc, List.append_assoc, openingState]

/-- Whatever handlers do that end no element by name, a session writes balanced markup. -/
theorem session_balanced (renderer : Renderer) (doc : Document) (node : Nat)
    {inOrder : List Provider} (hordered : Registry.ordered renderer.providers = .ok inOrder)
    (hnesting : ∀ p ∈ renderer.providers, ∀ handler ∈ p.create (renderer.view doc), ∀ id,
      (handler.render (renderer.scene doc) id).run.Asks Request.KeepsNesting)
    {t : Transcript (Array MarkupEvent)}
    (hrun : renderer.renderNode Sink.recorder doc node #[] = .ok t) :
    ∃ pieces : List Piece, t.sink.toList =
      [.startDocument, .bindNamespace archPrefixName archNamespace] ++ (flatten pieces ++
        match t.outcome with
        | .ok _ => [.unbindNamespace archPrefixName, .endDocument]
        | .error _ => []) := by
  obtain ⟨registry, hbuild⟩ : ∃ registry,
      Registry.build renderer.providers (renderer.view doc) = .ok registry := by
    rw [Registry.build, hordered]
    exact ⟨_, rfl⟩
  have hasks : registry.Asks Request.KeepsNesting (renderer.scene doc) := by
    intro type chain hchain link hlink id
    obtain ⟨p, hp, hhandler⟩ := Registry.mem_create hbuild hchain hlink
    exact hnesting p hp link.handler hhandler id
  rw [Renderer.renderNode, hbuild] at hrun
  split at hrun
  · exact balanced_of_run rfl hasks hrun
  · cases hrun

/-- A provider that ends elements that nobody started, leaves two open and fails. -/
def unruly : Provider where
  kind := ⟨"unruly"⟩
  delegates := none
  create _ := [⟨.document, fun _ _ => do
    Rendering.finish
    Rendering.start "a"
    Rendering.start "b"
    Rendering.fail (.noHandler .document)⟩]

def unrulyRenderer : Renderer := { providers := [unruly], extraDepth := 0 }

theorem unruly_asks (view : OptionView) (scene : Scene) (id : Nat) :
    ∀ handler ∈ unruly.create view,
      (handler.render scene id).run.Asks Request.KeepsNesting := by
  intro handler hhandler
  rw [List.mem_singleton.mp hhandler]
  refine ⟨rfl, fun answer => ?_⟩
  cases answer with
  | error e => trivial
  | ok _ =>
    refine ⟨rfl, fun answer => ?_⟩
    cases answer with
    | error e => trivial
    | ok _ =>
      refine ⟨rfl, fun answer => ?_⟩
      cases answer <;> trivial

theorem unruly_session :
    unrulyRenderer.renderNode Sink.recorder .empty 0 #[] = .ok
      ⟨.error (.noHandler .document),
        #[.startDocument, .bindNamespace archPrefixName archNamespace,
          .startElement "a" .none, .startElement "b" .none, .endElement "b", .endElement "a"],
        #[]⟩ := by
  have hbuild : Registry.build unrulyRenderer.providers (unrulyRenderer.view .empty) = .ok
      ((Registry.linksOf (unrulyRenderer.view .empty) [unruly]).foldl Registry.register
        Registry.empty) := by
    have hordered : Registry.ordered unrulyRenderer.providers = .ok [unruly] :=
      Registry.ordered_singleton unruly
    rw [Registry.build, hordered]
    rfl
  rw [Renderer.renderNode, hbuild]
  rfl

theorem session_balanced_unruly :
    Registry.ordered unrulyRenderer.providers = .ok [unruly] ∧
    (∀ p ∈ unrulyRenderer.providers, ∀ handler ∈ p.create (unrulyRenderer.view .empty), ∀ id,
      (handler.render (unrulyRenderer.scene .empty) id).run.Asks Request.KeepsNesting) ∧
    ∃ t, unrulyRenderer.renderNode Sink.recorder .empty 0 #[] = .ok t ∧
      ∃ pieces : List Piece, t.sink.toList =
        [.startDocument, .bindNamespace archPrefixName archNamespace] ++ (flatten pieces ++
          match t.outcome with
          | .ok _ => [.unbindNamespace archPrefixName, .endDocument]
          | .error _ => []) := by
  have hordered : Registry.ordered unrulyRenderer.providers = .ok [unruly] :=
    Registry.ordered_singleton unruly
  have hnesting : ∀ p ∈ unrulyRenderer.providers,
      ∀ handler ∈ p.create (unrulyRenderer.view .empty), ∀ id,
      (handler.render (unrulyRenderer.scene .empty) id).run.Asks Request.KeepsNesting := by
    intro p hp handler hhandler id
    rw [List.mem_singleton.mp hp] at hhandler
    exact unruly_asks _ _ id handler hhandler
  exact ⟨hordered, hnesting, _, unruly_session,
    session_balanced unrulyRenderer .empty 0 hordered hnesting unruly_session⟩

end DitaTopic.Render
