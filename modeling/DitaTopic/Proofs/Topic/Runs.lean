import DitaTopic.Proofs.Render.Balance
import DitaTopic.Proofs.Topic.Links
import DitaTopic.Proofs.Topic.Session

/-!
# Handlers in a whole run

What holds of every handler that runs in a successful session of the topic vocabulary alone: the
events between its start and its end are those of its node's strokes, scored from where the handler
starts. The session of a renderer is such a run on a registry that holds the vocabulary alone.
-/

namespace DitaTopic

open DitaTopic.Document (NodeKind NodeType)
open DitaTopic.Markup
open DitaTopic.Options
open DitaTopic.Render

namespace Topic

variable {session : Session (Array MarkupEvent)} {events : List MarkupEvent}
  {start : Start (Array MarkupEvent)} {view : OptionView}

/-- The score of a handler's node from where the handler starts. -/
def scoreAt (session : Session (Array MarkupEvent)) (settings : Settings)
    (start : Start (Array MarkupEvent)) : Score :=
  score (strokesAt session settings start.before.suppression start.frame.node)
    start.before.writer.openElements []

/-- A handler that has run to its end has recorded `written` and nothing else, in a session whose
recorder holds `events` later on. -/
def Emits (session : Session (Array MarkupEvent)) (events : List MarkupEvent)
    (start : Start (Array MarkupEvent)) (written : List MarkupEvent) : Prop :=
  ∃ after behind, session.result start = .ok (.ok (), after) ∧
    log after = log start.before ++ written ∧ events = log after ++ behind

/-- A handler of the vocabulary that has run to its end has written its score. -/
theorem written_of_rendered (hsink : session.sink = Sink.recorder)
    (hregistry : session.registry = registry view)
    (h : Rendered session (Settings.ofView view) events start) :
    (scoreAt session (Settings.ofView view) start).outcome = .ok () ∧
      Emits session events start (scoreAt session (Settings.ofView view) start).events ∧
      (scoreAt session (Settings.ofView view) start).events.filter MarkupEvent.isLink =
        linksIn session (Settings.ofView view) start.frame.node := by
  obtain ⟨after, written, behind, hresult, hlog, hevents, hlinks⟩ := h.run
  obtain ⟨inside, -⟩ := Document.mem_visited.mp h.visited
  obtain ⟨kind, hkind⟩ := exists_kind? inside
  obtain ⟨htype, hhandler⟩ := handlerFor_of_found hregistry h.found hkind
  have hdeep := h.deep
  have hafter : RendersAfter session (session.visit start.depth) (Settings.ofView view)
      start.frame.node :=
    fun id hlt hid k => carries_node session hregistry hid (by omega) k
  have hstart : (session.enter start.frame start.before).suppression =
      startSuppression session kind.type start.before.suppression := by
    rw [Session.enter, startSuppression, ← htype]
  obtain ⟨k, hperform, -⟩ :=
    carries_handler hafter inside hkind hhandler (session.enter start.frame start.before) [] hstart
  have hplay := (delivers_play Sink.recorder (strokesAt session (Settings.ofView view)
    start.before.suppression start.frame.node) start.before.writer []).accepted
    (Sink.recorder_accepts _ _)
  obtain ⟨houtcome, hwriter⟩ := Prod.mk.inj hplay
  rw [hsink] at hperform
  obtain ⟨hok, hstate⟩ := Prod.mk.inj (Except.ok.inj (hresult.symm.trans hperform))
  have hscored : log after =
      log start.before ++ (scoreAt session (Settings.ofView view) start).events := by
    rw [hstate, log]
    show (play Sink.recorder _ ⟨start.before.writer, []⟩).2.writer.sink.toList = _
    rw [hwriter]
    exact Sink.toList_after_recorder _ _
  obtain rfl : written = (scoreAt session (Settings.ofView view) start).events :=
    List.append_cancel_left (hlog.symm.trans hscored)
  exact ⟨houtcome.symm.trans hok.symm, ⟨after, behind, hresult, hlog, hevents⟩, hlinks⟩

variable {depth : Nat} {t : Transcript (Array MarkupEvent)}

/-- A successful run has the effect of rendering the root. -/
theorem effect_of_run (hsink : session.sink = Sink.recorder)
    (hregistry : session.registry = registry view) (hdepth : session.scene.document.size ≤ depth)
    (hrun : session.run depth Document.rootId #[] = .ok t) (hok : t.outcome = .ok ()) :
    ∃ s, t.sink.toList =
        log s ++ (s.writer.openElements.map .endElement ++ ending t.outcome) ∧
      Effect session (Settings.ofView view) depth (Rendering.node Document.rootId)
        (openingState session) s (placesIn session Document.rootId)
        (linksIn session (Settings.ofView view) Document.rootId) := by
  obtain ⟨s, hrender, hlog⟩ := run_recorder hsink hrun
  have hperform : session.perform (session.visit depth) (Rendering.node Document.rootId)
      (openingState session) = .ok (.ok (), s) := by
    rw [Session.perform_node, ← hok]
    exact hrender
  have hroot : RendersNode session (Settings.ofView view) depth Document.rootId :=
    renders_node hsink hregistry session.scene.document.built.size_pos
      (Document.Arena.underLeaf_root _) hdepth
  obtain ⟨-, heffect⟩ := hroot suppressionAt_root.symm hperform
  exact ⟨s, hlog, heffect⟩

/-- In a successful run every handler that is started runs to its end. -/
theorem rendered_of_run (hsink : session.sink = Sink.recorder)
    (hregistry : session.registry = registry view) (hdepth : session.scene.document.size ≤ depth)
    (hrun : session.run depth Document.rootId #[] = .ok t) (hok : t.outcome = .ok ())
    (hstart : start ∈ session.startsOf depth (.render Document.rootId) (openingState session)) :
    Rendered session (Settings.ofView view) t.sink.toList start := by
  obtain ⟨s, hlog, heffect⟩ := effect_of_run hsink hregistry hdepth hrun hok
  rw [hlog]
  refine (heffect.rendered start ?_).later _
  rwa [Session.startsIn_node]

/-- What a renderer with the topic vocabulary alone gives comes from a run of its session. -/
theorem run_of_render {renderer : Renderer} {doc : Document}
    (h : renderer.topicOnly.render Sink.recorder doc #[] = .ok t) :
    (sessionOf renderer doc Sink.recorder).run
      (renderer.depth doc (registry (renderer.view doc))) Document.rootId #[] = .ok t := by
  have hbuild : Registry.build renderer.topicOnly.providers (renderer.topicOnly.view doc) =
      .ok (registry (renderer.view doc)) := build_provider _
  rw [Renderer.render, Renderer.renderNode, if_pos (by exact doc.built.size_pos), hbuild] at h
  exact h

end Topic

end DitaTopic
