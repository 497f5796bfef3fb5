import DitaTopic.Proofs.Markup.Limit
import DitaTopic.Proofs.Topic.Session

/-!
# Sinks that reject events

A session with the topic vocabulary alone is the same on every sink up to the first event that is
rejected. From there on only the elements still open are ended. What a sink that runs full holds
is therefore the beginning of what it would hold without a limit.
-/

namespace DitaTopic.Topic

open DitaTopic.Markup
open DitaTopic.Render

variable {σ : Type}

/-- What a session on a sink ends with and what it offers, given the events and the outcome of the
same session where nothing is rejected. `attempt` are the events before that session ended the
elements left open by an error of its own. -/
structure Follows (sink : Sink σ) (start : σ) (full attempt : List MarkupEvent) (outcome : Outcome)
    (result : Outcome) (offered : List MarkupEvent) : Prop where
  accepted : sink.Accepts full start → result = outcome ∧ offered = full
  rejected : ∀ {before event later error}, full = before ++ event :: later →
    sink.RejectsAt start before event error →
    result = (if before.length < attempt.length then .error (.writeFailure error) else outcome) ∧
      ∃ names, stillOpen [] before event = some names ∧
        offered = before ++ event :: names.map .endElement

/-- A session that was concluded has followed its score and ended what was open. -/
theorem conclude_follows {sink : Sink σ} {start : σ} {s : Score} {result : Outcome × Writer σ}
    (h : Delivers .writeFailure sink ⟨start, []⟩ s.events s.outcome s.openElements result)
    (hok : s.outcome = .ok () → s.openElements = []) :
    ∃ offered, (conclude sink result).sink = sink.after offered start ∧
      (conclude sink result).notes = #[] ∧
      Follows sink start s.closed s.events s.outcome (conclude sink result).outcome offered := by
  rcases sink.accepts_or_rejects s.events start with haccepts | ⟨before, event, later, x, heq, hx⟩
  · have hconclude := conclude_of_accepts h hok haccepts
    refine ⟨s.closed, by rw [hconclude], by rw [hconclude], ?_⟩
    rw [hconclude]
    refine ⟨fun _ => ⟨rfl, rfl⟩, fun {before event later x} heq hx => ?_⟩
    -- the rejection comes while the elements left open are ended
    obtain ⟨rest, rfl, hends⟩ := hx.exists_append haccepts heq
    obtain ⟨ended, names, hnames, rfl, hrest⟩ := List.map_eq_append_iff.mp hends
    obtain ⟨name, names, rfl, rfl, rfl⟩ := List.map_eq_cons_iff.mp hrest
    have hle : ¬ (s.events ++ ended.map MarkupEvent.endElement).length < s.events.length := by
      rw [List.length_append]
      omega
    refine ⟨(if_neg hle).symm, names, ?_, heq⟩
    rw [stillOpen, openAfter_append, h.nests, Option.bind_some, hnames, openAfter_ends_append]
    rfl
  · obtain ⟨hverdict, ended, hopen, hsink⟩ := h.cut heq hx
    obtain ⟨verdict, w⟩ := result
    obtain rfl : verdict = _ := hverdict
    have hsinks : (w.close sink).2.sink =
        sink.after (before ++ event :: (ended ++ w.openElements).map .endElement) start := by
      rw [Writer.close_sink, hsink, ← Sink.after_append, List.map_append, List.append_assoc,
        List.cons_append]
    refine ⟨_, hsinks, rfl, ?_, ?_⟩
    · intro haccepts
      rw [Score.closed, heq] at haccepts
      exact absurd (Sink.accepts_append.mp haccepts).1 (hx.not_accepts later)
    · intro before' event' later' x' heq' hx'
      rw [Score.closed, heq, List.append_assoc, List.cons_append] at heq'
      obtain ⟨rfl, rfl, rfl⟩ := hx.unique hx' heq'
      have hlt : before.length < s.events.length := by
        rw [heq, List.length_append, List.length_cons]
        omega
      rw [if_pos hlt]
      exact ⟨rfl, _, hopen, rfl⟩

namespace Follows

variable {sink : Sink σ} {start : σ} {full attempt offered offered' : List MarkupEvent}
  {outcome result result' : Outcome}

/-- How a session ends and what it offers depends on the sink's verdicts alone. -/
theorem unique (h : Follows sink start full attempt outcome result offered)
    (h' : Follows sink start full attempt outcome result' offered') :
    result = result' ∧ offered = offered' := by
  rcases sink.accepts_or_rejects full start with haccepts | ⟨before, event, later, x, heq, hx⟩
  · obtain ⟨rfl, rfl⟩ := h.accepted haccepts
    obtain ⟨rfl, rfl⟩ := h'.accepted haccepts
    exact ⟨rfl, rfl⟩
  · obtain ⟨rfl, names, hnames, rfl⟩ := h.rejected heq hx
    obtain ⟨rfl, names', hnames', rfl⟩ := h'.rejected heq hx
    obtain rfl := Option.some.inj (hnames.symm.trans hnames')
    exact ⟨rfl, rfl⟩

theorem of_logged {log : List MarkupEvent}
    (h : Follows sink.logged (start, log) full attempt outcome result offered) :
    Follows sink start full attempt outcome result offered where
  accepted haccepts := h.accepted (Sink.accepts_logged.mpr haccepts)
  rejected heq hx := h.rejected heq (Sink.rejectsAt_logged.mpr hx)

theorem take_eq {n : Nat}
    (h : Follows (Sink.boundedRecorder n) #[] full attempt outcome result offered) :
    offered.take n = full.take n := by
  rcases (Sink.boundedRecorder n).accepts_or_rejects full #[] with
    haccepts | ⟨before, event, later, x, rfl, hx⟩
  · rw [(h.accepted haccepts).2]
  · obtain ⟨-, names, -, rfl⟩ := h.rejected rfl hx
    rw [List.take_append_of_le_length hx.capacity_le, List.take_append_of_le_length hx.capacity_le]

/-- A recorder that does not hold all the events ends the session, unless that had failed before the
recorder was full. -/
theorem result_of_full {n : Nat}
    (h : Follows (Sink.boundedRecorder n) #[] full attempt outcome result offered)
    (hn : n < full.length) :
    result =
      if n < attempt.length then .error (.writeFailure (.rejected "sink closed")) else outcome := by
  have htake : (full.take n).length = n := List.length_take_of_le (Nat.le_of_lt hn)
  have hsplit : full = full.take n ++ full[n] :: full.drop (n + 1) := by
    rw [List.getElem_cons_drop, List.take_append_drop]
  have hrejects := Sink.rejectsAt_boundedRecorder (full.take n) full[n]
  rw [htake] at hrejects
  obtain ⟨hresult, -⟩ := h.rejected hsplit hrejects
  rwa [htake] at hresult

theorem extract_text_eq {indent n : Nat}
    (h : Follows (Xml.sink indent) (Xml.State.start (some n)) full attempt outcome result offered) :
    (Xml.text indent offered).extract 0 n = (Xml.text indent full).extract 0 n := by
  rcases (Xml.sink indent).accepts_or_rejects full (Xml.State.start (some n)) with
    haccepts | ⟨before, event, later, x, rfl, hx⟩
  · rw [(h.accepted haccepts).2]
  · obtain ⟨-, names, -, rfl⟩ := h.rejected rfl hx
    rw [Xml.extract_text_of_rejects hx, Xml.extract_text_of_rejects hx later]

end Follows

/-- What a session with the topic vocabulary alone offers to a recorder before it ends the elements
that an error left open. -/
def attemptOf (renderer : Renderer) (doc : Document) (node : Nat) : List MarkupEvent :=
  let session := sessionOf renderer doc Sink.recorder
  match (session.wrapped (renderer.depth doc session.registry) node).run.run
      (startState renderer doc #[]) with
  | .ok (_, s) => s.writer.sink.toList
  | .error _ => []

theorem attemptOf_eq (renderer : Renderer) {doc : Document} {node : Nat} (inside : node < doc.size) :
    attemptOf renderer doc node = (scoreOf renderer doc node).events := by
  obtain ⟨k, hwrapped, -⟩ := actsAt_wrapped renderer Sink.recorder inside
    (Nat.le_add_right_of_le (size_le_depth renderer doc)) (s := startState renderer doc #[]) rfl
  have hrun : ((sessionOf renderer doc Sink.recorder).wrapped
      (renderer.depth doc (sessionOf renderer doc Sink.recorder).registry) node).run.run
        (startState renderer doc #[]) = _ := hwrapped
  have hplay := (delivers_playWhole Sink.recorder (strokesOf renderer doc node) #[]).accepted
    (Sink.recorder_accepts _ _)
  rw [Sink.after_recorder] at hplay
  rw [attemptOf, hrun, startState, hplay, scoreOf]
  simp

/-- On every sink a session follows its score. -/
theorem session_follows (renderer : Renderer) (sink : Sink σ) {doc : Document} {node : Nat}
    (inside : node < doc.size) (start : σ) :
    ∃ result offered,
      renderer.topicOnly.renderNode sink doc node start =
        .ok ⟨result, sink.after offered start, #[]⟩ ∧
      Follows sink start (scoreOf renderer doc node).closed
        (scoreOf renderer doc node).events
        (scoreOf renderer doc node).outcome result offered := by
  have hdelivers := delivers_playWhole sink
    (strokesOf renderer doc node) start
  obtain ⟨offered, hsink, hnotes, hfollows⟩ :=
    conclude_follows hdelivers (Score.openElements_inDocument _)
  refine ⟨_, offered, ?_, hfollows⟩
  rw [renderNode_eq renderer sink inside, ← hsink, ← hnotes]

/-- A session with the topic vocabulary alone does on every sink what it does on a recorder, up to
the first event that the sink rejects. -/
theorem session_factors (renderer : Renderer) {doc : Document} {node : Nat}
    (inside : node < doc.size) :
    ∃ (full : List MarkupEvent) (outcome : Outcome),
      renderer.topicOnly.renderNode Sink.recorder doc node #[] =
        .ok ⟨outcome, full.toArray, #[]⟩ ∧
      (∃ names : List String, full = attemptOf renderer doc node ++ names.map .endElement ∧
        (outcome = .ok () → names = [])) ∧
      (∀ (σ : Type) (sink : Sink σ) (start : σ), ∃ result offered,
        renderer.topicOnly.renderNode sink doc node start =
          .ok ⟨result, sink.after offered start, #[]⟩ ∧
        renderer.topicOnly.renderNode sink.logged doc node (start, []) =
          .ok ⟨result, (sink.after offered start, offered), #[]⟩ ∧
        Follows sink start full (attemptOf renderer doc node) outcome result offered) ∧
      (∀ n, ∃ result,
        renderer.topicOnly.renderNode (Sink.boundedRecorder n) doc node #[] =
          .ok ⟨result, (full.take n).toArray, #[]⟩) ∧
      (∀ indent n, ∃ result limited unlimited,
        renderer.topicOnly.renderNode (Xml.sink indent) doc node (Xml.State.start none) =
          .ok ⟨outcome, unlimited, #[]⟩ ∧
        renderer.topicOnly.renderNode (Xml.sink indent) doc node (Xml.State.start (some n)) =
          .ok ⟨result, limited, #[]⟩ ∧
        limited.output.bytes = unlimited.output.bytes.extract 0 n) := by
  have hfollows := fun {σ : Type} (sink : Sink σ) (start : σ) =>
    session_follows renderer sink inside start
  have hrecorded := renderNode_recorder renderer inside
  have hok : (scoreOf renderer doc node).outcome = .ok () →
      (scoreOf renderer doc node).openElements = [] := Score.openElements_inDocument _
  rw [attemptOf_eq renderer inside]
  generalize scoreOf renderer doc node = s at hfollows hrecorded hok
  refine ⟨s.closed, s.outcome, ?_, ⟨s.openElements, rfl, hok⟩, ?_, ?_, ?_⟩
  · exact hrecorded
  · intro σ sink start
    obtain ⟨result, offered, hrender, h⟩ := hfollows sink start
    obtain ⟨result', offered', hlogged, h'⟩ := hfollows sink.logged (start, [])
    obtain ⟨rfl, rfl⟩ := h.unique h'.of_logged
    rw [Sink.after_logged, List.nil_append] at hlogged
    exact ⟨result, offered, hrender, hlogged, h⟩
  · intro n
    obtain ⟨result, offered, hrender, h⟩ := hfollows (Sink.boundedRecorder n) #[]
    refine ⟨result, ?_⟩
    rw [hrender, Sink.after_boundedRecorder_empty, h.take_eq]
  · intro indent n
    obtain ⟨outcome, all, hall, hunlimited⟩ := hfollows (Xml.sink indent) (Xml.State.start none)
    obtain ⟨rfl, rfl⟩ := hunlimited.accepted (Xml.accepts_unlimited _ _ _ _)
    obtain ⟨result, offered, hrender, h⟩ := hfollows (Xml.sink indent) (Xml.State.start (some n))
    refine ⟨result, _, _, hall, hrender, ?_⟩
    rw [Xml.bytes_unlimited, Xml.after_limited_start]
    exact h.extract_text_eq

/-- A paragraph with a footnote reference behind a text. -/
def annotated : Document :=
  ((Document.empty.attach 0 .paragraph).attach 1 (.text "a")).attach 1
    (.custom "footnote-reference" "1")

/-- The session fails by itself in the paragraph. A recorder that is full before that fails it
earlier, and one that gets full while the three open elements are ended leaves the error as it is. -/
theorem session_factors_annotated :
    let renderer : Renderer := {}
    let refused : Outcome := .error (.noHandler (.custom "footnote-reference"))
    let closed : Outcome := .error (.writeFailure (.rejected "sink closed"))
    0 < annotated.size ∧ ∃ full : List MarkupEvent,
      renderer.topicOnly.renderNode Sink.recorder annotated 0 #[] =
        .ok ⟨refused, full.toArray, #[]⟩ ∧
      full = attemptOf renderer annotated 0 ++ ["p", "body", "topic"].map .endElement ∧
      ∀ n < 11, renderer.topicOnly.renderNode (Sink.boundedRecorder n) annotated 0 #[] =
        .ok ⟨if n < 8 then closed else refused, (full.take n).toArray, #[]⟩ := by
  intro renderer refused closed
  have inside : 0 < annotated.size := by decide
  obtain ⟨full, outcome, hfull, -, hsinks, hbounded, -⟩ := session_factors renderer inside
  have hrecorded := renderNode_recorder renderer inside
  obtain ⟨houtcome, hevents, -⟩ := Transcript.mk.inj (Except.ok.inj (hfull.symm.trans hrecorded))
  have hclosed : full = (scoreOf renderer annotated 0).closed := Array.toList_inj.mpr hevents
  have hrefused : (scoreOf renderer annotated 0).outcome = refused := by decide +kernel
  obtain rfl : outcome = refused := houtcome.trans hrefused
  have hattempt : full = attemptOf renderer annotated 0 ++ ["p", "body", "topic"].map .endElement := by
    rw [hclosed, attemptOf_eq renderer inside]
    decide +kernel
  have hlength : full.length = 11 := by
    rw [hclosed]
    decide +kernel
  have hbefore : (attemptOf renderer annotated 0).length = 8 := by
    rw [hattempt, List.length_append] at hlength
    exact Nat.add_right_cancel hlength
  refine ⟨inside, full, hfull, hattempt, fun n hn => ?_⟩
  obtain ⟨result, offered, hrender, -, hfollows⟩ := hsinks _ (Sink.boundedRecorder n) #[]
  obtain ⟨result', hholds⟩ := hbounded n
  obtain ⟨rfl, -⟩ := Transcript.mk.inj (Except.ok.inj (hrender.symm.trans hholds))
  rw [hholds, hfollows.result_of_full (hlength ▸ hn), hbefore]

end DitaTopic.Topic
