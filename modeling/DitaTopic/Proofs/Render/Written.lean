import DitaTopic.Proofs.Markup.Delivery
import DitaTopic.Proofs.Render.Starts

/-!
# Who has written what

Every event that a recorder takes up while a node is rendered was written by one of the handlers
that ran, whatever these do and however they end. The induction is on the depth to which handlers
may nest, and for each handler on its program.
-/

namespace DitaTopic.Render

open DitaTopic.Markup

variable {session : Session (Array MarkupEvent)} {visit : Frame → Run (Array MarkupEvent) Outcome}
  {α : Type} {s t u : State (Array MarkupEvent)} {P Q : MarkupEvent → Prop}

/-- An event that a handler writes itself. -/
def Start.Writes {σ : Type} (session : Session σ) (start : Start σ) (event : MarkupEvent) : Prop :=
  ∃ command t, (.write command, t) ∈ session.requests start ∧
    event ∈ command.events t.writer.openElements

/-- From the one state to the other a recorder has taken up events with a property. -/
def Records (P : MarkupEvent → Prop) (s t : State (Array MarkupEvent)) : Prop :=
  ∃ events, t.writer.sink.toList = s.writer.sink.toList ++ events ∧ ∀ event ∈ events, P event

theorem Records.of_writer (h : t.writer = s.writer) : Records P s t :=
  ⟨[], by rw [h, List.append_nil], nofun⟩

theorem Records.trans (h : Records P s t) (h' : Records P t u) : Records P s u := by
  obtain ⟨first, hfirst, hall⟩ := h
  obtain ⟨second, hsecond, hall'⟩ := h'
  refine ⟨first ++ second, ?_, ?_⟩
  · rw [hsecond, hfirst, List.append_assoc]
  · intro event hevent
    rcases List.mem_append.mp hevent with hevent | hevent
    · exact hall event hevent
    · exact hall' event hevent

theorem Records.mono (h : Records P s t) (hPQ : ∀ event, P event → Q event) : Records Q s t := by
  obtain ⟨events, hlog, hall⟩ := h
  exact ⟨events, hlog, fun event hevent => hPQ event (hall event hevent)⟩

theorem toList_perform_recorder (w : Writer (Array MarkupEvent)) (command : Command) :
    (w.perform Sink.recorder command).2.sink.toList =
      w.sink.toList ++ command.events w.openElements := by
  cases hnesting : command.keepsNesting with
  | true =>
    have hdelivers := Writer.delivers_perform Sink.recorder w hnesting
    rw [hdelivers.accepted (Sink.recorder_accepts _ _)]
    exact Sink.toList_after_recorder _ _
  | false =>
    cases command with
    | finishNamed name => exact Array.toList_push
    | _ => cases hnesting

/-! ### What answers to requests add -/

section

-- what is written by all that a frame runs from a state on
variable {By : Frame → State (Array MarkupEvent) → MarkupEvent → Prop}

/-- An event that a request writes, or that comes from one of the frames that it runs. -/
def Causes (session : Session (Array MarkupEvent))
    (visit : Frame → Run (Array MarkupEvent) Outcome)
    (By : Frame → State (Array MarkupEvent) → MarkupEvent → Prop)
    (q : Request × State (Array MarkupEvent)) (event : MarkupEvent) : Prop :=
  (∃ command, q.1 = .write command ∧ event ∈ command.events q.2.writer.openElements) ∨
    ∃ run ∈ session.framesOf visit q.1 q.2, By run.1 run.2 event

variable (hvisit : ∀ ⦃frame s outcome t⦄, visit frame s = .ok (outcome, t) →
  Records (By frame s) s t)

include hvisit

theorem records_renderNode {node : Nat} {outcome : Outcome}
    (h : session.renderNode visit node s = .ok (outcome, t)) :
    Records (fun event => ∃ frame, session.frame? node = some frame ∧ By frame s event) s t := by
  obtain ⟨-, heq⟩ | ⟨type, heq⟩ | ⟨frame, hframe, heq⟩ := session.renderNode_cases visit node s
  · rw [heq] at h
    cases h
  · rw [heq] at h
    cases h
    exact .of_writer rfl
  · exact (hvisit (heq.symm.trans h)).mono fun event hevent => ⟨frame, hframe, hevent⟩

theorem records_renderEach {nodes : List Nat} {outcome : Outcome}
    (h : session.renderEach visit nodes s = .ok (outcome, t)) :
    Records (fun event => ∃ run ∈ session.framesOfEach visit nodes s, By run.1 run.2 event)
      s t := by
  induction nodes generalizing s with
  | nil =>
    cases h
    exact .of_writer rfl
  | cons node rest ih =>
    rw [Session.renderEach_cons] at h
    rw [Session.framesOfEach]
    cases hnode : session.renderNode visit node s with
    | error i =>
      rw [hnode] at h
      cases h
    | ok q =>
      obtain ⟨first, middle⟩ := q
      rw [hnode] at h
      have hfirst : ∀ others, Records (fun event =>
          ∃ run ∈ (session.frame? node).toList.map (fun frame => (frame, s)) ++ others,
            By run.1 run.2 event) s middle := by
        intro others
        refine (records_renderNode hvisit hnode).mono ?_
        rintro event ⟨frame, hframe, hevent⟩
        have hrun : (frame, s) ∈ (session.frame? node).toList.map fun frame => (frame, s) :=
          List.mem_map_of_mem (Option.mem_toList.mpr hframe)
        exact ⟨(frame, s), List.mem_append_left _ hrun, hevent⟩
      cases first with
      | error e =>
        cases h
        exact hfirst _
      | ok _ =>
        refine (hfirst _).trans ((ih h).mono ?_)
        rintro event ⟨run, hrun, hevent⟩
        exact ⟨run, List.mem_append_right _ hrun, hevent⟩

theorem records_answer (hsink : session.sink = Sink.recorder) {r : Request} {reply : r.Answer}
    (h : session.answer visit r s = .ok (reply, t)) :
    Records (Causes session visit By (r, s)) s t := by
  cases r with
  | write command =>
    cases h
    refine ⟨command.events s.writer.openElements, ?_, fun event hevent => .inl ⟨command, rfl, hevent⟩⟩
    rw [hsink]
    exact toList_perform_recorder s.writer command
  | render node =>
    refine (records_renderNode hvisit h).mono ?_
    rintro event ⟨frame, hframe, hevent⟩
    exact .inr ⟨(frame, s), List.mem_map_of_mem (Option.mem_toList.mpr hframe), hevent⟩
  | renderChildren node =>
    change (if node < session.scene.document.size then
      session.renderEach visit (session.scene.document.children node)
      else throw (.unknownNode node) : Run (Array MarkupEvent) Outcome) s = _ at h
    split at h
    · next hinside =>
      refine (records_renderEach hvisit h).mono ?_
      rintro event ⟨run, hrun, hevent⟩
      refine .inr ⟨run, ?_, hevent⟩
      rw [Session.framesOf, if_pos hinside]
      exact hrun
    · cases h
  | delegate =>
    change Session.delegate visit s = _ at h
    obtain ⟨outcome, heq⟩ | ⟨frame, inner, hframe, hinner, heq⟩ := Session.delegate_cases visit s
    · rw [heq] at h
      cases h
      exact .of_writer rfl
    · refine (hvisit (heq.symm.trans h)).mono fun event hevent => .inr ⟨(inner, s), ?_, hevent⟩
      rw [Session.framesOf, hframe, Option.bind_some, hinner]
      exact List.mem_singleton_self _
  | suppressLinks | allowLinks | look | note n =>
    cases h
    exact .of_writer rfl

theorem records_run (hsink : session.sink = Sink.recorder) {p : Program α} {a : α}
    (h : p.run (session.answer visit) s = .ok (a, t)) :
    Records (fun event => ∃ q ∈ p.asked (session.answer visit) s, Causes session visit By q event)
      s t := by
  induction p generalizing s with
  | done b =>
    cases h
    exact .of_writer rfl
  | ask request next ih =>
    change (session.answer visit request s).bind _ = _ at h
    rw [Program.asked]
    cases hanswer : session.answer visit request s with
    | error i =>
      rw [hanswer] at h
      cases h
    | ok q =>
      obtain ⟨reply, middle⟩ := q
      rw [hanswer] at h
      refine ((records_answer hvisit hsink hanswer).mono ?_).trans ((ih reply h).mono ?_)
      · exact fun event hevent => ⟨(request, s), List.mem_cons_self, hevent⟩
      · rintro event ⟨q, hq, hevent⟩
        exact ⟨q, List.mem_cons_of_mem _ hq, hevent⟩

end

/-- All that a recorder takes up while a frame runs was written by the handlers that ran. -/
theorem records_visit (hsink : session.sink = Sink.recorder) {depth : Nat} {frame : Frame}
    {outcome : Outcome} (h : session.visit depth frame s = .ok (outcome, t)) :
    Records (fun event => ∃ start ∈ session.starts depth frame s, start.Writes session event)
      s t := by
  induction depth generalizing frame s outcome t with
  | zero => cases h
  | succ depth ih =>
    obtain ⟨after, hresult, rfl⟩ := Session.exists_result h
    have hvisit : ∀ ⦃frame s outcome t⦄, session.visit depth frame s = .ok (outcome, t) →
        Records (fun event => ∃ start ∈ session.starts depth frame s, start.Writes session event)
          s t := fun _ _ _ _ hvisit => ih hvisit
    obtain ⟨events, hlog, hall⟩ := records_run hvisit hsink hresult
    refine ⟨events, hlog, fun event hevent => ?_⟩
    obtain ⟨q, hq, ⟨command, hcommand, hown⟩ | ⟨run, hrun, start, hstart, hwrites⟩⟩ :=
      hall event hevent
    · exact ⟨_, Session.mem_starts_succ.mpr (.inl rfl), command, q.2, hcommand ▸ hq, hown⟩
    · exact ⟨start, Session.mem_starts_succ.mpr (.inr ⟨q, hq, run, hrun, hstart⟩), hwrites⟩

end DitaTopic.Render
