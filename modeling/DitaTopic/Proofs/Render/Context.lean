import DitaTopic.Proofs.Document.Links
import DitaTopic.Proofs.Render.Starts
import DitaTopic.Render.Script

/-!
# The context of handlers

Whatever handlers do, an answered call leaves the current frame and the link suppression as they
were, so that a handler finds itself on its own node and in its own place of the chain whenever it
is its turn, and delegating goes on directly beneath it. A call has no answer only where a node
is asked for that is not in the document, or where handlers nest as deep as they may.
-/

namespace DitaTopic.Render

open DitaTopic.Document (NodeType)

variable {σ α : Type} {session : Session σ} {visit : Frame → Run σ Outcome}

/-- Running a frame puts the current frame and the suppression back. -/
def Restores (visit : Frame → Run σ Outcome) : Prop :=
  ∀ ⦃frame s outcome t⦄, visit frame s = .ok (outcome, t) →
    t.frame = s.frame ∧ t.suppression = s.suppression

theorem restores_visit (session : Session σ) (depth : Nat) : Restores (session.visit depth) := by
  intro frame s outcome t h
  cases depth with
  | zero => cases h
  | succ depth =>
    obtain ⟨after, -, rfl⟩ := Session.exists_result h
    exact ⟨rfl, rfl⟩

theorem renderNode_restores (h : Restores visit) {node : Nat} {s t : State σ} {outcome : Outcome}
    (hok : session.renderNode visit node s = .ok (outcome, t)) :
    t.frame = s.frame ∧ t.suppression = s.suppression := by
  obtain ⟨-, heq⟩ | ⟨type, heq⟩ | ⟨frame, -, heq⟩ := session.renderNode_cases visit node s
  · rw [heq] at hok
    cases hok
  · rw [heq] at hok
    cases hok
    exact ⟨rfl, rfl⟩
  · exact h (heq.symm.trans hok)

theorem renderEach_restores (h : Restores visit) {nodes : List Nat} {s t : State σ}
    {outcome : Outcome} (hok : session.renderEach visit nodes s = .ok (outcome, t)) :
    t.frame = s.frame ∧ t.suppression = s.suppression := by
  induction nodes generalizing s with
  | nil =>
    cases hok
    exact ⟨rfl, rfl⟩
  | cons node rest ih =>
    rw [Session.renderEach_cons] at hok
    cases hnode : session.renderNode visit node s with
    | error i =>
      rw [hnode] at hok
      cases hok
    | ok q =>
      obtain ⟨first, u⟩ := q
      obtain ⟨hframe, hsuppression⟩ := renderNode_restores h hnode
      rw [hnode] at hok
      cases first with
      | error e =>
        cases hok
        exact ⟨hframe, hsuppression⟩
      | ok _ =>
        obtain ⟨hframe', hsuppression'⟩ := ih hok
        exact ⟨hframe'.trans hframe, hsuppression'.trans hsuppression⟩

theorem delegate_restores (h : Restores visit) {s t : State σ} {outcome : Outcome}
    (hok : Session.delegate visit s = .ok (outcome, t)) :
    t.frame = s.frame ∧ t.suppression = s.suppression := by
  obtain ⟨outcome, heq⟩ | ⟨frame, inner, -, -, heq⟩ := Session.delegate_cases visit s
  · rw [heq] at hok
    cases hok
    exact ⟨rfl, rfl⟩
  · exact h (heq.symm.trans hok)

/-- An answered call leaves the current frame and the suppression as they were. -/
theorem answer_restores (h : Restores visit) {r : Request} (hcall : r.IsCall) {s t : State σ}
    {reply : r.Answer} (hok : session.answer visit r s = .ok (reply, t)) :
    t.frame = s.frame ∧ t.suppression = s.suppression := by
  cases r with
  | render node => exact renderNode_restores h hok
  | renderChildren node =>
    change (if node < session.scene.document.size then
      session.renderEach visit (session.scene.document.children node)
      else throw (.unknownNode node) : Run σ Outcome) s = _ at hok
    split at hok
    · exact renderEach_restores h hok
    · cases hok
  | delegate => exact delegate_restores h hok
  | write command => exact hcall.elim
  | suppressLinks => exact hcall.elim
  | allowLinks => exact hcall.elim
  | look => exact hcall.elim
  | note n => exact hcall.elim

/-- No request changes the current frame. -/
theorem answer_frame (h : Restores visit) {r : Request} {s t : State σ} {reply : r.Answer}
    (hok : session.answer visit r s = .ok (reply, t)) : t.frame = s.frame := by
  cases r with
  | render node => exact (answer_restores h (r := .render node) trivial hok).1
  | renderChildren node => exact (answer_restores h (r := .renderChildren node) trivial hok).1
  | delegate => exact (answer_restores h (r := .delegate) trivial hok).1
  | write command | suppressLinks | allowLinks | look | note n =>
    cases hok
    rfl

/-- A program makes all of its requests in the frame that it begins in. -/
theorem asked_frame (h : Restores visit) {p : Program α} {s t : State σ} {r : Request}
    (hasked : (r, t) ∈ p.asked (session.answer visit) s) : t.frame = s.frame := by
  induction p generalizing s with
  | done a => cases hasked
  | ask request next ih =>
    rw [Program.asked] at hasked
    rcases List.mem_cons.mp hasked with heq | hrest
    · cases heq
      rfl
    · cases hanswer : session.answer visit request s with
      | error i =>
        rw [hanswer] at hrest
        cases hrest
      | ok q =>
        rw [hanswer] at hrest
        exact (ih q.1 hrest).trans (answer_frame h hanswer)

theorem run_frame (h : Restores visit) {p : Program α} {s t : State σ} {a : α}
    (hrun : p.run (session.answer visit) s = .ok (a, t)) : t.frame = s.frame := by
  induction p generalizing s with
  | done b =>
    cases hrun
    rfl
  | ask request next ih =>
    change (session.answer visit request s).bind _ = _ at hrun
    cases hanswer : session.answer visit request s with
    | error i =>
      rw [hanswer] at hrun
      cases hrun
    | ok q =>
      rw [hanswer] at hrun
      exact (ih q.1 hrun).trans (answer_frame h hanswer)

/-! ### Frames that are run -/

/-- A frame is on a node of the document, with handlers from the end of the chain that the
registry has for its type. -/
structure Frame.Proper (session : Session σ) (frame : Frame) : Prop where
  type : session.scene.document.type? frame.node = some frame.type
  chain : ∃ whole, session.registry.chain? frame.type = some whole ∧
    frame.chain.links <:+ whole.links

theorem proper_of_frame? {node : Nat} {frame : Frame} (h : session.frame? node = some frame) :
    frame.Proper session := by
  obtain ⟨rfl, htype, hchain⟩ := Session.frame?_eq_some h
  exact ⟨htype, frame.chain, hchain, List.suffix_refl _⟩

theorem Frame.Proper.beneath {frame inner : Frame} (h : frame.Proper session)
    (hinner : frame.beneath? = some inner) : inner.Proper session := by
  obtain ⟨node, type, ⟨outer, beneath⟩⟩ := frame
  obtain ⟨whole, hwhole, hsuffix⟩ := h.chain
  cases beneath with
  | nil => cases hinner
  | cons next rest =>
    cases hinner
    exact ⟨h.type, whole, hwhole, (List.suffix_cons outer _).trans hsuffix⟩

/-- Nodes that are rendered in turn run frames of their own, all in the same context. -/
theorem mem_framesOfEach (h : Restores visit) {nodes : List Nat} {s : State σ}
    {q : Frame × State σ} (hq : q ∈ session.framesOfEach visit nodes s) :
    (∃ node ∈ nodes, session.frame? node = some q.1) ∧
      q.2.frame = s.frame ∧ q.2.suppression = s.suppression := by
  induction nodes generalizing s with
  | nil => cases hq
  | cons node rest ih =>
    rw [Session.framesOfEach] at hq
    rcases List.mem_append.mp hq with hfirst | hrest
    · obtain ⟨frame, hframe, rfl⟩ := List.mem_map.mp hfirst
      exact ⟨⟨node, List.mem_cons_self, Option.mem_toList.mp hframe⟩, rfl, rfl⟩
    · split at hrest
      · next t hnode =>
        obtain ⟨hframe, hsuppression⟩ := renderNode_restores h hnode
        obtain ⟨⟨other, hother, hnode⟩, hframe', hsuppression'⟩ := ih hrest
        exact ⟨⟨other, List.mem_cons_of_mem _ hother, hnode⟩, hframe'.trans hframe,
          hsuppression'.trans hsuppression⟩
      · cases hrest

/-- What a request runs from a proper frame are proper frames. -/
theorem proper_of_mem_framesOf (h : Restores visit) {r : Request} {s : State σ}
    (hs : ∀ frame, s.frame = some frame → frame.Proper session) {q : Frame × State σ}
    (hq : q ∈ session.framesOf visit r s) : q.1.Proper session := by
  cases r with
  | render node =>
    obtain ⟨frame, hframe, rfl⟩ := List.mem_map.mp hq
    exact proper_of_frame? (Option.mem_toList.mp hframe)
  | renderChildren node =>
    rw [Session.framesOf] at hq
    split at hq
    · obtain ⟨⟨child, -, hchild⟩, -⟩ := mem_framesOfEach h hq
      exact proper_of_frame? hchild
    · cases hq
  | delegate =>
    obtain ⟨inner, hinner, rfl⟩ := List.mem_map.mp hq
    obtain ⟨frame, hframe, hbeneath⟩ := Option.bind_eq_some_iff.mp (Option.mem_toList.mp hinner)
    exact (hs frame hframe).beneath hbeneath
  | write command | suppressLinks | allowLinks | look | note n => cases hq

theorem requests_frame {start : Start σ} {r : Request} {t : State σ}
    (h : (r, t) ∈ session.requests start) : t.frame = some start.frame :=
  asked_frame (restores_visit session start.depth) h

theorem proper_of_mem_starts {depth : Nat} {frame : Frame} {s : State σ}
    (hframe : frame.Proper session) {start : Start σ} (h : start ∈ session.starts depth frame s) :
    start.frame.Proper session := by
  induction depth generalizing frame s with
  | zero => cases h
  | succ depth ih =>
    obtain rfl | ⟨⟨r, t⟩, hasked, ⟨inner, u⟩, hq, hstart⟩ := Session.mem_starts_succ.mp h
    · exact hframe
    · have hproper := proper_of_mem_framesOf (restores_visit session depth)
        (fun other hother => by
          rw [requests_frame hasked] at hother
          cases hother
          exact hframe) hq
      exact ih hproper hstart

/-! ### Calls without an answer -/

/-- A node was asked for that is not in the document. -/
def Interrupt.IsUnknown (session : Session σ) (i : Interrupt) : Prop :=
  ∃ node, i = .unknownNode node ∧ session.scene.document.size ≤ node

theorem size_le_of_type? {doc : Document} {node : Nat} (h : doc.type? node = none) :
    doc.size ≤ node := by
  rw [Document.type?, Option.map_eq_none_iff, Document.kind?, Document.Arena.kind?,
    Option.map_eq_none_iff] at h
  exact Array.getElem?_eq_none_iff.mp h

theorem renderNode_error {node : Nat} {s : State σ} {i : Interrupt}
    (h : session.renderNode visit node s = .error i) :
    i.IsUnknown session ∨ ∃ frame, session.frame? node = some frame ∧ visit frame s = .error i := by
  obtain ⟨htype, heq⟩ | ⟨type, heq⟩ | ⟨frame, hframe, heq⟩ :=
    session.renderNode_cases visit node s
  · rw [heq] at h
    cases h
    exact .inl ⟨node, rfl, size_le_of_type? htype⟩
  · rw [heq] at h
    cases h
  · exact .inr ⟨frame, hframe, heq.symm.trans h⟩

theorem renderEach_error {nodes : List Nat} {s : State σ} {i : Interrupt}
    (h : session.renderEach visit nodes s = .error i) :
    i.IsUnknown session ∨ ∃ q ∈ session.framesOfEach visit nodes s, visit q.1 q.2 = .error i := by
  induction nodes generalizing s with
  | nil => cases h
  | cons node rest ih =>
    rw [Session.renderEach_cons] at h
    rw [Session.framesOfEach]
    cases hnode : session.renderNode visit node s with
    | error j =>
      rw [hnode] at h
      cases h
      refine (renderNode_error hnode).imp_right ?_
      rintro ⟨frame, hframe, hvisit⟩
      exact ⟨(frame, s), List.mem_append_left _ (by rw [hframe]; exact List.mem_singleton_self _),
        hvisit⟩
    | ok q =>
      obtain ⟨outcome, t⟩ := q
      rw [hnode] at h
      cases outcome with
      | error e => cases h
      | ok _ =>
        refine (ih h).imp_right ?_
        rintro ⟨q, hq, hvisit⟩
        exact ⟨q, List.mem_append_right _ hq, hvisit⟩

/-- A request without an answer asks for an unknown node or runs a frame without a result. -/
theorem answer_error {r : Request} {s : State σ} {i : Interrupt}
    (h : session.answer visit r s = .error i) :
    i.IsUnknown session ∨ ∃ q ∈ session.framesOf visit r s, visit q.1 q.2 = .error i := by
  cases r with
  | render node =>
    refine (renderNode_error h).imp_right ?_
    rintro ⟨frame, hframe, hvisit⟩
    refine ⟨(frame, s), ?_, hvisit⟩
    rw [Session.framesOf, hframe]
    exact List.mem_singleton_self _
  | renderChildren node =>
    change (if node < session.scene.document.size then
      session.renderEach visit (session.scene.document.children node)
      else throw (.unknownNode node) : Run σ Outcome) s = _ at h
    rw [Session.framesOf]
    split at h
    · next hinside =>
      rw [if_pos hinside]
      exact renderEach_error h
    · next hinside =>
      cases h
      exact .inl ⟨node, rfl, Nat.le_of_not_lt hinside⟩
  | delegate =>
    change Session.delegate visit s = _ at h
    obtain ⟨outcome, heq⟩ | ⟨frame, inner, hframe, hinner, heq⟩ := Session.delegate_cases visit s
    · rw [heq] at h
      cases h
    · refine .inr ⟨(inner, s), ?_, heq.symm.trans h⟩
      rw [Session.framesOf, hframe, Option.bind_some, hinner]
      exact List.mem_singleton_self _
  | write command | suppressLinks | allowLinks | look | note n => cases h

theorem run_error {p : Program α} {s : State σ} {i : Interrupt}
    (h : p.run (session.answer visit) s = .error i) :
    ∃ q ∈ p.asked (session.answer visit) s, session.answer visit q.1 q.2 = .error i := by
  induction p generalizing s with
  | done a => cases h
  | ask request next ih =>
    change (session.answer visit request s).bind _ = _ at h
    rw [Program.asked]
    cases hanswer : session.answer visit request s with
    | error j =>
      rw [hanswer] at h
      cases h
      exact ⟨(request, s), List.mem_cons_self, hanswer⟩
    | ok q =>
      rw [hanswer] at h
      obtain ⟨p, hp, hp'⟩ := ih q.1 h
      exact ⟨p, List.mem_cons_of_mem _ hp, hp'⟩

/-- A frame without a result met an unknown node, or handlers nested below it as deep as they
may. -/
theorem visit_error {depth : Nat} {frame : Frame} {s : State σ} {i : Interrupt}
    (h : session.visit depth frame s = .error i) :
    i.IsUnknown session ∨
      i = .tooDeep ∧ (depth = 0 ∨ ∃ start ∈ session.starts depth frame s, start.depth = 0) := by
  induction depth generalizing frame s with
  | zero =>
    cases h
    exact .inr ⟨rfl, .inl rfl⟩
  | succ depth ih =>
    have hrun : session.result ⟨depth, frame, s⟩ = .error i := by
      rw [Session.visit_succ] at h
      rw [Session.result]
      cases hresult : session.perform (session.visit depth)
          (frame.chain.outer.handler.render session.scene frame.node) (session.enter frame s) with
      | error j =>
        rw [hresult] at h
        cases h
        rfl
      | ok q =>
        rw [hresult] at h
        cases h
    obtain ⟨⟨r, t⟩, hasked, hanswer⟩ := run_error hrun
    rcases answer_error hanswer with hunknown | ⟨⟨inner, u⟩, hq, hvisit⟩
    · exact .inl hunknown
    · refine (ih hvisit).imp_right ?_
      rintro ⟨hdeep, hnested⟩
      refine ⟨hdeep, .inr ?_⟩
      rw [Session.starts]
      rcases hnested with rfl | ⟨start, hstart, hzero⟩
      · exact ⟨⟨0, frame, s⟩, List.mem_cons_self, rfl⟩
      · refine ⟨start, List.mem_cons_of_mem _ ?_, hzero⟩
        exact List.mem_flatMap.mpr ⟨(r, t), hasked, List.mem_flatMap.mpr ⟨(inner, u), hq, hstart⟩⟩

/-! ### The context of every handler -/

/-- A handler keeps its place: whenever it makes a request, and when it ends, the current frame is
its own, and delegating runs the handler directly beneath it on the same node, or fails without a
trace where there is none. -/
structure KeepsPlace (session : Session σ) (start : Start σ) : Prop where
  proper : start.frame.Proper session
  own : ∀ r t, (r, t) ∈ session.requests start → t.frame = some start.frame
  ended : ∀ outcome t, session.result start = .ok (outcome, t) → t.frame = some start.frame
  delegates : ∀ t, (.delegate, t) ∈ session.requests start →
    session.answer (session.visit start.depth) .delegate t =
      match start.frame.chain.beneath with
      | [] => .ok (.error (.noHandler start.frame.type), t)
      | outer :: beneath =>
        session.visit start.depth { start.frame with chain := ⟨outer, beneath⟩ } t

theorem keepsPlace_of_proper {start : Start σ} (h : start.frame.Proper session) :
    KeepsPlace session start where
  proper := h
  own _ _ hasked := requests_frame hasked
  ended _ _ hresult := run_frame (restores_visit session start.depth) hresult
  delegates t hasked := by
    show Session.delegate _ t = _
    rw [Session.delegate_eq, requests_frame hasked]
    obtain ⟨depth, ⟨node, type, ⟨outer, beneath⟩⟩, before⟩ := start
    cases beneath <;> rfl

/-- In every session and every state, whatever the handlers do: an answered call leaves the current
frame and the suppression as they were; every handler that runs below the rendering of a node
keeps its place; and a call without an answer met an unknown node or the greatest depth. -/
theorem context_kept (session : Session σ) (depth : Nat) (s : State σ) :
    (∀ r : Request, r.IsCall → ∀ reply t,
      session.answer (session.visit depth) r s = .ok (reply, t) →
        t.frame = s.frame ∧ t.suppression = s.suppression) ∧
    (∀ node, ∀ start ∈ session.startsOf depth (.render node) s, KeepsPlace session start) ∧
    (∀ r : Request, ∀ i, session.answer (session.visit depth) r s = .error i →
      i.IsUnknown session ∨ i = .tooDeep ∧
        (depth = 0 ∨ ∃ start ∈ session.startsOf depth r s, start.depth = 0)) := by
  refine ⟨fun r hcall reply t => answer_restores (restores_visit session depth) hcall, ?_, ?_⟩
  · intro node start hstart
    obtain ⟨⟨frame, t⟩, hq, hbelow⟩ := List.mem_flatMap.mp hstart
    obtain ⟨found, hfound, hpair⟩ := List.mem_map.mp hq
    cases hpair
    exact keepsPlace_of_proper
      (proper_of_mem_starts (proper_of_frame? (Option.mem_toList.mp hfound)) hbelow)
  · intro r i h
    rcases answer_error h with hunknown | ⟨q, hq, hvisit⟩
    · exact .inl hunknown
    · refine (visit_error hvisit).imp_right ?_
      rintro ⟨hdeep, hnested⟩
      refine ⟨hdeep, hnested.imp_right ?_⟩
      rintro ⟨start, hstart, hzero⟩
      exact ⟨start, List.mem_flatMap.mpr ⟨q, hq, hstart⟩, hzero⟩

/-- A session in which the outer handler of a paragraph enters a region without links, renders a
text that fails, goes on and delegates. -/
def meddling : Session (Array Markup.MarkupEvent) where
  scene :=
    { document := (Document.empty.attach 0 .paragraph).attach 1 (.text "x")
      options := .ofSet KeyedList.empty
      settings := .default
      ids := KeyedList.empty }
  registry := [
    ⟨⟨"inner"⟩, Handler.ofScript .paragraph [.probe "inner", .delegate]⟩,
    ⟨⟨"outer"⟩, Handler.ofScript .paragraph [.suppressLinks, .guarded [.node 2], .delegate]⟩,
    ⟨⟨"text"⟩, Handler.ofScript .text [.suppressLinks, .fail "no"]⟩].foldl Registry.register .empty
  sink := Markup.Sink.recorder

/-- The handler beneath runs on the same node, with the suppression of the one that delegates. -/
example : ((meddling.startsOf 3 (.render 1) ⟨⟨#[], []⟩, none, 0, #[]⟩).map fun start =>
    (start.frame.node, start.frame.chain.outer.provider.name, start.before.suppression)) =
      [(1, "outer", 0), (2, "text", 1), (1, "inner", 1)] := rfl

end DitaTopic.Render
