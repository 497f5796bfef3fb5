import DitaTopic.Render.Session

/-!
# Performing programs

A session performs a handler's program; this module says how, construct by construct. A program
that ends with an error is not continued, and the state it leaves stands.
-/

namespace DitaTopic.Render

open DitaTopic.Markup

namespace Session

variable {σ α β : Type}

/-- Runs a program that may end with an error, given how a frame is run. -/
def perform (session : Session σ) (visit : Frame → Run σ Outcome) (p : Rendering α) :
    Run σ (Except RenderError α) :=
  Program.run (session.answer visit) p.run

variable (session : Session σ) (visit : Frame → Run σ Outcome)

theorem perform_bind (p : Rendering α) (f : α → Rendering β) (s : State σ) :
    session.perform visit (p >>= f) s =
      match session.perform visit p s with
      | .ok (.ok a, s) => session.perform visit (f a) s
      | .ok (.error e, s) => .ok (.error e, s)
      | .error i => .error i := by
  show Program.run (session.answer visit) (Program.bind p.run (ExceptT.bindCont f)) s = _
  rw [Program.run_bind]
  show ((session.perform visit p s).bind fun q =>
    Program.run (session.answer visit) (ExceptT.bindCont f q.1) q.2) = _
  cases session.perform visit p s with
  | error i => rfl
  | ok q =>
    obtain ⟨outcome, s'⟩ := q
    cases outcome <;> rfl

theorem perform_bind_of_ok {p : Rendering α} {s s' : State σ} {a : α}
    (h : session.perform visit p s = .ok (.ok a, s')) (f : α → Rendering β) :
    session.perform visit (p >>= f) s = session.perform visit (f a) s' := by
  rw [perform_bind, h]

theorem perform_request (r : Request) (s : State σ) :
    Program.run (session.answer visit) (Program.request r) s = session.answer visit r s := by
  show ((session.answer visit r s).bind fun q => .ok q) = _
  cases session.answer visit r s <;> rfl

theorem perform_write (command : Command) (s : State σ) :
    session.perform visit (Rendering.write command) s =
      .ok ((s.writer.perform session.sink command).1.mapError .writeFailure,
        { s with writer := (s.writer.perform session.sink command).2 }) :=
  session.perform_request visit (.write command) s

theorem perform_node (id : Nat) (s : State σ) :
    session.perform visit (Rendering.node id) s = session.renderNode visit id s :=
  session.perform_request visit (.render id) s

theorem perform_childrenOf {id : Nat} (inside : id < session.scene.document.size) (s : State σ) :
    session.perform visit (Rendering.childrenOf id) s =
      session.renderEach visit (session.scene.document.children id) s := by
  have hpos : (if id < session.scene.document.size then
        session.renderEach visit (session.scene.document.children id)
      else throw (.unknownNode id) : Run σ Outcome) =
      session.renderEach visit (session.scene.document.children id) := if_pos inside
  exact (session.perform_request visit (.renderChildren id) s).trans (congrFun hpos s)

theorem perform_look (s : State σ) :
    session.perform visit Rendering.look s = .ok (.ok s.view, s) := rfl

theorem perform_suppressLinks (s : State σ) :
    session.perform visit Rendering.suppressLinks s =
      .ok (.ok (), { s with suppression := s.suppression + 1 }) := rfl

theorem renderEach_cons (id : Nat) (rest : List Nat) (s : State σ) :
    session.renderEach visit (id :: rest) s =
      match session.renderNode visit id s with
      | .ok (.ok _, s) => session.renderEach visit rest s
      | .ok (.error e, s) => .ok (.error e, s)
      | .error i => .error i := by
  show (session.renderNode visit id s).bind _ = _
  cases session.renderNode visit id s with
  | error i => rfl
  | ok q =>
    obtain ⟨outcome, s'⟩ := q
    cases outcome <;> rfl

/-- Rendering children in turn is performing the programs that render each of them. -/
theorem renderEach_eq_perform (ids : List Nat) (s : State σ) :
    session.renderEach visit ids s = session.perform visit (Rendering.nodes ids) s := by
  induction ids generalizing s with
  | nil => rfl
  | cons id rest ih =>
    rw [Rendering.nodes, perform_bind, perform_node, renderEach_cons]
    cases session.renderNode visit id s with
    | error i => rfl
    | ok q =>
      obtain ⟨outcome, s'⟩ := q
      cases outcome with
      | error e => rfl
      | ok _ => exact ih s'

theorem delegate_eq (s : State σ) :
    Session.delegate visit s =
      match s.frame with
      | none => .ok (.ok (), s)
      | some frame =>
        match frame.chain.inner? with
        | none => .ok (.error (.noHandler frame.type), s)
        | some chain => visit { frame with chain } s := by
  obtain ⟨writer, frame, suppression, notes⟩ := s
  cases frame with
  | none => rfl
  | some frame =>
    obtain ⟨node, type, ⟨outer, beneath⟩⟩ := frame
    cases beneath <;> rfl

/-- Running a frame is performing its handler's program between entering and leaving. -/
theorem visit_succ (depth : Nat) (frame : Frame) (s : State σ) :
    session.visit (depth + 1) frame s =
      (session.perform (session.visit depth)
        (frame.chain.outer.handler.render session.scene frame.node) (session.enter frame s)).map
          fun q => (q.1, Session.leave s.frame s.suppression q.2) := by
  show (session.perform (session.visit depth)
    (frame.chain.outer.handler.render session.scene frame.node) (session.enter frame s)).bind _ = _
  cases session.perform (session.visit depth)
    (frame.chain.outer.handler.render session.scene frame.node) (session.enter frame s) <;> rfl

/-- A session goes from one step to the next unless the first fails. -/
theorem step_bind (first : ExceptT RenderError (Run σ) α)
    (next : α → ExceptT RenderError (Run σ) β) (s : State σ) :
    (first >>= next).run s =
      match first.run s with
      | .ok (.ok a, s) => (next a).run s
      | .ok (.error e, s) => .ok (.error e, s)
      | .error i => .error i := by
  show (first.run s).bind _ = _
  cases first.run s with
  | error i => rfl
  | ok q =>
    obtain ⟨outcome, s'⟩ := q
    cases outcome <;> rfl

end Session

end DitaTopic.Render
