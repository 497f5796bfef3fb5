import DitaTopic.Proofs.Render.Chains
import DitaTopic.Proofs.Render.Perform

/-!
# Disciplines

What holds of every session whose handlers keep to certain requests, whatever else they do: in
which order they ask, how often, for which nodes, whether they go on after an error or fail
themselves. A discipline is a relation between an earlier and a later state of a session. If the
permitted requests respect it, so does every handler and every node that is rendered.
-/

namespace DitaTopic.Render

open DitaTopic.Document (NodeType)

variable {σ α β : Type} {allowed : Request → Prop}

/-- Every request that a program may make is permitted. -/
def Program.Asks (allowed : Request → Prop) : Program α → Prop
  | .done _ => True
  | .ask request next => allowed request ∧ ∀ answer, (next answer).Asks allowed

/-- Every handler of a chain makes permitted requests only. -/
def Chain.Asks (allowed : Request → Prop) (scene : Scene) (c : Chain) : Prop :=
  ∀ link ∈ c.links, ∀ node, (link.handler.render scene node).run.Asks allowed

/-- Every handler of a registry makes permitted requests only. -/
def Registry.Asks (allowed : Request → Prop) (scene : Scene) (r : Registry) : Prop :=
  ∀ type chain, r.chain? type = some chain → chain.Asks allowed scene

theorem Chain.Asks.inner {scene : Scene} {c inner : Chain} (h : c.Asks allowed scene)
    (hinner : c.inner? = some inner) : inner.Asks allowed scene := by
  obtain ⟨outer, beneath⟩ := c
  cases beneath with
  | nil => cases hinner
  | cons next rest =>
    cases hinner
    exact fun link hlink => h link (List.mem_cons_of_mem _ hlink)

/-- A relation between an earlier and a later state that permitted requests respect. Around a
handler's run the session puts in the handler's frame and takes it out again. -/
structure Discipline (session : Session σ) (allowed : Request → Prop)
    (R : State σ → State σ → Prop) : Prop where
  refl : ∀ s, R s s
  trans : ∀ {s t u}, R s t → R t u → R s u
  frame : ∀ {s t}, R s t → t.frame = s.frame
  write : ∀ {command}, allowed (.write command) → ∀ s,
    R s { s with writer := (s.writer.perform session.sink command).2 }
  suppress : ∀ n s, R s { s with suppression := n }
  note : ∀ notes s, R s { s with notes }
  call : ∀ {frame s t}, R (session.enter frame s) t →
    R s (Session.leave s.frame s.suppression t)

variable {session : Session σ} {R : State σ → State σ → Prop}

/-- The handler at work and those beneath it make permitted requests only. -/
def Sound (session : Session σ) (allowed : Request → Prop) (s : State σ) : Prop :=
  ∀ frame, s.frame = some frame → frame.chain.Asks allowed session.scene

/-- What a run does respects a relation, if it ends. -/
def Keeps (session : Session σ) (allowed : Request → Prop) (R : State σ → State σ → Prop)
    (m : Run σ α) : Prop :=
  ∀ ⦃s a t⦄, Sound session allowed s → m s = .ok (a, t) → R s t

theorem keeps_throw (i : Interrupt) : Keeps session allowed R (throw i : Run σ α) := by
  intro s _ t _ h
  cases h

namespace Discipline

variable (d : Discipline session allowed R)

include d

theorem keeps_pure (a : α) : Keeps session allowed R (Pure.pure a : Run σ α) := by
  intro s _ t _ h
  cases h
  exact d.refl s

theorem keeps_bind {m : Run σ α} {f : α → Run σ β} (hm : Keeps session allowed R m)
    (hf : ∀ a, Keeps session allowed R (f a)) : Keeps session allowed R (m >>= f) := by
  intro s b u hs h
  change (m s).bind (fun q => f q.1 q.2) = .ok (b, u) at h
  cases hfirst : m s with
  | error i =>
    rw [hfirst] at h
    cases h
  | ok q =>
    obtain ⟨a, t⟩ := q
    rw [hfirst] at h
    have hst := hm hs hfirst
    have ht : Sound session allowed t := by
      rw [Sound, d.frame hst]
      exact hs
    exact d.trans hst (hf a ht h)

variable {visit : Frame → Run σ Outcome}

theorem keeps_renderNode (hregistry : session.registry.Asks allowed session.scene)
    (hvisit : ∀ frame, frame.chain.Asks allowed session.scene →
      Keeps session allowed R (visit frame)) (node : Nat) :
    Keeps session allowed R (session.renderNode visit node) := by
  rw [Session.renderNode]
  cases session.scene.document.type? node with
  | none => exact keeps_throw _
  | some type =>
    cases hchain : session.registry.chain? type with
    | none =>
      simp only [hchain]
      exact d.keeps_pure _
    | some chain =>
      simp only [hchain]
      exact hvisit _ (hregistry type chain hchain)

theorem keeps_renderEach (hregistry : session.registry.Asks allowed session.scene)
    (hvisit : ∀ frame, frame.chain.Asks allowed session.scene →
      Keeps session allowed R (visit frame)) (nodes : List Nat) :
    Keeps session allowed R (session.renderEach visit nodes) := by
  induction nodes with
  | nil => exact d.keeps_pure _
  | cons node rest ih =>
    refine d.keeps_bind (d.keeps_renderNode hregistry hvisit node) fun outcome => ?_
    cases outcome with
    | ok _ => exact ih
    | error e => exact d.keeps_pure _

theorem keeps_delegate (hvisit : ∀ frame, frame.chain.Asks allowed session.scene →
    Keeps session allowed R (visit frame)) :
    Keeps session allowed R (Session.delegate visit) := by
  intro s outcome t hs h
  rw [Session.delegate_eq] at h
  cases hframe : s.frame with
  | none =>
    rw [hframe] at h
    exact d.keeps_pure _ hs h
  | some frame =>
    rw [hframe] at h
    cases hinner : frame.chain.inner? with
    | none =>
      simp only [hinner] at h
      exact d.keeps_pure _ hs h
    | some chain =>
      simp only [hinner] at h
      exact hvisit { frame with chain } ((hs frame hframe).inner hinner) hs h

theorem keeps_answer (hregistry : session.registry.Asks allowed session.scene)
    (hvisit : ∀ frame, frame.chain.Asks allowed session.scene →
      Keeps session allowed R (visit frame)) {request : Request} (hallowed : allowed request) :
    Keeps session allowed R (session.answer visit request) := by
  cases request with
  | write command =>
    intro s a t _ h
    cases h
    exact d.write hallowed s
  | render node => exact d.keeps_renderNode hregistry hvisit node
  | renderChildren node =>
    have hchoice : Keeps session allowed R (if node < session.scene.document.size then
        session.renderEach visit (session.scene.document.children node)
      else throw (.unknownNode node) : Run σ Outcome) := by
      split
      · exact d.keeps_renderEach hregistry hvisit _
      · exact keeps_throw _
    exact hchoice
  | delegate => exact d.keeps_delegate hvisit
  | suppressLinks =>
    intro s a t _ h
    cases h
    exact d.suppress _ s
  | allowLinks =>
    intro s a t _ h
    cases h
    exact d.suppress _ s
  | look =>
    intro s a t _ h
    cases h
    exact d.refl s
  | note n =>
    intro s a t _ h
    cases h
    exact d.note _ s

/-- Every program that makes permitted requests only keeps the discipline. -/
theorem keeps_run (hregistry : session.registry.Asks allowed session.scene)
    (hvisit : ∀ frame, frame.chain.Asks allowed session.scene →
      Keeps session allowed R (visit frame)) {p : Program α} (hp : p.Asks allowed) :
    Keeps session allowed R (p.run (session.answer visit)) := by
  induction p with
  | done a => exact d.keeps_pure a
  | ask request next ih =>
    exact d.keeps_bind (d.keeps_answer hregistry hvisit hp.1) fun answer => ih answer (hp.2 answer)

/-- However deep handlers nest, running one keeps the discipline. -/
theorem keeps_visit (hregistry : session.registry.Asks allowed session.scene) (depth : Nat)
    (frame : Frame) (hframe : frame.chain.Asks allowed session.scene) :
    Keeps session allowed R (session.visit depth frame) := by
  induction depth generalizing frame with
  | zero => exact keeps_throw _
  | succ depth ih =>
    intro s outcome t _ h
    rw [Session.visit_succ] at h
    cases hperform : session.perform (session.visit depth)
        (frame.chain.outer.handler.render session.scene frame.node) (session.enter frame s) with
    | error i =>
      rw [hperform] at h
      cases h
    | ok q =>
      obtain ⟨outcome, after⟩ := q
      rw [hperform] at h
      cases h
      have hentered : Sound session allowed (session.enter frame s) := by
        intro f hf
        obtain rfl := Option.some.inj hf
        exact hframe
      have hhandler := hframe frame.chain.outer (List.mem_cons_self ..) frame.node
      exact d.call (d.keeps_run hregistry ih hhandler hentered hperform)

theorem keeps_render (hregistry : session.registry.Asks allowed session.scene) (depth node : Nat) :
    Keeps session allowed R (session.render depth node) :=
  d.keeps_renderNode hregistry (d.keeps_visit hregistry depth) node

end Discipline

end DitaTopic.Render
