import DitaTopic.Proofs.Render.Perform

/-!
# What a handler starts

A session seen handler by handler: the requests that a handler makes, each with the state in which
it makes it, the frames that answering a request runs, and from these every handler that runs
below another one, in the order in which they start. A handler appears here as it is found before
it is entered.
-/

namespace DitaTopic.Render

variable {σ α β : Type}

/-- The requests that a program makes, each with the state it is made in, up to the first that is
not answered. -/
def Program.asked (answer : (r : Request) → Run σ r.Answer) :
    Program α → State σ → List (Request × State σ)
  | .done _, _ => []
  | .ask request next, s =>
    (request, s) ::
      match answer request s with
      | .ok (reply, t) => (next reply).asked answer t
      | .error _ => []

/-- The frame of the handler beneath, on the same node. -/
def Frame.beneath? (frame : Frame) : Option Frame :=
  frame.chain.inner?.map fun chain => { frame with chain }

/-- A handler that is about to be entered. -/
structure Start (σ : Type) where
  /-- How many handlers may nest inside this one. -/
  depth : Nat
  frame : Frame
  before : State σ

/-- The requests that call other handlers. -/
def Request.IsCall : Request → Prop
  | .render _ => True
  | .renderChildren _ => True
  | .delegate => True
  | _ => False

namespace Session

/-- The frame in which a node is rendered, if its type has a handler. -/
def frame? (session : Session σ) (node : Nat) : Option Frame :=
  (session.scene.document.type? node).bind fun type =>
    (session.registry.chain? type).map fun chain => ⟨node, type, chain⟩

/-- The frames that rendering nodes in turn runs, each with the state it is run in. -/
def framesOfEach (session : Session σ) (visit : Frame → Run σ Outcome) :
    List Nat → State σ → List (Frame × State σ)
  | [], _ => []
  | node :: rest, s =>
    ((session.frame? node).toList.map fun frame => (frame, s)) ++
      match session.renderNode visit node s with
      | .ok (.ok _, t) => framesOfEach session visit rest t
      | _ => []

/-- The frames that answering a request runs, each with the state it is run in. -/
def framesOf (session : Session σ) (visit : Frame → Run σ Outcome) :
    Request → State σ → List (Frame × State σ)
  | .render node, s => (session.frame? node).toList.map fun frame => (frame, s)
  | .renderChildren node, s =>
    if node < session.scene.document.size then
      session.framesOfEach visit (session.scene.document.children node) s
    else []
  | .delegate, s => (s.frame.bind Frame.beneath?).toList.map fun frame => (frame, s)
  | _, _ => []

/-- The requests of a handler. -/
def requests (session : Session σ) (start : Start σ) : List (Request × State σ) :=
  (start.frame.chain.outer.handler.render session.scene start.frame.node).run.asked
    (session.answer (session.visit start.depth)) (session.enter start.frame start.before)

/-- How a handler ends, before the session leaves it. -/
def result (session : Session σ) (start : Start σ) : Except Interrupt (Outcome × State σ) :=
  session.perform (session.visit start.depth)
    (start.frame.chain.outer.handler.render session.scene start.frame.node)
    (session.enter start.frame start.before)

/-- The handler of a frame and every handler that runs below it, in the order of their starts. -/
def starts (session : Session σ) : Nat → Frame → State σ → List (Start σ)
  | 0, _, _ => []
  | depth + 1, frame, s =>
    ⟨depth, frame, s⟩ :: (session.requests ⟨depth, frame, s⟩).flatMap fun p =>
      (session.framesOf (session.visit depth) p.1 p.2).flatMap fun q =>
        session.starts depth q.1 q.2

theorem mem_starts_succ {session : Session σ} {depth : Nat} {frame : Frame} {s : State σ}
    {start : Start σ} :
    start ∈ session.starts (depth + 1) frame s ↔ start = ⟨depth, frame, s⟩ ∨
      ∃ request ∈ session.requests ⟨depth, frame, s⟩,
        ∃ run ∈ session.framesOf (session.visit depth) request.1 request.2,
          start ∈ session.starts depth run.1 run.2 := by
  rw [starts, List.mem_cons, List.mem_flatMap]
  simp only [List.mem_flatMap]

/-- Every handler that runs when a request is answered. -/
def startsOf (session : Session σ) (depth : Nat) (request : Request) (s : State σ) :
    List (Start σ) :=
  (session.framesOf (session.visit depth) request s).flatMap fun q => session.starts depth q.1 q.2

/-- The handlers that run while a program is performed, in the order of their starts. -/
def startsIn (session : Session σ) (depth : Nat) (p : Rendering α) (s : State σ) :
    List (Start σ) :=
  (p.run.asked (session.answer (session.visit depth)) s).flatMap fun q =>
    session.startsOf depth q.1 q.2

/-- Rendering a node runs its frame, if it has one. -/
theorem renderNode_eq (session : Session σ) (visit : Frame → Run σ Outcome) (node : Nat)
    (s : State σ) :
    session.renderNode visit node s =
      match session.scene.document.type? node with
      | none => .error (.unknownNode node)
      | some type =>
        match session.frame? node with
        | none => .ok (.error (.noHandler type), s)
        | some frame => visit frame s := by
  rw [renderNode, frame?]
  cases session.scene.document.type? node with
  | none => rfl
  | some type =>
    rw [Option.bind_some]
    cases hchain : session.registry.chain? type with
    | none =>
      simp only [hchain, Option.map_none]
      rfl
    | some chain => simp only [hchain, Option.map_some]

/-- Rendering a node fails to find it, fails to find a handler, or runs its frame. -/
theorem renderNode_cases (session : Session σ) (visit : Frame → Run σ Outcome) (node : Nat)
    (s : State σ) :
    (session.scene.document.type? node = none ∧
        session.renderNode visit node s = .error (.unknownNode node)) ∨
      (∃ type, session.renderNode visit node s = .ok (.error (.noHandler type), s)) ∨
      ∃ frame, session.frame? node = some frame ∧
        session.renderNode visit node s = visit frame s := by
  rw [renderNode_eq]
  cases htype : session.scene.document.type? node with
  | none => exact .inl ⟨rfl, rfl⟩
  | some type =>
    cases hframe : session.frame? node with
    | none => exact .inr (.inl ⟨type, rfl⟩)
    | some frame => exact .inr (.inr ⟨frame, rfl, rfl⟩)

/-- Delegating finds no handler beneath, or runs its frame. -/
theorem delegate_cases (visit : Frame → Run σ Outcome) (s : State σ) :
    (∃ outcome, delegate visit s = .ok (outcome, s)) ∨
      ∃ frame inner, s.frame = some frame ∧ frame.beneath? = some inner ∧
        delegate visit s = visit inner s := by
  rw [delegate_eq]
  cases hframe : s.frame with
  | none => exact .inl ⟨.ok (), rfl⟩
  | some frame =>
    cases hinner : frame.chain.inner? with
    | none => exact .inl ⟨.error (.noHandler frame.type), by simp only [hinner]⟩
    | some chain =>
      refine .inr ⟨frame, { frame with chain }, rfl, ?_, by simp only [hinner]⟩
      rw [Frame.beneath?, hinner, Option.map_some]

theorem frame?_eq_some {session : Session σ} {node : Nat} {frame : Frame}
    (h : session.frame? node = some frame) :
    frame.node = node ∧ session.scene.document.type? node = some frame.type ∧
      session.registry.chain? frame.type = some frame.chain := by
  obtain ⟨type, htype, hmap⟩ := Option.bind_eq_some_iff.mp h
  obtain ⟨chain, hchain, rfl⟩ := Option.map_eq_some_iff.mp hmap
  exact ⟨rfl, htype, hchain⟩

/-- A frame that has been run is left in the state in which its handler ended. -/
theorem exists_result {session : Session σ} {depth : Nat} {frame : Frame} {s t : State σ}
    {outcome : Outcome} (h : session.visit (depth + 1) frame s = .ok (outcome, t)) :
    ∃ after, session.result ⟨depth, frame, s⟩ = .ok (outcome, after) ∧
      t = leave s.frame s.suppression after := by
  rw [visit_succ] at h
  cases hresult : session.result ⟨depth, frame, s⟩ with
  | error i =>
    rw [result] at hresult
    rw [hresult] at h
    cases h
  | ok q =>
    rw [result] at hresult
    rw [hresult] at h
    cases h
    exact ⟨q.2, rfl, rfl⟩

end Session

/-! ### Programs that go on where others end -/

theorem Program.asked_bind (answer : (r : Request) → Run σ r.Answer) (p : Program α)
    (f : α → Program β) (s : State σ) :
    (p.bind f).asked answer s = p.asked answer s ++
      match p.run answer s with
      | .ok (a, t) => (f a).asked answer t
      | .error _ => [] := by
  induction p generalizing s with
  | done a => rfl
  | ask request next ih =>
    have hrun : (ask request next).run answer s =
        (answer request s).bind fun q => (next q.1).run answer q.2 := rfl
    rw [bind, asked, asked, hrun]
    cases answer request s with
    | error i => rfl
    | ok q => exact congrArg _ (ih q.1 q.2)

namespace Session

variable (session : Session σ) (depth : Nat)

/-- After the requests of a program that succeeds come those of the program behind it. -/
theorem asked_bind (visit : Frame → Run σ Outcome) (p : Rendering α) (f : α → Rendering β)
    (s : State σ) :
    (p >>= f).run.asked (session.answer visit) s = p.run.asked (session.answer visit) s ++
      match session.perform visit p s with
      | .ok (.ok a, t) => (f a).run.asked (session.answer visit) t
      | _ => [] := by
  show (Program.bind p.run (ExceptT.bindCont f)).asked _ s = _
  rw [Program.asked_bind]
  congr 1
  show _ = match Program.run (session.answer visit) p.run s with
    | .ok (.ok a, t) => (f a).run.asked (session.answer visit) t
    | _ => []
  cases Program.run (session.answer visit) p.run s with
  | error i => rfl
  | ok q =>
    obtain ⟨outcome, t⟩ := q
    cases outcome <;> rfl

/-- After the handlers of a program that succeeds come those of the program behind it. -/
theorem startsIn_bind (p : Rendering α) (f : α → Rendering β) (s : State σ) :
    session.startsIn depth (p >>= f) s = session.startsIn depth p s ++
      match session.perform (session.visit depth) p s with
      | .ok (.ok a, t) => session.startsIn depth (f a) t
      | _ => [] := by
  rw [startsIn, asked_bind, List.flatMap_append]
  congr 1
  cases session.perform (session.visit depth) p s with
  | error i => rfl
  | ok q =>
    obtain ⟨outcome, t⟩ := q
    cases outcome <;> rfl

theorem asked_request (visit : Frame → Run σ Outcome) (r : Request) (s : State σ) :
    (Program.request r).asked (session.answer visit) s = [(r, s)] := by
  rw [Program.request, Program.asked]
  cases session.answer visit r s <;> rfl

/-- A request that always succeeds. -/
theorem asked_lift (visit : Frame → Run σ Outcome) (r : Request) (s : State σ) :
    (ExceptT.lift (Program.request r) : Rendering r.Answer).run.asked (session.answer visit) s =
      [(r, s)] := by
  show Program.asked _ (.ask r fun reply => .done (Except.ok reply)) s = _
  rw [Program.asked]
  cases session.answer visit r s <;> rfl

theorem startsIn_node (id : Nat) (s : State σ) :
    session.startsIn depth (Rendering.node id) s = session.startsOf depth (.render id) s := by
  show ((Program.request (.render id)).asked _ s).flatMap _ = _
  rw [asked_request, List.flatMap_singleton]

/-- The handlers of a node's children are those of the programs that render each of them. -/
theorem startsIn_childrenOf {id : Nat} (inside : id < session.scene.document.size) (s : State σ) :
    session.startsIn depth (Rendering.childrenOf id) s =
      session.startsIn depth (Rendering.nodes (session.scene.document.children id)) s := by
  show ((Program.request (.renderChildren id)).asked _ s).flatMap _ = _
  rw [asked_request, List.flatMap_singleton]
  show (if _ then _ else []).flatMap _ = _
  rw [if_pos inside]
  generalize session.scene.document.children id = ids
  induction ids generalizing s with
  | nil => rfl
  | cons c rest ih =>
    rw [framesOfEach, List.flatMap_append, Rendering.nodes, startsIn_bind, startsIn_node]
    congr 1
    rw [perform_node]
    cases session.renderNode (session.visit depth) c s with
    | error i => rfl
    | ok q =>
      obtain ⟨outcome, t⟩ := q
      cases outcome with
      | error e => rfl
      | ok _ => exact ih t

theorem exists_frame {session : Session σ} {visit : Frame → Run σ Outcome} {id : Nat}
    {s t : State σ} (h : session.renderNode visit id s = .ok (.ok (), t)) :
    ∃ frame, session.frame? id = some frame ∧ visit frame s = .ok (.ok (), t) := by
  obtain ⟨-, heq⟩ | ⟨type, heq⟩ | ⟨frame, hframe, heq⟩ := session.renderNode_cases visit id s
  · rw [heq] at h
    cases h
  · rw [heq] at h
    cases h
  · exact ⟨frame, hframe, heq.symm.trans h⟩

/-- A node that is rendered without a failure has a frame, whose handler is the first that runs. -/
theorem exists_start {session : Session σ} {depth id : Nat} {s t : State σ}
    (h : session.renderNode (session.visit depth) id s = .ok (.ok (), t)) :
    ∃ below frame after, depth = below + 1 ∧ session.frame? id = some frame ∧
      session.result ⟨below, frame, s⟩ = .ok (.ok (), after) ∧
      t = leave s.frame s.suppression after ∧
      session.startsOf depth (.render id) s = ⟨below, frame, s⟩ ::
        session.startsIn below (frame.chain.outer.handler.render session.scene frame.node)
          (session.enter frame s) := by
  obtain ⟨frame, hframe, hvisit⟩ := exists_frame h
  cases depth with
  | zero => cases hvisit
  | succ below =>
    obtain ⟨after, hresult, hleave⟩ := exists_result hvisit
    refine ⟨below, frame, after, rfl, hframe, hresult, hleave, ?_⟩
    rw [startsOf, framesOf, hframe]
    exact List.append_nil _

/-- Nodes that are all rendered without a failure have their frames run one after the other. -/
theorem nodes_framesOfEach {session : Session σ} {visit : Frame → Run σ Outcome} {ids : List Nat}
    {s t : State σ} (h : session.renderEach visit ids s = .ok (.ok (), t)) :
    (session.framesOfEach visit ids s).map (fun q => q.1.node) = ids := by
  induction ids generalizing s with
  | nil => rfl
  | cons id rest ih =>
    rw [renderEach_cons] at h
    rw [framesOfEach]
    cases hnode : session.renderNode visit id s with
    | error i =>
      rw [hnode] at h
      cases h
    | ok q =>
      obtain ⟨outcome, u⟩ := q
      rw [hnode] at h
      cases outcome with
      | error e => cases h
      | ok _ =>
        obtain ⟨frame, hframe, -⟩ := exists_frame hnode
        rw [hframe, List.map_append, ih h]
        exact congrArg (· :: rest) (frame?_eq_some hframe).1

end Session

end DitaTopic.Render
