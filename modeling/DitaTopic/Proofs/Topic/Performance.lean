import DitaTopic.Proofs.Render.Perform
import DitaTopic.Proofs.Topic.Strokes

/-!
# Programs that make strokes

When performing a program has the same effect as playing strokes. `CarriesAt` says so for one
state; `Carries` says it for every state with a given link suppression, marks left alone. Both
hold for every sink, so nothing is assumed about which events are taken up.
-/

namespace DitaTopic.Topic

open DitaTopic.Markup
open DitaTopic.Render

variable {σ α β : Type} (session : Session σ) (visit : Frame → Run σ Outcome)

/-- Performing a program from a state comes to playing strokes at the writer, except that a program
that fails may leave another suppression. `left` are the marks after all strokes. -/
def CarriesAt (s : State σ) (marks : Marks) (p : Rendering Unit) (ss : List Stroke)
    (left : Marks) : Prop :=
  ∃ k, session.perform visit p s =
      .ok ((play session.sink ss ⟨s.writer, marks⟩).1,
        { s with
          writer := (play session.sink ss ⟨s.writer, marks⟩).2.writer
          suppression := k }) ∧
    ((play session.sink ss ⟨s.writer, marks⟩).1 = .ok () →
      k = s.suppression ∧ (play session.sink ss ⟨s.writer, marks⟩).2.marks = left)

/-- Performing a program comes to playing strokes wherever `k` regions without links are around. -/
def Carries (k : Nat) (p : Rendering Unit) (ss : List Stroke) : Prop :=
  ∀ (s : State σ) (marks : Marks), s.suppression = k → CarriesAt session visit s marks p ss marks

/-- Performing a program comes to carrying out calls. -/
def Calls (p : Rendering Unit) (commands : List Command) : Prop :=
  ∀ s : State σ, session.perform visit p s =
    .ok ((s.writer.performAll session.sink commands).1.mapError .writeFailure,
      { s with writer := (s.writer.performAll session.sink commands).2 })

variable {session visit}

theorem perform_assoc (p : Rendering α) (g : α → Rendering β) (f : β → Rendering Unit)
    (s : State σ) :
    session.perform visit ((p >>= g) >>= f) s =
      session.perform visit (p >>= fun a => g a >>= f) s := by
  rw [Session.perform_bind, Session.perform_bind, Session.perform_bind]
  cases session.perform visit p s with
  | error i => rfl
  | ok q =>
    obtain ⟨outcome, s'⟩ := q
    cases outcome with
    | error e => rfl
    | ok a => exact (Session.perform_bind session visit (g a) f s').symm

theorem perform_congr (p : Rendering α) {f g : α → Rendering Unit}
    (h : ∀ a s, session.perform visit (f a) s = session.perform visit (g a) s) (s : State σ) :
    session.perform visit (p >>= f) s = session.perform visit (p >>= g) s := by
  rw [Session.perform_bind, Session.perform_bind]
  cases session.perform visit p s with
  | error i => rfl
  | ok q =>
    obtain ⟨outcome, s'⟩ := q
    cases outcome with
    | error e => rfl
    | ok a => exact h a s'

theorem calls_write (command : Command) :
    Calls session visit (Rendering.write command) [command] := by
  intro s
  rw [Session.perform_write, Writer.performAll]
  cases s.writer.perform session.sink command with
  | mk verdict w => cases verdict <;> rfl

theorem Calls.seq {p : Rendering Unit} {f : Unit → Rendering Unit} {first second : List Command}
    (hp : Calls session visit p first) (hf : Calls session visit (f ()) second) :
    Calls session visit (p >>= f) (first ++ second) := by
  intro s
  rw [Session.perform_bind, hp s, Writer.performAll_append]
  cases s.writer.performAll session.sink first with
  | mk verdict w =>
    cases verdict with
    | ok _ => exact hf { s with writer := w }
    | error e => rfl

theorem calls_finishMany (n : Nat) :
    Calls session visit (Rendering.finishMany n) (List.replicate n .finish) := by
  induction n with
  | zero => exact fun _ => rfl
  | succ n ih => exact (calls_write .finish).seq ih

namespace CarriesAt

variable {s : State σ} {marks mid left : Marks} {ss first second : List Stroke}

theorem pure_nil : CarriesAt session visit s marks (pure ()) [] marks :=
  ⟨s.suppression, rfl, fun _ => ⟨rfl, rfl⟩⟩

theorem of_calls {p : Rendering Unit} (stroke : Stroke)
    (hp : Calls session visit p (stroke.commands s.writer.openElements marks))
    (hv : stroke.verdict = .ok ()) :
    CarriesAt session visit s marks p [stroke]
      (stroke.marksAfter s.writer.openElements marks) := by
  refine ⟨s.suppression, ?_, ?_⟩
  all_goals rw [play_singleton, Stroke.make]
  · rw [hp s, hv]
    cases s.writer.performAll session.sink (stroke.commands s.writer.openElements marks) with
    | mk verdict w => cases verdict <;> rfl
  · exact fun _ => ⟨rfl, rfl⟩

/-- Where the first program has made its strokes, the state differs only in the writer. -/
theorem seq {p : Rendering Unit} {f : Unit → Rendering Unit}
    (hp : CarriesAt session visit s marks p first mid)
    (hf : ∀ w, play session.sink first ⟨s.writer, marks⟩ = (.ok (), ⟨w, mid⟩) →
      CarriesAt session visit { s with writer := w } mid (f ()) second left) :
    CarriesAt session visit s marks (p >>= f) (first ++ second) left := by
  obtain ⟨k, hperform, hok⟩ := hp
  rw [CarriesAt, Session.perform_bind, hperform, play_append]
  cases hplay : play session.sink first ⟨s.writer, marks⟩ with
  | mk outcome d =>
    rw [hplay] at hok
    cases outcome with
    | error e => exact ⟨k, rfl, fun h => by cases h⟩
    | ok _ =>
      obtain ⟨rfl, rfl⟩ := hok rfl
      exact hf d.writer hplay

theorem congr {p q : Rendering Unit} (h : CarriesAt session visit s marks p ss left)
    (heq : session.perform visit q s = session.perform visit p s) :
    CarriesAt session visit s marks q ss left := by
  rwa [CarriesAt, heq]

theorem look {f : View → Rendering Unit}
    (h : CarriesAt session visit s marks (f s.view) ss left) :
    CarriesAt session visit s marks (Rendering.look >>= f) ss left := by
  rwa [CarriesAt, Session.perform_bind_of_ok session visit (Session.perform_look session visit s)]

end CarriesAt

namespace Carries

variable {k : Nat} {first second : List Stroke}

theorem pure_nil : Carries session visit k (pure ()) [] :=
  fun _ _ _ => CarriesAt.pure_nil

theorem seq {p : Rendering Unit} {f : Unit → Rendering Unit}
    (hp : Carries session visit k p first) (hf : Carries session visit k (f ()) second) :
    Carries session visit k (p >>= f) (first ++ second) :=
  fun s marks hs => (hp s marks hs).seq fun w _ => hf { s with writer := w } marks hs

theorem start (name : String) (attributes : Attributes) :
    Carries session visit k (Rendering.start name attributes) [.start name attributes] :=
  fun _ _ _ => CarriesAt.of_calls (.start name attributes) (calls_write _) rfl

theorem finish : Carries session visit k Rendering.finish [.finish] :=
  fun _ _ _ => CarriesAt.of_calls .finish (calls_write _) rfl

theorem characters (text : String) :
    Carries session visit k (Rendering.characters text) [.characters text] :=
  fun _ _ _ => CarriesAt.of_calls (.characters text) (calls_write _) rfl

theorem instruction (target : String) (data : Option String) :
    Carries session visit k (Rendering.instruction target data) [.instruction target data] :=
  fun _ _ _ => CarriesAt.of_calls (.instruction target data) (calls_write _) rfl

theorem element {content : Rendering Unit} {inside : List Stroke}
    (h : Carries session visit k content inside) (name : String) (attributes : Attributes) :
    Carries session visit k (Rendering.element name attributes content)
      (around name attributes inside) :=
  (start name attributes).seq (h.seq finish)

/-- A region without links counts for the strokes inside it and is over after them. -/
theorem withoutLinks {p : Rendering Unit} {inside : List Stroke}
    (h : Carries session visit (k + 1) p inside) :
    Carries session visit k
      (Rendering.suppressLinks >>= fun _ => p >>= fun _ => Rendering.allowLinks) inside := by
  intro s marks hs
  obtain ⟨k', hperform, hok⟩ :=
    h { s with suppression := s.suppression + 1 } marks (congrArg (· + 1) hs)
  rw [CarriesAt, Session.perform_bind_of_ok session visit
    (Session.perform_suppressLinks session visit s), Session.perform_bind, hperform]
  cases hplay : play session.sink inside ⟨s.writer, marks⟩ with
  | mk outcome d =>
    rw [hplay] at hok
    cases outcome with
    | error e => exact ⟨k', rfl, fun h => by cases h⟩
    | ok _ =>
      obtain ⟨rfl, rfl⟩ := hok rfl
      exact ⟨s.suppression, rfl, fun _ => ⟨rfl, rfl⟩⟩

theorem nodes {strokesOf : Nat → List Stroke} (ids : List Nat)
    (h : ∀ id ∈ ids, Carries session visit k (Rendering.node id) (strokesOf id)) :
    Carries session visit k (Rendering.nodes ids) (ids.flatMap strokesOf) := by
  induction ids with
  | nil => exact pure_nil
  | cons id rest ih =>
    rw [List.flatMap_cons]
    exact (h id (List.mem_cons_self ..)).seq (ih fun c hc => h c (List.mem_cons_of_mem _ hc))

theorem childrenOf {strokesOf : Nat → List Stroke} {id : Nat}
    (inside : id < session.scene.document.size)
    (h : ∀ c ∈ session.scene.document.children id,
      Carries session visit k (Rendering.node c) (strokesOf c)) :
    Carries session visit k (Rendering.childrenOf id)
      ((session.scene.document.children id).flatMap strokesOf) := by
  intro s marks hs
  rw [CarriesAt, Session.perform_childrenOf session visit inside, Session.renderEach_eq_perform]
  exact nodes _ h s marks hs

end Carries

end DitaTopic.Topic
