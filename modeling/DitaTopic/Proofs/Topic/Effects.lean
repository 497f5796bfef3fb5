import DitaTopic.Proofs.Render.Starts
import DitaTopic.Proofs.Topic.LinkPlaces

/-!
# Effects of programs on a recorder

What performing a program adds to a session on a recorder, as far as links and images go: the
starts of links that are recorded, and the handlers of links and images that run, each with the
suppression it starts with. The laws follow the construction of programs. They speak of programs
that succeed only; nothing is said about what a failing one leaves.
-/

namespace DitaTopic.Topic

open DitaTopic.Document (NodeKind NodeType)
open DitaTopic.Markup
open DitaTopic.Render

/-- What a recorder holds. -/
def log (s : State (Array MarkupEvent)) : List MarkupEvent := s.writer.sink.toList

variable {α β : Type} {session : Session (Array MarkupEvent)} {settings : Settings}

/-- The links and images whose handlers run, each with the suppression before its handler. -/
def placesOf (session : Session (Array MarkupEvent))
    (starts : List (Start (Array MarkupEvent))) : List (Nat × Nat) :=
  (starts.filter fun start => session.scene.document.concernsLinks start.frame.node).map
    fun start => (start.frame.node, start.before.suppression)

theorem placesOf_cons (session : Session (Array MarkupEvent)) (start : Start (Array MarkupEvent))
    (rest : List (Start (Array MarkupEvent))) :
    placesOf session (start :: rest) =
      (if session.scene.document.concernsLinks start.frame.node
        then [(start.frame.node, start.before.suppression)] else []) ++ placesOf session rest := by
  rw [placesOf, List.filter_cons]
  cases session.scene.document.concernsLinks start.frame.node <;> rfl

/-- A handler on a visited node that has run to its end in a session whose recorder holds `events`
later on: it starts with the suppression at its node and with enough depth for everything below
it, and it has written the links of its subtree. -/
structure Rendered (session : Session (Array MarkupEvent)) (settings : Settings)
    (events : List MarkupEvent) (start : Start (Array MarkupEvent)) : Prop where
  found : session.frame? start.frame.node = some start.frame
  visited : start.frame.node ∈ session.scene.document.visited
  suppression : start.before.suppression =
    session.scene.document.suppressionAt session.scene.settings.documentSuppression
      start.frame.node
  deep : session.scene.document.size ≤ start.depth + 1 + start.frame.node
  run : ∃ after written later, session.result start = .ok (.ok (), after) ∧
    log after = log start.before ++ written ∧ events = log after ++ later ∧
    written.filter MarkupEvent.isLink =
      linksFrom settings session.scene.settings.documentSuppression session.scene.document
        start.frame.node

theorem Rendered.later {events : List MarkupEvent} {start : Start (Array MarkupEvent)}
    (h : Rendered session settings events start) (more : List MarkupEvent) :
    Rendered session settings (events ++ more) start := by
  obtain ⟨after, written, later, hresult, hlog, hevents, hlinks⟩ := h.run
  refine ⟨h.found, h.visited, h.suppression, h.deep, after, written, later ++ more, hresult, hlog, ?_,
    hlinks⟩
  rw [hevents, List.append_assoc]

/-- A program has been performed from one state to another. -/
structure Effect (session : Session (Array MarkupEvent)) (settings : Settings) (depth : Nat)
    (p : Rendering α) (s t : State (Array MarkupEvent)) (places : List (Nat × Nat))
    (links : List MarkupEvent) : Prop where
  written : ∃ events, log t = log s ++ events ∧ events.filter MarkupEvent.isLink = links
  places : placesOf session (session.startsIn depth p s) = places
  rendered : ∀ start ∈ session.startsIn depth p s, Rendered session settings (log t) start

/-- Wherever `k` regions without links are around, a program that succeeds has an effect, and as
many regions are around after it. -/
def Renders (session : Session (Array MarkupEvent)) (settings : Settings) (depth k : Nat)
    (p : Rendering α) (places : List (Nat × Nat)) (links : List MarkupEvent) : Prop :=
  ∀ ⦃s a t⦄, s.suppression = k →
    session.perform (session.visit depth) p s = .ok (.ok a, t) →
      t.suppression = k ∧ Effect session settings depth p s t places links

variable {depth k : Nat} {places more : List (Nat × Nat)} {links others : List MarkupEvent}

theorem Effect.of_silent {p : Rendering α} {s t : State (Array MarkupEvent)}
    (hwritten : ∃ events, log t = log s ++ events ∧ events.filter MarkupEvent.isLink = links)
    (hstarts : session.startsIn depth p s = []) :
    Effect session settings depth p s t [] links := by
  refine ⟨hwritten, ?_, ?_⟩
  · rw [hstarts, placesOf, List.filter_nil, List.map_nil]
  · intro start hstart
    rw [hstarts] at hstart
    exact absurd hstart List.not_mem_nil

theorem Effect.bind {p : Rendering α} {f : α → Rendering β} {s u t : State (Array MarkupEvent)}
    {a : α} (hperform : session.perform (session.visit depth) p s = .ok (.ok a, u))
    (hp : Effect session settings depth p s u places links)
    (hf : Effect session settings depth (f a) u t more others) :
    Effect session settings depth (p >>= f) s t (places ++ more) (links ++ others) := by
  obtain ⟨first, hfirst, hlinks⟩ := hp.written
  obtain ⟨second, hsecond, hothers⟩ := hf.written
  have hstarts : session.startsIn depth (p >>= f) s =
      session.startsIn depth p s ++ session.startsIn depth (f a) u := by
    rw [Session.startsIn_bind, hperform]
  refine ⟨⟨first ++ second, ?_, ?_⟩, ?_, ?_⟩
  · rw [hsecond, hfirst, List.append_assoc]
  · rw [List.filter_append, hlinks, hothers]
  · rw [hstarts, placesOf, List.filter_append, List.map_append, ← hp.places, ← hf.places]
    rfl
  · intro start hstart
    rw [hstarts] at hstart
    rcases List.mem_append.mp hstart with hstart | hstart
    · rw [hsecond]
      exact (hp.rendered start hstart).later second
    · exact hf.rendered start hstart

namespace Renders

theorem pure (a : α) : Renders session settings depth k (Pure.pure a : Rendering α) [] [] := by
  intro s b t hs h
  cases h
  exact ⟨hs, .of_silent ⟨[], (List.append_nil _).symm, rfl⟩ rfl⟩

theorem bind {p : Rendering α} {f : α → Rendering β}
    (hp : Renders session settings depth k p places links)
    (hf : ∀ a, Renders session settings depth k (f a) more others) :
    Renders session settings depth k (p >>= f) (places ++ more) (links ++ others) := by
  intro s b t hs h
  rw [Session.perform_bind] at h
  cases hperform : session.perform (session.visit depth) p s with
  | error i =>
    rw [hperform] at h
    cases h
  | ok q =>
    obtain ⟨outcome, u⟩ := q
    rw [hperform] at h
    cases outcome with
    | error e => cases h
    | ok a =>
      obtain ⟨hu, hfirst⟩ := hp hs hperform
      obtain ⟨ht, hsecond⟩ := hf a hu h
      exact ⟨ht, hfirst.bind hperform hsecond⟩

/-- The starts of links that a call may write. -/
def linksOf : Command → List MarkupEvent
  | .start name attributes => if name = "xref" then [.startElement name attributes] else []
  | _ => []

theorem filter_events {command : Command} (h : command.keepsNesting = true)
    (openElements : List String) :
    (command.events openElements).filter MarkupEvent.isLink = linksOf command := by
  cases command with
  | start name attributes =>
    by_cases hname : name = "xref" <;>
      simp [Command.events, linksOf, MarkupEvent.isLink, hname]
  | finish => cases openElements <;> rfl
  | finishNamed name => cases h
  | close =>
    rw [Command.events, List.filter_eq_nil_iff.mpr]
    · rfl
    · intro event hevent
      obtain ⟨name, -, rfl⟩ := List.mem_map.mp hevent
      exact Bool.false_ne_true
  | _ => rfl

theorem write (hsink : session.sink = Sink.recorder) {command : Command}
    (hnesting : command.keepsNesting = true) :
    Renders session settings depth k (Rendering.write command) [] (linksOf command) := by
  intro s a t hs h
  rw [Session.perform_write] at h
  have hdelivers := Writer.delivers_perform session.sink s.writer hnesting
  rw [hsink] at hdelivers h
  rw [hdelivers.accepted (Sink.recorder_accepts _ _)] at h
  cases h
  exact ⟨hs, .of_silent ⟨_, Sink.toList_after_recorder _ _, filter_events hnesting _⟩ rfl⟩

theorem start (hsink : session.sink = Sink.recorder) {name : String} (hname : name ≠ "xref")
    (attributes : Attributes) :
    Renders session settings depth k (Rendering.start name attributes) [] [] := by
  have hwrite : Renders session settings depth k (Rendering.start name attributes) []
      (linksOf (.start name attributes)) := write hsink rfl
  rwa [linksOf, if_neg hname] at hwrite

theorem finish (hsink : session.sink = Sink.recorder) :
    Renders session settings depth k Rendering.finish [] [] :=
  write hsink rfl

theorem characters (hsink : session.sink = Sink.recorder) (text : String) :
    Renders session settings depth k (Rendering.characters text) [] [] :=
  write hsink rfl

theorem instruction (hsink : session.sink = Sink.recorder) (target : String)
    (data : Option String) :
    Renders session settings depth k (Rendering.instruction target data) [] [] :=
  write hsink rfl

theorem finishMany (hsink : session.sink = Sink.recorder) (n : Nat) :
    Renders session settings depth k (Rendering.finishMany n) [] [] := by
  induction n with
  | zero => exact pure ()
  | succ n ih => exact (finish hsink).bind fun _ => ih

/-- An element that is no link adds nothing to what its content does. -/
theorem element (hsink : session.sink = Sink.recorder) {content : Rendering Unit}
    (h : Renders session settings depth k content places links) {name : String}
    (hname : name ≠ "xref") (attributes : Attributes) :
    Renders session settings depth k (Rendering.element name attributes content) places links := by
  have hall := (start hsink hname attributes).bind fun _ => h.bind fun _ => finish hsink
  rwa [List.append_nil, List.append_nil] at hall

theorem look {f : View → Rendering α}
    (h : ∀ v : View, v.suppression = k →
      Renders session settings depth k (f v) places links) :
    Renders session settings depth k (Rendering.look >>= f) places links := by
  intro s a t hs hperform
  have hlook := Session.perform_look session (session.visit depth) s
  rw [Session.perform_bind_of_ok session _ hlook] at hperform
  have hsilent : Effect session settings depth Rendering.look s s [] [] :=
    .of_silent ⟨[], (List.append_nil _).symm, rfl⟩ rfl
  obtain ⟨ht, heffect⟩ := h s.view hs hs hperform
  exact ⟨ht, hsilent.bind hlook heffect⟩

/-- A region without links counts inside it and is over after it. -/
theorem withoutLinks {p : Rendering Unit}
    (h : Renders session settings depth (k + 1) p places links) :
    Renders session settings depth k
      (Rendering.suppressLinks >>= fun _ => p >>= fun _ => Rendering.allowLinks) places links := by
  intro s a t hs hperform
  have hsuppress := Session.perform_suppressLinks session (session.visit depth) s
  rw [Session.perform_bind_of_ok session _ hsuppress, Session.perform_bind] at hperform
  cases hp : session.perform (session.visit depth) p { s with suppression := s.suppression + 1 } with
  | error i =>
    rw [hp] at hperform
    cases hperform
  | ok q =>
    obtain ⟨outcome, u⟩ := q
    rw [hp] at hperform
    cases outcome with
    | error e => cases hperform
    | ok _ =>
      obtain ⟨hu, heffect⟩ := h (congrArg (· + 1) hs) hp
      cases hperform
      have henter : Effect session settings depth Rendering.suppressLinks s
          { s with suppression := s.suppression + 1 } [] [] :=
        .of_silent ⟨[], (List.append_nil _).symm, rfl⟩ rfl
      have hleave : Effect session settings depth Rendering.allowLinks u
          { u with suppression := u.suppression - 1 } [] [] :=
        .of_silent ⟨[], (List.append_nil _).symm, rfl⟩ rfl
      have hinner := heffect.bind (f := fun _ => Rendering.allowLinks) hp hleave
      have hall := henter.bind (f := fun _ => p >>= fun _ => Rendering.allowLinks) hsuppress hinner
      rw [List.nil_append, List.nil_append, List.append_nil, List.append_nil] at hall
      exact ⟨congrArg (· - 1) hu, hall⟩

theorem elim {placesAt : Nat → List (Nat × Nat)} {linksAt : Nat → List MarkupEvent}
    {f : Nat → Rendering Unit} (o : Option Nat)
    (h : ∀ c, o = some c → Renders session settings depth k (f c) (placesAt c) (linksAt c)) :
    Renders session settings depth k (o.elim (Pure.pure ()) f) (o.toList.flatMap placesAt)
      (o.toList.flatMap linksAt) := by
  cases o with
  | none => exact pure ()
  | some c =>
    rw [Option.toList_some, List.flatMap_singleton, List.flatMap_singleton]
    exact h c rfl

theorem nodes {placesAt : Nat → List (Nat × Nat)} {linksAt : Nat → List MarkupEvent}
    (ids : List Nat)
    (h : ∀ c ∈ ids,
      Renders session settings depth k (Rendering.node c) (placesAt c) (linksAt c)) :
    Renders session settings depth k (Rendering.nodes ids) (ids.flatMap placesAt)
      (ids.flatMap linksAt) := by
  induction ids with
  | nil => exact pure ()
  | cons c rest ih =>
    rw [List.flatMap_cons, List.flatMap_cons]
    exact (h c List.mem_cons_self).bind fun _ => ih fun d hd => h d (List.mem_cons_of_mem _ hd)

theorem childrenOf {placesAt : Nat → List (Nat × Nat)} {linksAt : Nat → List MarkupEvent}
    {id : Nat} (inside : id < session.scene.document.size)
    (h : ∀ c ∈ session.scene.document.children id,
      Renders session settings depth k (Rendering.node c) (placesAt c) (linksAt c)) :
    Renders session settings depth k (Rendering.childrenOf id)
      ((session.scene.document.children id).flatMap placesAt)
      ((session.scene.document.children id).flatMap linksAt) := by
  intro s a t hs hperform
  rw [Session.perform_childrenOf session _ inside, Session.renderEach_eq_perform] at hperform
  obtain ⟨ht, heffect⟩ := nodes _ h hs hperform
  refine ⟨ht, heffect.written, ?_, ?_⟩
  · rw [Session.startsIn_childrenOf session depth inside]
    exact heffect.places
  · rw [Session.startsIn_childrenOf session depth inside]
    exact heffect.rendered

end Renders

end DitaTopic.Topic
