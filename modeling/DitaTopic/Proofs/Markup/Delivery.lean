import DitaTopic.Markup.Writer
import DitaTopic.Proofs.Markup.Nesting

/-!
# Delivery

What calls on a writer offer to a sink, whatever the sink does. Where no event is rejected, the
events, the verdict and the open elements do not depend on the sink. At the first rejection the
calls end with the sink's complaint, and nothing but ends of open elements is offered after it.
-/

namespace DitaTopic.Markup

variable {σ ε : Type}

namespace Sink

/-- The state of a sink after it was offered events. -/
def after (sink : Sink σ) (events : List MarkupEvent) (s : σ) : σ := (sink.offerAll events s).2

/-- A sink takes up all of the events. -/
def Accepts (sink : Sink σ) (events : List MarkupEvent) (s : σ) : Prop :=
  ∀ verdict ∈ (sink.offerAll events s).1, verdict = .ok ()

/-- A sink takes up all events before `event` and rejects that one. -/
structure RejectsAt (sink : Sink σ) (s : σ) (before : List MarkupEvent) (event : MarkupEvent)
    (error : SinkError) : Prop where
  accepts : sink.Accepts before s
  rejects : (sink.offer event (sink.after before s)).1 = .error error

variable {sink : Sink σ} {s : σ} {first second : List MarkupEvent} {event : MarkupEvent}

@[simp] theorem after_nil (sink : Sink σ) (s : σ) : sink.after [] s = s := rfl

@[simp] theorem after_cons (sink : Sink σ) (event : MarkupEvent) (rest : List MarkupEvent) (s : σ) :
    sink.after (event :: rest) s = sink.after rest (sink.offer event s).2 := rfl

theorem after_append (sink : Sink σ) (first second : List MarkupEvent) (s : σ) :
    sink.after (first ++ second) s = sink.after second (sink.after first s) := by
  induction first generalizing s with
  | nil => rfl
  | cons event rest ih => exact ih _

theorem accepts_nil (sink : Sink σ) (s : σ) : sink.Accepts [] s := nofun

theorem accepts_cons :
    sink.Accepts (event :: first) s ↔
      (sink.offer event s).1 = .ok () ∧ sink.Accepts first (sink.offer event s).2 :=
  List.forall_mem_cons

theorem accepts_append :
    sink.Accepts (first ++ second) s ↔
      sink.Accepts first s ∧ sink.Accepts second (sink.after first s) := by
  induction first generalizing s with
  | nil => exact ⟨fun h => ⟨accepts_nil sink s, h⟩, And.right⟩
  | cons event rest ih =>
    rw [List.cons_append, accepts_cons, accepts_cons, ih, and_assoc]
    rfl

/-- Events that are not all taken up have a first one that is rejected. -/
theorem accepts_or_rejects (sink : Sink σ) (events : List MarkupEvent) (s : σ) :
    sink.Accepts events s ∨ ∃ before event later error,
      events = before ++ event :: later ∧ sink.RejectsAt s before event error := by
  induction events generalizing s with
  | nil => exact .inl (accepts_nil sink s)
  | cons event rest ih =>
    cases hoffer : (sink.offer event s).1 with
    | error x => exact .inr ⟨[], event, rest, x, rfl, accepts_nil sink s, hoffer⟩
    | ok _ =>
      rcases ih (sink.offer event s).2 with h | ⟨before, e, later, x, rfl, h⟩
      · exact .inl (accepts_cons.mpr ⟨hoffer, h⟩)
      · exact .inr ⟨event :: before, e, later, x, rfl, accepts_cons.mpr ⟨hoffer, h.accepts⟩,
          h.rejects⟩

theorem RejectsAt.not_accepts {before : List MarkupEvent} {error : SinkError}
    (h : sink.RejectsAt s before event error) (later : List MarkupEvent) :
    ¬ sink.Accepts (before ++ event :: later) s := by
  intro haccepts
  have hoffer := (accepts_cons.mp (accepts_append.mp haccepts).2).1
  rw [h.rejects] at hoffer
  cases hoffer

theorem RejectsAt.exists_append {before later : List MarkupEvent} {error : SinkError}
    (h : sink.RejectsAt s before event error) (haccepts : sink.Accepts first s)
    (heq : first ++ second = before ++ event :: later) :
    ∃ rest, before = first ++ rest ∧ second = rest ++ event :: later := by
  rcases List.append_eq_append_iff.mp heq with ⟨rest, hbefore, hrest⟩ | ⟨rest, hfirst, hrest⟩
  · exact ⟨rest, hbefore, hrest⟩
  · cases rest with
    | nil => exact ⟨[], by rw [hfirst, List.append_nil, List.append_nil], hrest.symm⟩
    | cons e rest =>
      obtain ⟨rfl, -⟩ := List.cons.inj hrest
      exact absurd (hfirst ▸ haccepts) (h.not_accepts rest)

theorem RejectsAt.unique {before before' later later' : List MarkupEvent} {event' : MarkupEvent}
    {error error' : SinkError} (h : sink.RejectsAt s before event error)
    (h' : sink.RejectsAt s before' event' error')
    (heq : before ++ event :: later = before' ++ event' :: later') :
    before = before' ∧ event = event' ∧ error = error' := by
  obtain ⟨rest, rfl, hrest⟩ := h'.exists_append h.accepts heq
  cases rest with
  | nil =>
    obtain ⟨rfl, -⟩ := List.cons.inj hrest
    rw [List.append_nil] at h' ⊢
    exact ⟨rfl, rfl, Except.error.inj (h.rejects.symm.trans h'.rejects)⟩
  | cons e rest =>
    obtain ⟨rfl, -⟩ := List.cons.inj hrest
    exact absurd h'.accepts (h.not_accepts rest)

theorem recorder_accepts (events : List MarkupEvent) (log : Array MarkupEvent) :
    recorder.Accepts events log := by
  induction events generalizing log with
  | nil => exact accepts_nil _ _
  | cons event rest ih => exact accepts_cons.mpr ⟨rfl, ih _⟩

theorem after_recorder (events : List MarkupEvent) (log : Array MarkupEvent) :
    recorder.after events log = log ++ events := by
  induction events generalizing log with
  | nil => simp
  | cons event rest ih =>
    rw [after_cons, ih]
    simp [recorder]

theorem toList_after_recorder (events : List MarkupEvent) (log : Array MarkupEvent) :
    (recorder.after events log).toList = log.toList ++ events := by
  rw [after_recorder, Array.toList_appendList]

/-- A sink that also keeps the events it was offered, rejected ones too. -/
def logged (sink : Sink σ) : Sink (σ × List MarkupEvent) where
  offer event s := ((sink.offer event s.1).1, ((sink.offer event s.1).2, s.2 ++ [event]))

theorem after_logged (sink : Sink σ) (events log : List MarkupEvent) (s : σ) :
    sink.logged.after events (s, log) = (sink.after events s, log ++ events) := by
  induction events generalizing s log with
  | nil => simp
  | cons event rest ih =>
    rw [after_cons]
    exact (ih (log ++ [event]) _).trans (by rw [List.append_assoc]; rfl)

theorem accepts_logged {events log : List MarkupEvent} :
    sink.logged.Accepts events (s, log) ↔ sink.Accepts events s := by
  induction events generalizing s log with
  | nil => exact ⟨fun _ => accepts_nil _ _, fun _ => accepts_nil _ _⟩
  | cons event rest ih =>
    rw [accepts_cons, accepts_cons]
    exact and_congr_right fun _ => ih

theorem rejectsAt_logged {before log : List MarkupEvent} {error : SinkError} :
    sink.logged.RejectsAt (s, log) before event error ↔ sink.RejectsAt s before event error := by
  have hafter : (sink.logged.after before (s, log)).1 = sink.after before s := by rw [after_logged]
  constructor
  · rintro ⟨haccepts, hrejects⟩
    refine ⟨accepts_logged.mp haccepts, ?_⟩
    rw [← hafter]
    exact hrejects
  · rintro ⟨haccepts, hrejects⟩
    refine ⟨accepts_logged.mpr haccepts, ?_⟩
    rw [← hafter] at hrejects
    exact hrejects

end Sink

/-- The elements open once an event was rejected: an end stays made, a start does not. -/
def MarkupEvent.openWithout (openElements : List String) : MarkupEvent → List String
  | .endElement _ => openElements.tail
  | _ => openElements

/-- The elements still open where the event after the given ones is rejected. -/
def stillOpen (openElements : List String) (before : List MarkupEvent) (event : MarkupEvent) :
    Option (List String) :=
  (openAfter openElements before).map event.openWithout

theorem openAfter_ends_append (ended openElements : List String) :
    openAfter (ended ++ openElements) (ended.map .endElement) = some openElements := by
  induction ended with
  | nil => rfl
  | cons name rest ih => rw [List.map_cons, List.cons_append, openAfter_end, ih]

/-- Calls on a writer with the given result offer certain events, end with a certain outcome and
leave certain elements open, all of it up to the first rejection. After a rejection only ends
follow, of which the elements still open on the writer make no part. -/
structure Delivers (wrap : SinkError → ε) (sink : Sink σ) (w : Writer σ)
    (events : List MarkupEvent) (outcome : Except ε Unit) (openElements : List String)
    (result : Except ε Unit × Writer σ) : Prop where
  nests : openAfter w.openElements events = some openElements
  accepted : sink.Accepts events w.sink →
    result = (outcome, ⟨sink.after events w.sink, openElements⟩)
  cut : ∀ {before event later error}, events = before ++ event :: later →
    sink.RejectsAt w.sink before event error →
    result.1 = .error (wrap error) ∧
      ∃ ended, stillOpen w.openElements before event = some (ended ++ result.2.openElements) ∧
        result.2.sink = sink.after (before ++ event :: ended.map .endElement) w.sink

def andThen {δ : Type} (result : Except ε Unit × δ) (next : δ → Except ε Unit × δ) :
    Except ε Unit × δ :=
  match result with
  | (.ok _, d) => next d
  | (.error e, d) => (.error e, d)

namespace Delivers

variable {wrap : SinkError → ε} {sink : Sink σ} {w : Writer σ} {events first second : List MarkupEvent}
  {outcome : Except ε Unit} {middle openElements : List String} {result : Except ε Unit × Writer σ}

theorem nothing (wrap : SinkError → ε) (sink : Sink σ) (w : Writer σ) (outcome : Except ε Unit) :
    Delivers wrap sink w [] outcome w.openElements (outcome, w) where
  nests := rfl
  accepted _ := rfl
  cut h := by cases List.append_eq_nil_iff.mp h.symm |>.2

theorem offer (sink : Sink σ) (w : Writer σ) {event : MarkupEvent} (hnest : event.nest w.openElements = some openElements) :
    Delivers id sink w [event] (.ok ()) openElements
      ((sink.offer event w.sink).1,
        ⟨(sink.offer event w.sink).2, match (sink.offer event w.sink).1 with
          | .ok _ => openElements
          | .error _ => event.openWithout w.openElements⟩) where
  nests := by rw [openAfter_cons, hnest]; rfl
  accepted h := by rw [(Sink.accepts_cons.mp h).1]; rfl
  cut {before e later x} h hx := by
    obtain ⟨rfl, hsingle⟩ | ⟨b, rfl, hnil⟩ := List.cons_eq_append_iff.mp h
    · obtain ⟨rfl, rfl⟩ := List.cons.inj hsingle
      have hreject : (sink.offer e w.sink).1 = .error x := hx.rejects
      rw [hreject]
      exact ⟨rfl, [], rfl, rfl⟩
    · cases List.append_eq_nil_iff.mp hnil.symm |>.2

theorem mapError {result : Except SinkError Unit × Writer σ}
    (h : Delivers id sink w events (.ok ()) openElements result) (wrap : SinkError → ε) :
    Delivers wrap sink w events (.ok ()) openElements (result.1.mapError wrap, result.2) where
  nests := h.nests
  accepted ha := by rw [h.accepted ha]; rfl
  cut heq hx := by
    obtain ⟨hverdict, hended⟩ := h.cut heq hx
    rw [hverdict]
    exact ⟨rfl, hended⟩

/-- Calls after which nothing more is done, successful or not. -/
theorem stop {e : ε} (h : Delivers wrap sink w events (.error e) openElements result)
    (next : Writer σ → Except ε Unit × Writer σ) :
    Delivers wrap sink w events (.error e) openElements (andThen result next) where
  nests := h.nests
  accepted ha := by rw [h.accepted ha]; rfl
  cut heq hx := by
    obtain ⟨verdict, w'⟩ := result
    obtain ⟨rfl, hended⟩ := h.cut heq hx
    exact ⟨rfl, hended⟩

theorem seq {next : Writer σ → Except ε Unit × Writer σ}
    (hfirst : Delivers wrap sink w first (.ok ()) middle result)
    (hnext : ∀ s, Delivers wrap sink ⟨s, middle⟩ second outcome openElements (next ⟨s, middle⟩)) :
    Delivers wrap sink w (first ++ second) outcome openElements (andThen result next) where
  nests := by
    rw [openAfter_append, hfirst.nests]
    exact (hnext w.sink).nests
  accepted h := by
    obtain ⟨ha, hb⟩ := Sink.accepts_append.mp h
    rw [hfirst.accepted ha, Sink.after_append]
    exact (hnext _).accepted hb
  cut {before event later x} heq hx := by
    rcases sink.accepts_or_rejects first w.sink with ha | ⟨before', e, later', x', hfirst', hx'⟩
    · -- the rejection comes after the first calls have succeeded
      obtain ⟨rest, rfl, hsecond⟩ := hx.exists_append ha heq
      have hrest := (Sink.accepts_append.mp hx.accepts).2
      have hreject := hx.rejects
      rw [Sink.after_append] at hreject
      rw [hfirst.accepted ha]
      obtain ⟨hverdict, ended, hopen, hsink⟩ := (hnext _).cut hsecond ⟨hrest, hreject⟩
      refine ⟨hverdict, ended, ?_, ?_⟩
      · rw [stillOpen, openAfter_append, hfirst.nests]
        exact hopen
      · rw [List.append_assoc, Sink.after_append]
        exact hsink
    · rw [hfirst', List.append_assoc, List.cons_append] at heq
      obtain ⟨rfl, rfl, rfl⟩ := hx'.unique hx heq
      obtain ⟨verdict, w'⟩ := result
      obtain ⟨rfl, hended⟩ := hfirst.cut hfirst' hx
      exact ⟨rfl, hended⟩

end Delivers

namespace Command

/-- The events of a call where the given elements, innermost first, are open. -/
def events (openElements : List String) : Command → List MarkupEvent
  | .start name attributes => [.startElement name attributes]
  | .finish => openElements.head?.toList.map .endElement
  | .finishNamed name => [.endElement name]
  | .characters text => [.characters text]
  | .instruction target data => [.instruction target (data.getD "")]
  | .close => openElements.map .endElement

def leavesOpen (openElements : List String) : Command → List String
  | .start name _ => name :: openElements
  | .finish => openElements.tail
  | .close => []
  | _ => openElements

/-- Whether a call keeps to the open elements. -/
def keepsNesting : Command → Bool
  | .finishNamed _ => false
  | _ => true

/-- The events of calls in turn. -/
def eventsOf : List String → List Command → List MarkupEvent
  | _, [] => []
  | openElements, command :: rest =>
    command.events openElements ++ eventsOf (command.leavesOpen openElements) rest

/-- The open elements after calls in turn. -/
def openAfterAll (openElements : List String) (commands : List Command) : List String :=
  commands.foldl leavesOpen openElements

theorem eventsOf_finishes (n : Nat) (openElements : List String) (rest : List Command) :
    eventsOf openElements (List.replicate n .finish ++ rest) =
      (openElements.take n).map .endElement ++ eventsOf (openElements.drop n) rest := by
  induction n generalizing openElements with
  | zero => rfl
  | succ n ih =>
    rw [List.replicate_succ, List.cons_append, eventsOf, ih]
    cases openElements with
    | nil => rw [leavesOpen, List.tail_nil, List.take_nil, List.take_nil, List.drop_nil,
        List.drop_nil]; rfl
    | cons name outer => rfl

theorem openAfterAll_finishes (n : Nat) (openElements : List String) (rest : List Command) :
    openAfterAll openElements (List.replicate n .finish ++ rest) =
      openAfterAll (openElements.drop n) rest := by
  induction n generalizing openElements with
  | zero => rfl
  | succ n ih =>
    cases openElements with
    | nil => exact (ih []).trans (by rw [List.drop_nil, List.drop_nil])
    | cons name outer => exact ih outer

end Command

namespace Writer

variable {sink : Sink σ}

theorem finishAll_snd (sink : Sink σ) (names : List String) (s : σ) :
    (finishAll sink names s).2 = sink.after (names.map .endElement) s := by
  induction names generalizing s with
  | nil => rfl
  | cons name rest ih => exact ih _

theorem finishAll_fst_of_accepts {names : List String} {s : σ}
    (h : sink.Accepts (names.map .endElement) s) : (finishAll sink names s).1 = .ok () := by
  induction names generalizing s with
  | nil => rfl
  | cons name rest ih =>
    obtain ⟨hoffer, hrest⟩ := Sink.accepts_cons.mp h
    rw [finishAll]
    simp only [hoffer]
    exact ih hrest

theorem finishAll_fst_of_rejects {names rest : List String} {name : String} {s : σ} {x : SinkError}
    (h : sink.RejectsAt s (names.map .endElement) (.endElement name) x) :
    (finishAll sink (names ++ name :: rest) s).1 = .error x := by
  induction names generalizing s with
  | nil =>
    have hreject : (sink.offer (.endElement name) s).1 = .error x := h.rejects
    rw [List.nil_append, finishAll]
    simp only [hreject]
  | cons first names ih =>
    obtain ⟨hoffer, hnames⟩ := Sink.accepts_cons.mp h.accepts
    rw [List.cons_append, finishAll]
    simp only [hoffer]
    exact ih ⟨hnames, h.rejects⟩

theorem close_sink (sink : Sink σ) (w : Writer σ) :
    (w.close sink).2.sink = sink.after (w.openElements.map .endElement) w.sink :=
  finishAll_snd sink w.openElements w.sink

/-- Ending all elements goes on after a rejection, so that nothing is open in any case. -/
theorem delivers_close (sink : Sink σ) (w : Writer σ) :
    Delivers id sink w (w.openElements.map .endElement) (.ok ()) [] (w.close sink) where
  nests := openAfter_ends w.openElements
  accepted h := by
    rw [close, ← finishAll_snd, ← finishAll_fst_of_accepts h]
  cut {before event later x} heq hx := by
    obtain ⟨names, rest, hnames, rfl, hrest⟩ := List.map_eq_append_iff.mp heq
    obtain ⟨name, ended, rfl, rfl, rfl⟩ := List.map_eq_cons_iff.mp hrest
    refine ⟨?_, ended, ?_, ?_⟩
    · rw [close, hnames]
      exact finishAll_fst_of_rejects hx
    · rw [stillOpen, hnames, openAfter_ends_append, close, List.append_nil]
      rfl
    · rw [← heq, close_sink]

/-- Passing on an event with the elements open that are so after it, taken up or not. -/
theorem delivers_emit (sink : Sink σ) (s : σ) {event : MarkupEvent} {before after : List String}
    (hnest : event.nest before = some after) (hwithout : event.openWithout before = after) :
    Delivers id sink ⟨s, before⟩ [event] (.ok ()) after (emit sink event ⟨s, after⟩) := by
  have hoffer := Delivers.offer sink ⟨s, before⟩ hnest
  rw [emit]
  cases hs : sink.offer event s with
  | mk verdict s' =>
    rw [hs] at hoffer
    cases verdict with
    | ok _ => exact hoffer
    | error x => rwa [hwithout] at hoffer

theorem delivers_start (sink : Sink σ) (w : Writer σ) (name : String) (attributes : Attributes) :
    Delivers id sink w [.startElement name attributes] (.ok ()) (name :: w.openElements)
      (w.start sink name attributes) := by
  have hnest : (MarkupEvent.startElement name attributes).nest w.openElements =
      some (name :: w.openElements) := rfl
  have hoffer := Delivers.offer sink w hnest
  rw [start, emit]
  cases hs : sink.offer (.startElement name attributes) w.sink with
  | mk verdict s =>
    rw [hs] at hoffer
    cases verdict <;> exact hoffer

/-- Every call but the one that ends an element by name delivers its events. -/
theorem delivers_perform (sink : Sink σ) (w : Writer σ) {command : Command}
    (h : command.keepsNesting = true) :
    Delivers id sink w (command.events w.openElements) (.ok ()) (command.leavesOpen w.openElements)
      (w.perform sink command) := by
  cases command with
  | start name attributes => exact delivers_start sink w name attributes
  | finish =>
    obtain ⟨s, openElements⟩ := w
    cases openElements with
    | nil => exact Delivers.nothing id sink ⟨s, []⟩ (.ok ())
    | cons name outer =>
      exact delivers_emit sink s (MarkupEvent.nest_end name outer) rfl
  | finishNamed name => cases h
  | characters text => exact delivers_emit sink w.sink rfl rfl
  | instruction target data => exact delivers_emit sink w.sink rfl rfl
  | close => exact delivers_close sink w

/-- Carries out calls in turn, up to the first that the sink rejects. -/
def performAll (sink : Sink σ) : List Command → Writer σ → Except SinkError Unit × Writer σ
  | [], w => (.ok (), w)
  | command :: rest, w => andThen (w.perform sink command) (performAll sink rest)

theorem performAll_append (sink : Sink σ) (first second : List Command) (w : Writer σ) :
    performAll sink (first ++ second) w =
      andThen (performAll sink first w) (performAll sink second) := by
  induction first generalizing w with
  | nil => rfl
  | cons command rest ih =>
    rw [List.cons_append, performAll, performAll]
    cases w.perform sink command with
    | mk verdict w' =>
      cases verdict with
      | ok _ => exact ih w'
      | error e => rfl

theorem delivers_performAll (sink : Sink σ) (w : Writer σ) {commands : List Command}
    (h : ∀ command ∈ commands, command.keepsNesting = true) :
    Delivers id sink w (Command.eventsOf w.openElements commands) (.ok ())
      (Command.openAfterAll w.openElements commands) (w.performAll sink commands) := by
  induction commands generalizing w with
  | nil => exact Delivers.nothing id sink w (.ok ())
  | cons command rest ih =>
    have hfirst := delivers_perform sink w (h command (List.mem_cons_self ..))
    exact hfirst.seq fun s => ih ⟨s, _⟩ fun c hc => h c (List.mem_cons_of_mem _ hc)

end Writer

end DitaTopic.Markup
