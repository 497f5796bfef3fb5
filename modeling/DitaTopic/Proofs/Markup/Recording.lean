import DitaTopic.Proofs.Markup.Limit

/-!
# What a writer records

A caller may go on with a writer after a call has failed. Whatever calls it makes, ends by name
apart, the recording is at every moment the beginning of nested markup, also where the recorder
has room for some of the events only. As long as no call has failed, the elements open on the
writer are those that are started and not ended in the recording. Once an event was rejected
this is no longer so: an element whose end is rejected is open in the recording for good, but
not on the writer.
-/

namespace DitaTopic.Markup

variable {σ : Type}

/-- The events behind the start of an element hold its end. -/
def Ended (name : String) (behind : List MarkupEvent) : Prop :=
  ∃ inside later, behind = flatten inside ++ .endElement name :: later

open Classical in
/-- The names of the elements that are started and not ended, outermost first. -/
noncomputable def unended : List MarkupEvent → List String
  | [] => []
  | .startElement name _ :: behind =>
    if Ended name behind then unended behind else name :: unended behind
  | _ :: behind => unended behind

theorem unended_start_of_ended {name : String} {behind : List MarkupEvent} (h : Ended name behind)
    (attributes : Attributes) :
    unended (.startElement name attributes :: behind) = unended behind := by
  rw [unended, if_pos h]

theorem unended_start_of_not_ended {name : String} {behind : List MarkupEvent}
    (h : ¬ Ended name behind) (attributes : Attributes) :
    unended (.startElement name attributes :: behind) = name :: unended behind := by
  rw [unended, if_neg h]

mutual
theorem unended_events (behind : List MarkupEvent) :
    ∀ piece : Piece, unended (piece.events ++ behind) = unended behind
  | .element name attributes inside => by
    have hevents : (Piece.element name attributes inside).events ++ behind =
        .startElement name attributes :: (flatten inside ++ .endElement name :: behind) := by simp
    rw [hevents, unended_start_of_ended ⟨inside, behind, rfl⟩, unended_flatten _ inside]
    rfl
  | .characters _ => rfl
  | .instruction _ _ => rfl

/-- Pieces end what they start. -/
theorem unended_flatten (behind : List MarkupEvent) :
    ∀ pieces : List Piece, unended (flatten pieces ++ behind) = unended behind
  | [] => rfl
  | piece :: rest => by
    rw [flatten_cons, List.append_assoc, unended_events _ piece, unended_flatten behind rest]
end

theorem not_ended {name : String} {behind : List MarkupEvent} {opened : List String}
    (h : openAfter [] behind = some opened) : ¬ Ended name behind := by
  rintro ⟨inside, later, rfl⟩
  rw [openAfter_append, openAfter_flatten] at h
  cases h

/-- Events of markup in which no end is stray, with the elements open behind them. -/
structure Nested (events : List MarkupEvent) (openElements : List String) : Prop where
  content : ∀ event ∈ events, event.isContent = true
  nests : openAfter [] events = some openElements

namespace Nested

variable {events more : List MarkupEvent} {openElements left : List String}

theorem nil : Nested [] [] := ⟨nofun, rfl⟩

theorem append (h : Nested events openElements) (hcontent : ∀ event ∈ more, event.isContent = true)
    (hmore : openAfter openElements more = some left) : Nested (events ++ more) left where
  content event hevent := (List.mem_append.mp hevent).elim (h.content event) (hcontent event)
  nests := by rw [openAfter_append, h.nests, Option.bind_some, hmore]

theorem exists_flatten (h : Nested events []) : ∃ pieces, events = flatten pieces := by
  obtain ⟨pieces, heq⟩ := exists_pieces h.nests
  rw [List.filter_eq_self.mpr h.content] at heq
  exact ⟨pieces, heq⟩

/-- Such events begin the markup that goes on by ending the open elements. -/
theorem isPrefix_flatten (h : Nested events openElements) :
    ∃ pieces, events <+: flatten pieces := by
  have hends : ∀ event ∈ openElements.map MarkupEvent.endElement, event.isContent = true := by
    intro event hevent
    obtain ⟨name, -, rfl⟩ := List.mem_map.mp hevent
    rfl
  obtain ⟨pieces, heq⟩ := (h.append hends (openAfter_ends openElements)).exists_flatten
  exact ⟨pieces, heq ▸ List.prefix_append ..⟩

/-- The open elements are the unended ones. A start is followed either by its end, and nothing of
what stands between the two is open, or by events that leave the element open. -/
theorem unended_eq : ∀ {events : List MarkupEvent} {openElements : List String},
    Nested events openElements → unended events = openElements.reverse
  | [], openElements, h => by
    obtain rfl : [] = openElements := Option.some.inj h.nests
    rfl
  | .startElement name attributes :: behind, openElements, ⟨hcontent, hnests⟩ => by
    have hbehind := (List.forall_mem_cons.mp hcontent).2
    have hopen : openAfter ([] ++ name :: []) behind = some openElements := hnests
    rcases openAfter_around hopen with
      ⟨opened, hopened, rfl⟩ | ⟨before, later, rfl, hbefore, hlater⟩
    · rw [unended_start_of_not_ended (not_ended hopened), unended_eq ⟨hbehind, hopened⟩,
        List.reverse_append]
      rfl
    · have hparts := List.forall_mem_append.mp hbehind
      have hafter : unended later = openElements.reverse :=
        unended_eq ⟨(List.forall_mem_cons.mp hparts.2).2, hlater⟩
      obtain ⟨inside, rfl⟩ := Nested.exists_flatten ⟨hparts.1, hbefore⟩
      rw [unended_start_of_ended ⟨inside, later, rfl⟩, unended_flatten]
      exact hafter
  | .endElement _ :: _, _, h => nomatch h.nests
  | .characters _ :: behind, openElements, ⟨hcontent, hnests⟩ =>
    have hbehind : unended behind = openElements.reverse :=
      unended_eq ⟨(List.forall_mem_cons.mp hcontent).2, hnests⟩
    hbehind
  | .instruction _ _ :: behind, openElements, ⟨hcontent, hnests⟩ =>
    have hbehind : unended behind = openElements.reverse :=
      unended_eq ⟨(List.forall_mem_cons.mp hcontent).2, hnests⟩
    hbehind
  | .startDocument :: _, _, h => nomatch (List.forall_mem_cons.mp h.content).1
  | .endDocument :: _, _, h => nomatch (List.forall_mem_cons.mp h.content).1
  | .bindNamespace _ _ :: _, _, h => nomatch (List.forall_mem_cons.mp h.content).1
  | .unbindNamespace _ :: _, _, h => nomatch (List.forall_mem_cons.mp h.content).1
termination_by events => events.length

end Nested

namespace Sink

/-- A recorder with room for so many events, or for all of them. -/
def recorderFor : Option Nat → Sink (Array MarkupEvent)
  | none => recorder
  | some capacity => boundedRecorder capacity

/-- A sink that rejects whatever it is offered and stays as it is. -/
def Full (sink : Sink σ) (s : σ) : Prop := ∀ event, ∃ error, sink.offer event s = (.error error, s)

theorem recorderFor_offer (room : Option Nat) (event : MarkupEvent) (log : Array MarkupEvent) :
    (recorderFor room).offer event log = (.ok (), log.push event) ∨ (recorderFor room).Full log := by
  cases room with
  | none => exact .inl rfl
  | some capacity =>
    by_cases hfull : capacity ≤ log.size
    · exact .inr fun _ => ⟨.rejected "sink closed", if_pos hfull⟩
    · exact .inl (if_neg hfull)

theorem Full.after {sink : Sink σ} {s : σ} (h : sink.Full s) (events : List MarkupEvent) :
    sink.after events s = s := by
  induction events with
  | nil => rfl
  | cons event rest ih =>
    obtain ⟨error, hoffer⟩ := h event
    rw [after_cons, hoffer, ih]

theorem Accepts.after_recorderFor {room : Option Nat} {events : List MarkupEvent}
    {log : Array MarkupEvent} (h : (recorderFor room).Accepts events log) :
    ((recorderFor room).after events log).toList = log.toList ++ events := by
  induction events generalizing log with
  | nil => simp
  | cons event rest ih =>
    obtain ⟨hoffer, hrest⟩ := accepts_cons.mp h
    rcases recorderFor_offer room event log with hpush | hfull
    · rw [hpush] at hrest
      rw [after_cons, hpush, ih hrest, Array.toList_push, List.append_assoc, List.singleton_append]
    · obtain ⟨error, hreject⟩ := hfull event
      rw [hreject] at hoffer
      cases hoffer

/-- A recorder that rejects an event is full there. -/
theorem RejectsAt.full {room : Option Nat} {before : List MarkupEvent} {event : MarkupEvent}
    {error : SinkError} {log : Array MarkupEvent}
    (h : (recorderFor room).RejectsAt log before event error) :
    (recorderFor room).Full ((recorderFor room).after before log) := by
  rcases recorderFor_offer room event ((recorderFor room).after before log) with hpush | hfull
  · have hrejects := h.rejects
    rw [hpush] at hrejects
    cases hrejects
  · exact hfull

end Sink

theorem Command.isContent_of_mem_events {command : Command} {openElements : List String}
    {event : MarkupEvent} (h : event ∈ command.events openElements) : event.isContent = true := by
  cases command with
  | finish =>
    obtain ⟨name, -, rfl⟩ := List.mem_map.mp h
    rfl
  | close =>
    obtain ⟨name, -, rfl⟩ := List.mem_map.mp h
    rfl
  | _ => rw [List.mem_singleton.mp h]; rfl

namespace Writer

/-- The writer agrees with its recording about the open elements. -/
def InStep (w : Writer (Array MarkupEvent)) : Prop := Nested w.sink.toList w.openElements

/-- The recording is the beginning of nested markup and stays as it is. -/
structure Stuck (sink : Sink (Array MarkupEvent)) (w : Writer (Array MarkupEvent)) : Prop where
  full : sink.Full w.sink
  nested : ∃ openElements, Nested w.sink.toList openElements

variable {room : Option Nat} {w : Writer (Array MarkupEvent)} {command : Command}

/-- A call that succeeds keeps the writer in step with its recording; one that fails has filled the
recording up. -/
theorem InStep.perform (h : w.InStep) (hcommand : command.keepsNesting = true) :
    ((w.perform (.recorderFor room) command).1 = .ok () ∧
      (w.perform (.recorderFor room) command).2.InStep) ∨
    ((w.perform (.recorderFor room) command).1 ≠ .ok () ∧
      (w.perform (.recorderFor room) command).2.Stuck (.recorderFor room)) := by
  have hdelivers := delivers_perform (Sink.recorderFor room) w hcommand
  rcases (Sink.recorderFor room).accepts_or_rejects (command.events w.openElements) w.sink with
    haccepts | ⟨before, event, later, error, hevents, hrejects⟩
  · refine .inl ?_
    rw [hdelivers.accepted haccepts]
    refine ⟨rfl, ?_⟩
    rw [InStep, haccepts.after_recorderFor]
    exact h.append (fun _ => Command.isContent_of_mem_events) hdelivers.nests
  · obtain ⟨hverdict, ended, hopen, hsink⟩ := hdelivers.cut hevents hrejects
    rw [Sink.after_append, hrejects.full.after] at hsink
    refine .inr ⟨by rw [hverdict]; exact nofun, ?_, ?_⟩
    · rw [hsink]
      exact hrejects.full
    · obtain ⟨left, hleft, -⟩ := Option.map_eq_some_iff.mp hopen
      rw [hsink, hrejects.accepts.after_recorderFor]
      refine ⟨left, h.append (fun e he => ?_) hleft⟩
      exact Command.isContent_of_mem_events (hevents ▸ List.mem_append_left _ he)

/-- No call changes a full recording. -/
theorem Stuck.perform (h : w.Stuck (.recorderFor room)) (hcommand : command.keepsNesting = true) :
    (w.perform (.recorderFor room) command).2.Stuck (.recorderFor room) := by
  have hsink : (w.perform (.recorderFor room) command).2.sink = w.sink := by
    have hdelivers := delivers_perform (Sink.recorderFor room) w hcommand
    rcases (Sink.recorderFor room).accepts_or_rejects (command.events w.openElements) w.sink with
      haccepts | ⟨before, event, later, error, hevents, hrejects⟩
    · rw [hdelivers.accepted haccepts]
      exact h.full.after _
    · obtain ⟨-, ended, -, hsink⟩ := hdelivers.cut hevents hrejects
      rw [hsink, h.full.after]
  exact ⟨hsink ▸ h.full, hsink ▸ h.nested⟩

/-- Makes calls in turn, each whatever became of those before; the verdicts are in order. -/
def performEach (sink : Sink σ) : List Command → Writer σ → List (Except SinkError Unit) × Writer σ
  | [], w => ([], w)
  | command :: rest, w =>
    let (verdict, w) := w.perform sink command
    let (verdicts, w) := performEach sink rest w
    (verdict :: verdicts, w)

theorem Stuck.performEach (h : w.Stuck (.recorderFor room)) {commands : List Command}
    (hcommands : ∀ command ∈ commands, command.keepsNesting = true) :
    (performEach (.recorderFor room) commands w).2.Stuck (.recorderFor room) := by
  induction commands generalizing w with
  | nil => exact h
  | cons command rest ih =>
    obtain ⟨hcommand, hrest⟩ := List.forall_mem_cons.mp hcommands
    exact ih (h.perform hcommand) hrest

/-- A writer that has failed at no call is in step with its recording. -/
theorem InStep.performEach (h : w.InStep) {commands : List Command}
    (hcommands : ∀ command ∈ commands, command.keepsNesting = true) :
    (performEach (.recorderFor room) commands w).2.InStep ∨
    ((∃ verdict ∈ (Writer.performEach (.recorderFor room) commands w).1, verdict ≠ .ok ()) ∧
      (Writer.performEach (.recorderFor room) commands w).2.Stuck (.recorderFor room)) := by
  induction commands generalizing w with
  | nil => exact .inl h
  | cons command rest ih =>
    obtain ⟨hcommand, hrest⟩ := List.forall_mem_cons.mp hcommands
    rcases h.perform hcommand with ⟨-, hstep⟩ | ⟨hverdict, hstuck⟩
    · rcases ih hstep hrest with hin | ⟨⟨verdict, hmem, hne⟩, hstuck⟩
      · exact .inl hin
      · exact .inr ⟨⟨verdict, List.mem_cons_of_mem _ hmem, hne⟩, hstuck⟩
    · exact .inr ⟨⟨_, List.mem_cons_self .., hverdict⟩, hstuck.performEach hrest⟩

theorem openElements_performEach_close {sink : Sink σ} {w : Writer σ} {commands : List Command}
    (h : commands.getLast? = some .close) : (performEach sink commands w).2.openElements = [] := by
  induction commands generalizing w with
  | nil => cases h
  | cons command rest ih =>
    cases rest with
    | nil =>
      obtain rfl : command = .close := Option.some.inj h
      rfl
    | cons next rest => exact ih (List.getLast?_cons_cons ▸ h)

/-- Whatever calls are made on a writer over a recorder, failed ones not excepted: the recording is
the beginning of nested markup; if no call has failed, the elements open on the writer, outermost
first, are the unended ones of the recording; after a close nothing is open, and if no call has
failed the recording is complete. Within a call the recording is the beginning of what it is after
the call. -/
theorem recording_nested (room : Option Nat) (commands : List Command)
    (hcommands : ∀ command ∈ commands, command.keepsNesting = true) :
    let result := performEach (.recorderFor room) commands ⟨#[], []⟩
    let unfailing := ∀ verdict ∈ result.1, verdict = .ok ()
    (∃ pieces, result.2.sink.toList <+: flatten pieces) ∧
    (unfailing → result.2.openElements.reverse = unended result.2.sink.toList) ∧
    (commands.getLast? = some .close →
      result.2.depth = 0 ∧ (unfailing → ∃ pieces, result.2.sink.toList = flatten pieces)) := by
  intro result unfailing
  have hstart : InStep ⟨#[], []⟩ := Nested.nil
  rcases hstart.performEach hcommands with hin | ⟨⟨verdict, hmem, hne⟩, hstuck⟩
  · have hclosed (hlast : commands.getLast? = some .close) : result.2.openElements = [] :=
      openElements_performEach_close hlast
    refine ⟨Nested.isPrefix_flatten hin, fun _ => (Nested.unended_eq hin).symm, fun hlast => ?_⟩
    refine ⟨congrArg List.length (hclosed hlast), fun _ => ?_⟩
    exact Nested.exists_flatten (hclosed hlast ▸ hin)
  · obtain ⟨openElements, hnested⟩ := hstuck.nested
    have hfailed : ¬ unfailing := fun hall => hne (hall verdict hmem)
    refine ⟨hnested.isPrefix_flatten, fun hall => absurd hall hfailed, fun hlast => ?_⟩
    exact ⟨congrArg List.length (openElements_performEach_close hlast),
      fun hall => absurd hall hfailed⟩

/-- A stray end, then calls that leave two elements to the close. -/
theorem recording_nested_stray :
    let commands : List Command :=
      [.finish, .start "topic" .none, .start "p" .none, .characters "text", .close]
    let result := performEach (.recorderFor none) commands ⟨#[], []⟩
    (∀ command ∈ commands, command.keepsNesting = true) ∧
      commands.getLast? = some .close ∧ (∀ verdict ∈ result.1, verdict = .ok ()) ∧
      result.2.depth = 0 ∧ ∃ pieces, result.2.sink.toList = flatten pieces := by
  intro commands result
  have hcommands : ∀ command ∈ commands, command.keepsNesting = true := by decide
  have hverdicts : result.1 = List.replicate 5 (.ok ()) := rfl
  have hunfailing : ∀ verdict ∈ result.1, verdict = .ok () := fun verdict hmem =>
    List.eq_of_mem_replicate (hverdicts ▸ hmem)
  obtain ⟨-, -, hclosed⟩ := recording_nested none commands hcommands
  obtain ⟨hdepth, hcomplete⟩ := hclosed rfl
  exact ⟨hcommands, rfl, hunfailing, hdepth, hcomplete hunfailing⟩

end Writer

end DitaTopic.Markup
