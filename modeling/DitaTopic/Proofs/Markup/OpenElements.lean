import DitaTopic.Proofs.Markup.Recording

/-!
# Open elements and rejected events

What the open elements of a writer say about its sink, where the sink rejects events of any kind
now and then and the caller goes on all the same. The journal of a sink holds every event that it
was offered and whether it took that up. A rejected start opens nothing. A rejected end, however,
is not offered again, and its element is no longer open on the writer: the open elements are
those that were started and whose end was *offered* at no time. So they are the elements that the
sink holds unended exactly as long as the sink has rejected no end.
-/

namespace DitaTopic.Markup

variable {σ : Type}

namespace MarkupEvent

def isStart : MarkupEvent → Bool
  | startElement .. => true
  | _ => false

def isEnd : MarkupEvent → Bool
  | endElement _ => true
  | _ => false

end MarkupEvent

open MarkupEvent (isStart isEnd)

/-- Each start opens one element and each end that is not stray closes one. -/
theorem length_openAfter {openElements left : List String} {events : List MarkupEvent}
    (h : openAfter openElements events = some left) :
    left.length + events.countP isEnd = openElements.length + events.countP isStart := by
  induction events generalizing openElements with
  | nil => rw [Option.some.inj h, List.countP_nil, List.countP_nil]
  | cons event rest ih =>
    rw [openAfter_cons] at h
    obtain ⟨deeper, hnest, hrest⟩ := Option.bind_eq_some_iff.mp h
    have hlater := ih hrest
    cases event with
    | startElement name attributes =>
      obtain rfl := Option.some.inj hnest
      rw [List.length_cons] at hlater
      rw [List.countP_cons_of_neg Bool.false_ne_true, List.countP_cons_of_pos rfl]
      omega
    | endElement name =>
      rw [MarkupEvent.nest] at hnest
      split at hnest
      · next htop =>
        obtain ⟨outer, rfl⟩ := List.head?_eq_some_iff.mp htop
        obtain rfl : outer = deeper := Option.some.inj hnest
        rw [List.countP_cons_of_pos rfl, List.countP_cons_of_neg Bool.false_ne_true,
          List.length_cons]
        omega
      · cases hnest
    | _ =>
      obtain rfl := Option.some.inj hnest
      rwa [List.countP_cons_of_neg Bool.false_ne_true, List.countP_cons_of_neg Bool.false_ne_true]

/-- An element is unended unless there is an end for it, and each end is for one element. -/
theorem countP_isStart_le (events : List MarkupEvent) :
    events.countP isStart ≤ (unended events).length + events.countP isEnd := by
  induction hlength : events.length using Nat.strongRecOn generalizing events with
  | _ n ih =>
    cases events with
    | nil => exact Nat.zero_le _
    | cons event behind =>
      have hbehind := ih behind.length (by rw [← hlength]; exact Nat.lt_succ_self _) behind rfl
      cases event with
      | startElement name attributes =>
        rw [List.countP_cons_of_pos rfl, List.countP_cons_of_neg Bool.false_ne_true]
        by_cases hended : Ended name behind
        · rw [unended_start_of_ended hended]
          obtain ⟨inside, later, rfl⟩ := hended
          -- what is inside opens and ends as many elements, so only what is later counts
          have hlater := ih later.length (by simp [← hlength]; omega) later rfl
          have hinside := length_openAfter (openAfter_flatten [] inside)
          have hunended : unended (.endElement name :: later) = unended later := rfl
          rw [unended_flatten, hunended, List.countP_append, List.countP_append,
            List.countP_cons_of_neg Bool.false_ne_true, List.countP_cons_of_pos rfl]
          omega
        · rw [unended_start_of_not_ended hended, List.length_cons]
          omega
      | endElement name =>
        have hunended : unended (.endElement name :: behind) = unended behind := rfl
        rw [hunended, List.countP_cons_of_neg Bool.false_ne_true, List.countP_cons_of_pos rfl]
        omega
      | _ =>
        rw [List.countP_cons_of_neg Bool.false_ne_true, List.countP_cons_of_neg Bool.false_ne_true]
        exact hbehind

/-- An event that a sink was offered, and whether the sink took it up. -/
structure Offer where
  event : MarkupEvent
  accepted : Bool
  deriving Repr, DecidableEq

namespace Offer

/-- Whether an end was offered and rejected. -/
def isLostEnd (offer : Offer) : Bool := offer.event.isEnd && !offer.accepted

/-- Whether the writer takes the event for done: if it was accepted, and an end in any case. -/
def counts (offer : Offer) : Bool := offer.accepted || offer.event.isEnd

end Offer

/-- The events that were accepted. -/
def acceptedIn (journal : List Offer) : List MarkupEvent :=
  (journal.filter Offer.accepted).map Offer.event

/-- The events that were accepted, and the ends that were rejected too. -/
def countedIn (journal : List Offer) : List MarkupEvent :=
  (journal.filter Offer.counts).map Offer.event

theorem countedIn_append (first second : List Offer) :
    countedIn (first ++ second) = countedIn first ++ countedIn second := by
  rw [countedIn, List.filter_append, List.map_append, countedIn, countedIn]

/-- Where no end was rejected, the accepted events are those that count. -/
theorem countedIn_eq_acceptedIn {journal : List Offer}
    (h : ∀ offer ∈ journal, offer.isLostEnd = false) : countedIn journal = acceptedIn journal := by
  rw [countedIn, acceptedIn]
  congr 1
  apply List.filter_congr
  intro offer hoffer
  have hlost := h offer hoffer
  obtain ⟨event, accepted⟩ := offer
  cases accepted with
  | true => rfl
  | false => rwa [Offer.isLostEnd, Bool.not_false, Bool.and_true] at hlost

/-- Starts count only if they were accepted. -/
theorem countP_isStart_countedIn (journal : List Offer) :
    (countedIn journal).countP isStart = (acceptedIn journal).countP isStart := by
  rw [countedIn, acceptedIn, List.countP_map, List.countP_map, List.countP_filter,
    List.countP_filter]
  apply List.countP_congr
  rintro ⟨event, accepted⟩ -
  cases event <;> simp [Offer.counts, isStart, isEnd]

/-- Ends count whether they were accepted or not. -/
theorem countP_isEnd_countedIn (journal : List Offer) :
    (countedIn journal).countP isEnd =
      (acceptedIn journal).countP isEnd + journal.countP Offer.isLostEnd := by
  rw [countedIn, acceptedIn, List.countP_map, List.countP_map, List.countP_filter,
    List.countP_filter]
  induction journal with
  | nil => rfl
  | cons offer rest ih =>
    rw [List.countP_cons, List.countP_cons, List.countP_cons, ih]
    obtain ⟨event, accepted⟩ := offer
    cases event <;> cases accepted <;> simp [Offer.counts, Offer.isLostEnd, isEnd] <;> omega

namespace Sink

/-- A sink that also keeps the journal of what it was offered. -/
def journaled (sink : Sink σ) : Sink (σ × List Offer) where
  offer event s :=
    ((sink.offer event s.1).1,
      ((sink.offer event s.1).2, s.2 ++ [⟨event, (sink.offer event s.1).1.isOk⟩]))

/-- An offer adds its event to those that count, unless it is rejected and no end. -/
theorem countedIn_offer (sink : Sink σ) (event : MarkupEvent) (s : σ × List Offer) :
    countedIn (sink.journaled.offer event s).2.2 =
      countedIn s.2 ++ if (sink.offer event s.1).1.isOk || event.isEnd then [event] else [] := by
  have hjournal : (sink.journaled.offer event s).2.2 =
      s.2 ++ [⟨event, (sink.offer event s.1).1.isOk⟩] := rfl
  rw [hjournal, countedIn_append]
  congr 1
  rw [countedIn, List.filter_cons, Offer.counts]
  split <;> rfl

end Sink

/-- An offer that nests keeps the nesting of what counts; if it does not count, nothing opens. -/
theorem Nested.offer (sink : Sink σ) {event : MarkupEvent} {s : σ × List Offer}
    {openElements left : List String} (h : Nested (countedIn s.2) openElements)
    (hcontent : event.isContent = true) (hnest : event.nest openElements = some left) :
    Nested (countedIn (sink.journaled.offer event s).2.2)
      (if (sink.offer event s.1).1.isOk || event.isEnd then left else openElements) := by
  rw [Sink.countedIn_offer]
  split
  · refine h.append (List.forall_mem_singleton.mpr hcontent) ?_
    rw [openAfter_cons, hnest]
    rfl
  · rwa [List.append_nil]

namespace Writer

variable {sink : Sink σ}

/-- A start opens its element if it is accepted. -/
theorem start_eq (sink : Sink σ) (name : String) (attributes : Attributes) (w : Writer σ) :
    w.start sink name attributes =
      ((sink.offer (.startElement name attributes) w.sink).1,
        ⟨(sink.offer (.startElement name attributes) w.sink).2,
          if (sink.offer (.startElement name attributes) w.sink).1.isOk
            then name :: w.openElements else w.openElements⟩) := by
  rw [start, emit]
  cases sink.offer (.startElement name attributes) w.sink with
  | mk verdict s => cases verdict <;> rfl

/-- The writer over a sink without its journal. -/
def withoutJournal (w : Writer (σ × List Offer)) : Writer σ := ⟨w.sink.1, w.openElements⟩

/-- Ends that count are offered for all the names, whatever becomes of them. -/
theorem finishAll_journaled (sink : Sink σ) (names : List String) (s : σ × List Offer) :
    (finishAll sink.journaled names s).2.1 = (finishAll sink names s.1).2 ∧
      countedIn (finishAll sink.journaled names s).2.2 =
        countedIn s.2 ++ names.map .endElement := by
  induction names generalizing s with
  | nil => exact ⟨rfl, (List.append_nil _).symm⟩
  | cons name rest ih =>
    obtain ⟨hsink, hcounted⟩ := ih (sink.journaled.offer (.endElement name) s).2
    refine ⟨hsink, hcounted.trans ?_⟩
    have hend : (MarkupEvent.endElement name).isEnd = true := rfl
    rw [Sink.countedIn_offer, hend, Bool.or_true, if_pos rfl, List.append_assoc]
    rfl

/-- The journal changes nothing about what a call does. -/
theorem perform_journaled (sink : Sink σ) (command : Command) (w : Writer (σ × List Offer)) :
    (w.perform sink.journaled command).2.withoutJournal =
      (w.withoutJournal.perform sink command).2 := by
  obtain ⟨⟨s, journal⟩, openElements⟩ := w
  cases command with
  | start name attributes =>
    rw [perform, perform, start_eq, start_eq]
    rfl
  | finish =>
    cases openElements with
    | nil => rfl
    | cons name outer => rfl
  | close =>
    obtain ⟨hsink, -⟩ := finishAll_journaled sink openElements (s, journal)
    simp [perform, close, withoutJournal, hsink]
  | _ => rfl

/-- The writer agrees about the open elements with the events that count. -/
def Tracks (w : Writer (σ × List Offer)) : Prop := Nested (countedIn w.sink.2) w.openElements

/-- A call keeps the writer in agreement, whichever of its events the sink rejects. -/
theorem Tracks.perform {w : Writer (σ × List Offer)} (h : w.Tracks) {command : Command}
    (hcommand : command.keepsNesting = true) : (w.perform sink.journaled command).2.Tracks := by
  obtain ⟨⟨s, journal⟩, openElements⟩ := w
  cases command with
  | start name attributes =>
    have hnest : (MarkupEvent.startElement name attributes).nest openElements =
        some (name :: openElements) := rfl
    have hnoEnd : (MarkupEvent.startElement name attributes).isEnd = false := rfl
    have hoffer := Nested.offer sink h rfl hnest
    rw [hnoEnd, Bool.or_false] at hoffer
    rwa [Writer.perform, start_eq]
  | finish =>
    cases openElements with
    | nil => exact h
    | cons name outer =>
      have hoffer := Nested.offer sink h rfl (MarkupEvent.nest_end name outer)
      rwa [isEnd, Bool.or_true, if_pos rfl] at hoffer
  | finishNamed name => cases hcommand
  | characters text =>
    have hnest : (MarkupEvent.characters text).nest openElements = some openElements := rfl
    have hoffer := Nested.offer sink h rfl hnest
    rwa [ite_self] at hoffer
  | instruction target data =>
    have hnest : (MarkupEvent.instruction target (data.getD "")).nest openElements =
        some openElements := rfl
    have hoffer := Nested.offer sink h rfl hnest
    rwa [ite_self] at hoffer
  | close =>
    obtain ⟨-, hcounted⟩ := finishAll_journaled sink openElements (s, journal)
    have hends : ∀ event ∈ openElements.map MarkupEvent.endElement, event.isContent = true := by
      intro event hevent
      obtain ⟨name, -, rfl⟩ := List.mem_map.mp hevent
      rfl
    have hclosed := h.append hends (openAfter_ends openElements)
    rwa [← hcounted] at hclosed

theorem Tracks.performEach (sink : Sink σ) {w : Writer (σ × List Offer)} (h : w.Tracks)
    {commands : List Command} (hcommands : ∀ command ∈ commands, command.keepsNesting = true) :
    (performEach sink.journaled commands w).2.Tracks := by
  induction commands generalizing w with
  | nil => exact h
  | cons command rest ih =>
    obtain ⟨hcommand, hrest⟩ := List.forall_mem_cons.mp hcommands
    exact ih (h.perform hcommand) hrest

theorem performEach_journaled (sink : Sink σ) (commands : List Command)
    (w : Writer (σ × List Offer)) :
    (performEach sink.journaled commands w).2.withoutJournal =
      (performEach sink commands w.withoutJournal).2 := by
  induction commands generalizing w with
  | nil => rfl
  | cons command rest ih =>
    have hrest := ih (w.perform sink.journaled command).2
    rwa [perform_journaled sink command w] at hrest

/-- What calls on a new writer offer to its sink, with the verdicts. -/
def journalOf (sink : Sink σ) (commands : List Command) (s : σ) : List Offer :=
  (performEach sink.journaled commands ⟨(s, []), []⟩).2.sink.2

/-- Whatever calls are made on a writer over a sink that rejects whatever it likes, failed ones not
excepted: the open elements, outermost first, are those whose start was accepted and whose end was
not offered. They are those whose start and no end was accepted if, and only if, no end was
rejected. -/
theorem open_elements_tracked (sink : Sink σ) (s : σ) (commands : List Command)
    (hcommands : ∀ command ∈ commands, command.keepsNesting = true) :
    let w := (performEach sink commands ⟨s, []⟩).2
    let journal := journalOf sink commands s
    w.openElements.reverse = unended (countedIn journal) ∧
      (w.openElements.reverse = unended (acceptedIn journal) ↔
        ∀ offer ∈ journal, offer.isLostEnd = false) := by
  intro w journal
  have hstart : Tracks ⟨(s, []), []⟩ := Nested.nil
  have hend := hstart.performEach sink hcommands
  have hopen : (performEach sink.journaled commands ⟨(s, []), []⟩).2.openElements =
      w.openElements :=
    congrArg openElements (performEach_journaled sink commands ⟨(s, []), []⟩)
  have hnested : Nested (countedIn journal) w.openElements := hopen ▸ hend
  refine ⟨hnested.unended_eq.symm, fun heq => ?_, fun hnone => ?_⟩
  · -- with a lost end, fewer elements are open on the writer than the sink holds unended
    have hlength := congrArg List.length heq
    have hcounted := length_openAfter hnested.nests
    have haccepted := countP_isStart_le (acceptedIn journal)
    rw [countP_isStart_countedIn, countP_isEnd_countedIn, List.length_nil] at hcounted
    rw [List.length_reverse] at hlength
    have hlost : journal.countP Offer.isLostEnd = 0 := by omega
    intro offer hoffer
    exact Bool.eq_false_iff.mpr (List.countP_eq_zero.mp hlost offer hoffer)
  · rw [← countedIn_eq_acceptedIn hnone, hnested.unended_eq]

/-- A start and a text that are rejected leave the writer and its sink in agreement. -/
theorem open_elements_tracked_full :
    let commands : List Command := [.start "topic" .none, .start "p" .none, .characters "text"]
    let w := (performEach (.boundedRecorder 1) commands ⟨#[], []⟩).2
    let journal := journalOf (.boundedRecorder 1) commands #[]
    (∀ command ∈ commands, command.keepsNesting = true) ∧ journal.length = 3 ∧
      w.openElements = ["topic"] ∧ w.openElements.reverse = unended (acceptedIn journal) := by
  intro commands w journal
  have hcommands : ∀ command ∈ commands, command.keepsNesting = true := by decide
  have hnone : ∀ offer ∈ journal, offer.isLostEnd = false := by decide
  exact ⟨hcommands, rfl, rfl,
    (open_elements_tracked (.boundedRecorder 1) #[] commands hcommands).2.mpr hnone⟩

/-- An end that is rejected is forgotten: the sink has taken up the start of an element and not its
end, but the element is not open on the writer. -/
theorem rejected_end_forgotten :
    let commands : List Command := [.start "a" .none, .finish]
    let w := (performEach (.boundedRecorder 1) commands ⟨#[], []⟩).2
    let journal := journalOf (.boundedRecorder 1) commands #[]
    acceptedIn journal = [.startElement "a" .none] ∧ unended (acceptedIn journal) = ["a"] ∧
      w.openElements.reverse ≠ unended (acceptedIn journal) := by
  intro commands w journal
  have haccepted : acceptedIn journal = [.startElement "a" .none] := by decide
  have hunended : unended (acceptedIn journal) = ["a"] := by
    rw [haccepted, unended_start_of_not_ended (not_ended (openAfter_nil []))]
    rfl
  refine ⟨haccepted, hunended, ?_⟩
  rw [hunended]
  exact nofun

end Writer

end DitaTopic.Markup
