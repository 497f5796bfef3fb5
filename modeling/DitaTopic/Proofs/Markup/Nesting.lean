import DitaTopic.Markup.Sink

/-!
# Nested markup

A piece of markup is a text, an instruction or an element around further pieces; its events
are balanced by construction. `openAfter` reads a sequence of events as a stack automaton
reads brackets. The two agree: what leaves nothing open is the markup of some pieces.
Events about the document as a whole are passed over here, not placed.
-/

namespace DitaTopic.Markup

/-- A text, an instruction, or an element with what stands inside it. -/
inductive Piece where
  | element (name : String) (attributes : Attributes) (inside : List Piece)
  | characters (text : String)
  | instruction (target data : String)

mutual
def Piece.events : Piece → List MarkupEvent
  | .element name attributes inside =>
    .startElement name attributes :: (flatten inside ++ [.endElement name])
  | .characters text => [.characters text]
  | .instruction target data => [.instruction target data]

/-- The events of pieces one after the other. -/
def flatten : List Piece → List MarkupEvent
  | [] => []
  | piece :: rest => piece.events ++ flatten rest
end

@[simp] theorem flatten_nil : flatten [] = [] := rfl

@[simp] theorem flatten_cons (piece : Piece) (rest : List Piece) :
    flatten (piece :: rest) = piece.events ++ flatten rest := rfl

@[simp] theorem events_element (name : String) (attributes : Attributes) (inside : List Piece) :
    (Piece.element name attributes inside).events =
      .startElement name attributes :: (flatten inside ++ [.endElement name]) := rfl

@[simp] theorem events_characters (text : String) :
    (Piece.characters text).events = [.characters text] := rfl

@[simp] theorem events_instruction (target data : String) :
    (Piece.instruction target data).events = [.instruction target data] := rfl

@[simp] theorem flatten_append (first second : List Piece) :
    flatten (first ++ second) = flatten first ++ flatten second := by
  induction first with
  | nil => rfl
  | cons piece rest ih => rw [List.cons_append, flatten_cons, flatten_cons, ih, List.append_assoc]

/-- The open elements after one event, innermost first, if the event is not a stray end. -/
def MarkupEvent.nest (openElements : List String) : MarkupEvent → Option (List String)
  | .startElement name _ => some (name :: openElements)
  | .endElement name =>
    if openElements.head? = some name then some openElements.tail else none
  | _ => some openElements

@[simp] theorem MarkupEvent.nest_end (name : String) (outer : List String) :
    (MarkupEvent.endElement name).nest (name :: outer) = some outer := if_pos rfl

/-- The open elements after a sequence of events, if no end in it is stray. -/
def openAfter : List String → List MarkupEvent → Option (List String)
  | openElements, [] => some openElements
  | openElements, event :: rest => (event.nest openElements).bind fun inner => openAfter inner rest

@[simp] theorem openAfter_nil (openElements : List String) :
    openAfter openElements [] = some openElements := rfl

theorem openAfter_cons (openElements : List String) (event : MarkupEvent)
    (rest : List MarkupEvent) :
    openAfter openElements (event :: rest) =
      (event.nest openElements).bind fun inner => openAfter inner rest := rfl

@[simp] theorem openAfter_start (openElements : List String) (name : String)
    (attributes : Attributes) (rest : List MarkupEvent) :
    openAfter openElements (.startElement name attributes :: rest) =
      openAfter (name :: openElements) rest := rfl

@[simp] theorem openAfter_end (name : String) (outer : List String) (rest : List MarkupEvent) :
    openAfter (name :: outer) (.endElement name :: rest) = openAfter outer rest := by
  rw [openAfter_cons, MarkupEvent.nest_end, Option.bind_some]

theorem openAfter_append (openElements : List String) (first second : List MarkupEvent) :
    openAfter openElements (first ++ second) =
      (openAfter openElements first).bind fun inner => openAfter inner second := by
  induction first generalizing openElements with
  | nil => rfl
  | cons event rest ih =>
    rw [List.cons_append, openAfter_cons, openAfter_cons]
    cases event.nest openElements with
    | none => rfl
    | some inner => exact ih inner

/-- What is open around a sequence of events stays so. -/
theorem openAfter_frame {inner left : List String} {events : List MarkupEvent}
    (h : openAfter inner events = some left) (outer : List String) :
    openAfter (inner ++ outer) events = some (left ++ outer) := by
  induction events generalizing inner with
  | nil => rw [openAfter_nil, Option.some.inj h]
  | cons event rest ih =>
    rw [openAfter_cons] at h ⊢
    obtain ⟨deeper, hnest, hrest⟩ := Option.bind_eq_some_iff.mp h
    have hframe : event.nest (inner ++ outer) = some (deeper ++ outer) := by
      cases event with
      | endElement name =>
        rw [MarkupEvent.nest] at hnest
        split at hnest
        · next htop =>
          obtain ⟨below, rfl⟩ := List.head?_eq_some_iff.mp htop
          obtain rfl : below = deeper := Option.some.inj hnest
          exact MarkupEvent.nest_end name _
        · cases hnest
      | _ => rw [← Option.some.inj hnest]; rfl
    rw [hframe]
    exact ih hrest

theorem openAfter_ends (openElements : List String) :
    openAfter openElements (openElements.map .endElement) = some [] := by
  induction openElements with
  | nil => rfl
  | cons name outer ih => rw [List.map_cons, openAfter_end, ih]

mutual
theorem openAfter_events (openElements : List String) :
    ∀ piece : Piece, openAfter openElements piece.events = some openElements
  | .element name attributes inside => by
    rw [events_element, openAfter_start, openAfter_append,
      openAfter_flatten (name :: openElements) inside]
    exact openAfter_end name openElements []
  | .characters _ => rfl
  | .instruction _ _ => rfl

/-- Pieces end what they start and nothing else. -/
theorem openAfter_flatten (openElements : List String) :
    ∀ pieces : List Piece, openAfter openElements (flatten pieces) = some openElements
  | [] => rfl
  | piece :: rest => by
    rw [flatten_cons, openAfter_append, openAfter_events openElements piece, Option.bind_some,
      openAfter_flatten openElements rest]
end

/-- Pieces whose events begin with a start begin with an element. -/
theorem eq_element_of_flatten {pieces : List Piece} {name : String} {attributes : Attributes}
    {rest : List MarkupEvent} (h : flatten pieces = .startElement name attributes :: rest) :
    ∃ inside more, pieces = .element name attributes inside :: more := by
  cases pieces with
  | nil => cases h
  | cons piece more =>
    cases piece with
    | element started written inside =>
      obtain ⟨rfl, rfl⟩ := MarkupEvent.startElement.inj (List.cons.inj h).1
      exact ⟨inside, more, rfl⟩
    | characters text => cases h
    | instruction target data => cases h

mutual
theorem filter_events : ∀ piece : Piece, piece.events.filter MarkupEvent.isContent = piece.events
  | .element name attributes inside => by
    rw [events_element, List.filter_cons_of_pos rfl, List.filter_append, filter_flatten inside]
    rfl
  | .characters _ => rfl
  | .instruction _ _ => rfl

theorem filter_flatten :
    ∀ pieces : List Piece, (flatten pieces).filter MarkupEvent.isContent = flatten pieces
  | [] => rfl
  | piece :: rest => by
    rw [flatten_cons, List.filter_append, filter_events piece, filter_flatten rest]
end

/-- Behind an open element there is its end, or else nothing touches it and what is around it.
`inner` is what is open inside the element; all of that is ended before the element is. -/
theorem openAfter_around {inner outer left : List String} {name : String}
    {events : List MarkupEvent} (h : openAfter (inner ++ name :: outer) events = some left) :
    (∃ opened, openAfter inner events = some opened ∧ left = opened ++ name :: outer) ∨
      ∃ before behind, events = before ++ .endElement name :: behind ∧
        openAfter inner before = some [] ∧ openAfter outer behind = some left := by
  induction events generalizing inner with
  | nil => exact .inl ⟨inner, rfl, (Option.some.inj h).symm⟩
  | cons event rest ih =>
    have next {deeper : List String} (hnest : event.nest inner = some deeper)
        (hrest : openAfter (deeper ++ name :: outer) rest = some left) :
        (∃ opened, openAfter inner (event :: rest) = some opened ∧
          left = opened ++ name :: outer) ∨
        ∃ before behind, event :: rest = before ++ .endElement name :: behind ∧
          openAfter inner before = some [] ∧ openAfter outer behind = some left := by
      rcases ih hrest with ⟨opened, hopened, hleft⟩ | ⟨before, behind, rfl, hbefore, hbehind⟩
      · exact .inl ⟨opened, by rwa [openAfter_cons, hnest], hleft⟩
      · exact .inr ⟨event :: before, behind, rfl, by rwa [openAfter_cons, hnest], hbehind⟩
    cases event with
    | startElement started attributes => exact next rfl h
    | endElement ended =>
      rw [openAfter_cons, MarkupEvent.nest] at h
      split at h
      · next htop =>
        cases inner with
        | nil =>
          obtain rfl : name = ended := Option.some.inj htop
          exact .inr ⟨[], rest, rfl, rfl, h⟩
        | cons top inner =>
          obtain rfl : top = ended := Option.some.inj htop
          exact next (MarkupEvent.nest_end top inner) h
      · cases h
    | characters text => exact next rfl h
    | instruction target data => exact next rfl h
    | startDocument => exact next rfl h
    | endDocument => exact next rfl h
    | bindNamespace short uri => exact next rfl h
    | unbindNamespace short => exact next rfl h

/-- Events that leave no more open than is so around an open element hold its end. -/
theorem exists_end {inner outer left : List String} {name : String} {events : List MarkupEvent}
    (h : openAfter (inner ++ name :: outer) events = some left) (hleft : left.length ≤ outer.length) :
    ∃ before behind, events = before ++ .endElement name :: behind ∧
      openAfter inner before = some [] := by
  rcases openAfter_around h with ⟨opened, -, rfl⟩ | ⟨before, behind, hevents, hbefore, -⟩
  · rw [List.length_append, List.length_cons] at hleft
    omega
  · exact ⟨before, behind, hevents, hbefore⟩

/-- The content after a point where elements are open: pieces, then for each open element from the
innermost outwards its end and the pieces that follow. -/
theorem exists_pieces_between_ends {openElements : List String} {events : List MarkupEvent}
    (h : openAfter openElements events = some []) :
    ∃ (pieces : List Piece) (outer : List (String × List Piece)),
      outer.map Prod.fst = openElements ∧
      events.filter MarkupEvent.isContent =
        flatten pieces ++ outer.flatMap fun p => .endElement p.1 :: flatten p.2 := by
  induction events generalizing openElements with
  | nil =>
    obtain rfl : openElements = [] := by simpa using h
    exact ⟨[], [], rfl, rfl⟩
  | cons event rest ih =>
    cases event with
    | startElement name attributes =>
      have hrest : openAfter (name :: openElements) rest = some [] := h
      obtain ⟨inside, outer, hnames, heq⟩ := ih hrest
      -- the first of the ends behind is the end of this element
      obtain ⟨⟨top, following⟩, outer, rfl, hname, rfl⟩ := List.map_eq_cons_iff.mp hnames
      obtain rfl : name = top := hname.symm
      refine ⟨.element name attributes inside :: following, outer, rfl, ?_⟩
      rw [List.filter_cons_of_pos rfl, heq]
      simp
    | endElement name =>
      rw [openAfter_cons, MarkupEvent.nest] at h
      split at h
      · next htop =>
        obtain ⟨enclosing, rfl⟩ := List.head?_eq_some_iff.mp htop
        obtain ⟨pieces, outer, hnames, heq⟩ := ih h
        refine ⟨[], (name, pieces) :: outer, congrArg (name :: ·) hnames, ?_⟩
        rw [List.filter_cons_of_pos rfl, heq]
        simp
      · cases h
    | characters text =>
      obtain ⟨pieces, outer, hnames, heq⟩ := ih h
      exact ⟨.characters text :: pieces, outer, hnames, by
        rw [List.filter_cons_of_pos rfl, heq]; rfl⟩
    | instruction target data =>
      obtain ⟨pieces, outer, hnames, heq⟩ := ih h
      exact ⟨.instruction target data :: pieces, outer, hnames, by
        rw [List.filter_cons_of_pos rfl, heq]; rfl⟩
    | startDocument => exact ih h
    | endDocument => exact ih h
    | bindNamespace short uri => exact ih h
    | unbindNamespace short => exact ih h

/-- Events that end whatever they start are the markup of some pieces. -/
theorem exists_pieces {events : List MarkupEvent} (h : openAfter [] events = some []) :
    ∃ pieces, events.filter MarkupEvent.isContent = flatten pieces := by
  obtain ⟨pieces, outer, hnames, heq⟩ := exists_pieces_between_ends h
  rw [List.map_eq_nil_iff.mp hnames, List.flatMap_nil, List.append_nil] at heq
  exact ⟨pieces, heq⟩

end DitaTopic.Markup
