import DitaTopic.Markup.Event

/-!
# Sinks

A sink is a state machine that takes up markup events one at a time and may reject
each of them. It may change state while rejecting, as a file does that runs full in
the middle of a tag.
-/

namespace DitaTopic.Markup

/-- Why a sink did not take up an event. -/
inductive SinkError where
  | rejected (reason : String)
  /-- The medium underneath failed. -/
  | medium
  deriving Repr, DecidableEq, Inhabited

def SinkError.message : SinkError → String
  | rejected reason => "sink rejected event: " ++ reason
  | medium => "I/O error"

/-- A receiver of markup events with states in `σ`. -/
structure Sink (σ : Type) where
  offer : MarkupEvent → σ → Except SinkError Unit × σ

namespace Sink

variable {σ : Type}

/-- Offers events one after the other, whatever becomes of each; the verdicts are in order. -/
def offerAll (sink : Sink σ) : List MarkupEvent → σ → List (Except SinkError Unit) × σ
  | [], s => ([], s)
  | event :: rest, s =>
    let (verdict, s) := sink.offer event s
    let (verdicts, s) := offerAll sink rest s
    (verdict :: verdicts, s)

/-- The sink that takes no notice of events about the document as a whole. -/
def contentOnly (sink : Sink σ) : Sink σ where
  offer event s := if event.isContent then sink.offer event s else (.ok (), s)

def recorder : Sink (Array MarkupEvent) where
  offer event log := (.ok (), log.push event)

/-- Keeps events until there are `capacity` of them and rejects every further one. -/
def boundedRecorder (capacity : Nat) : Sink (Array MarkupEvent) where
  offer event log :=
    if capacity ≤ log.size then (.error (.rejected "sink closed"), log)
    else (.ok (), log.push event)

end Sink

def contentOf (log : Array MarkupEvent) : List MarkupEvent :=
  log.toList.filter MarkupEvent.isContent

end DitaTopic.Markup
