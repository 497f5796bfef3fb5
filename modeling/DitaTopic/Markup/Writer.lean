import DitaTopic.Markup.Sink

/-!
# Writers

A writer passes markup on to a sink and remembers which elements are open. Ending an
element ends the innermost open one; `close` ends all of them. With nothing open an
end is ignored.
-/

namespace DitaTopic.Markup

/-- A sink's state with the names of the open elements, innermost first. -/
structure Writer (σ : Type) where
  sink : σ
  openElements : List String := []

/-- A call on a writer. -/
inductive Command where
  | start (name : String) (attributes : Attributes)
  /-- Ends the innermost open element. -/
  | finish
  /-- Writes an end tag without regard to the open elements. -/
  | finishNamed (name : String)
  | characters (text : String)
  | instruction (target : String) (data : Option String)
  /-- Ends every open element. -/
  | close
  deriving Repr, DecidableEq

namespace Writer

variable {σ : Type}

def depth (w : Writer σ) : Nat := w.openElements.length

def emit (sink : Sink σ) (event : MarkupEvent) (w : Writer σ) : Except SinkError Unit × Writer σ :=
  let (verdict, s) := sink.offer event w.sink
  (verdict, { w with sink := s })

/-- Starts an element, which is open from then on if the sink took up its start tag. -/
def start (sink : Sink σ) (name : String) (attributes : Attributes) (w : Writer σ) :
    Except SinkError Unit × Writer σ :=
  match w.emit sink (.startElement name attributes) with
  | (.ok _, w) => (.ok (), { w with openElements := name :: w.openElements })
  | (.error e, w) => (.error e, w)

/-- Ends the innermost open element, which is no longer open even if the sink rejects its end. -/
def finish (sink : Sink σ) (w : Writer σ) : Except SinkError Unit × Writer σ :=
  match w.openElements with
  | [] => (.ok (), w)
  | name :: outer => emit sink (.endElement name) { w with openElements := outer }

/-- Offers an end tag for each name in turn; the first rejection is the verdict. -/
def finishAll (sink : Sink σ) : List String → σ → Except SinkError Unit × σ
  | [], s => (.ok (), s)
  | name :: rest, s =>
    let (verdict, s) := sink.offer (.endElement name) s
    let (later, s) := finishAll sink rest s
    (match verdict with
      | .ok _ => later
      | .error e => .error e, s)

/-- Ends every open element, innermost first, going on after rejections. -/
def close (sink : Sink σ) (w : Writer σ) : Except SinkError Unit × Writer σ :=
  let (verdict, s) := finishAll sink w.openElements w.sink
  (verdict, { sink := s, openElements := [] })

def perform (sink : Sink σ) : Command → Writer σ → Except SinkError Unit × Writer σ
  | .start name attributes, w => w.start sink name attributes
  | .finish, w => w.finish sink
  | .finishNamed name, w => w.emit sink (.endElement name)
  | .characters text, w => w.emit sink (.characters text)
  | .instruction target data, w => w.emit sink (.instruction target (data.getD ""))
  | .close, w => w.close sink

end Writer

end DitaTopic.Markup
