import DitaTopic.Markup.Sink

/-!
# XML text

How markup events are written as XML: the text of each event, the indentation between
events, and the sink that collects the text as bytes, possibly up to a limit.
-/

namespace DitaTopic.Markup.Xml

/-- How a character stands in text and in attribute values. -/
def escapeChar : Char → List Char
  | '<' => "&lt;".toList
  | '>' => "&gt;".toList
  | '&' => "&amp;".toList
  | '\'' => "&apos;".toList
  | '"' => "&quot;".toList
  | c => [c]

def escape (text : String) : String := String.ofList (text.toList.flatMap escapeChar)

/-- The characters with every `?>` written as `? >`, read from the left. -/
def breakPiEnds : List Char → List Char
  | '?' :: '>' :: rest => '?' :: ' ' :: '>' :: breakPiEnds rest
  | c :: rest => c :: breakPiEnds rest
  | [] => []

/-- What stands between `<?` and `?>`. -/
def instructionContent (target data : String) : String :=
  if data.isEmpty then target else target ++ " " ++ String.ofList (breakPiEnds data.toList)

/-- One attribute with the space before it. -/
def attributeText (p : String × String) : String := " " ++ p.1 ++ "=\"" ++ escape p.2 ++ "\""

def startTag (name : String) (attributes : List (String × String)) : String :=
  "<" ++ name ++ String.join (attributes.map attributeText) ++ ">"

def endTag (name : String) : String := "</" ++ name ++ ">"

def instruction (target data : String) : String := "<?" ++ instructionContent target data ++ "?>"

/-- The declaration at the start of a document. -/
def declaration : String := "<?xml version=\"1.0\" encoding=\"UTF-8\"?>"

/-- What the text of the next event depends on: whether it starts on a line of its own, how far
that line is indented, and the namespaces to declare on the next start tag. -/
structure Layout where
  newLine : Bool := false
  width : Nat := 0
  namespaces : List (String × String) := []
  deriving Repr, DecidableEq, Inhabited

namespace Layout

/-- The line break before an event that starts on a line of its own. -/
def lead (indent : Nat) (layout : Layout) : String :=
  if indent ≠ 0 ∧ layout.newLine then "\n" ++ String.ofList (List.replicate layout.width ' ')
  else ""

end Layout

/-- The text of an event and the layout after it. With an indentation step of zero nothing is
written between events. -/
def write (indent : Nat) (layout : Layout) : MarkupEvent → String × Layout
  | .startDocument => (layout.lead indent ++ declaration, { layout with newLine := true })
  | .endDocument => ("", layout)
  | .bindNamespace short uri =>
    ("", { layout with namespaces := layout.namespaces ++ [("xmlns:" ++ short, uri)] })
  | .unbindNamespace _ => ("", layout)
  | .startElement name attributes =>
    (layout.lead indent ++ startTag name (layout.namespaces ++ attributes.items),
      { newLine := true, width := layout.width + indent, namespaces := [] })
  | .endElement name =>
    let layout := { layout with width := layout.width - indent }
    (layout.lead indent ++ endTag name, { layout with newLine := true })
  | .characters text => (escape text, { layout with newLine := false })
  | .instruction target data =>
    (layout.lead indent ++ instruction target data, { layout with newLine := true })

/-- The text of a sequence of events. -/
def writeAll (indent : Nat) : Layout → List MarkupEvent → String
  | _, [] => ""
  | layout, event :: rest =>
    let (text, layout) := write indent layout event
    text ++ writeAll indent layout rest

/-- A sequence of bytes that may be limited in size. -/
structure Output where
  bytes : ByteArray := ByteArray.empty
  limit : Option Nat := none

namespace Output

/-- Puts bytes at the end. Those beyond the limit are lost and the output reports it. -/
def put (out : Output) (more : ByteArray) : Bool × Output :=
  match out.limit with
  | none => (true, { out with bytes := out.bytes ++ more })
  | some limit =>
    let room := limit - out.bytes.size
    if more.size ≤ room then (true, { out with bytes := out.bytes ++ more })
    else (false, { out with bytes := out.bytes ++ more.extract 0 room })

end Output

/-- An XML text under construction. -/
structure State where
  layout : Layout := {}
  output : Output := {}

/-- An empty text, unlimited or limited to a number of bytes. -/
def State.start (limit : Option Nat) : State := { output := { limit } }

/-- The sink that writes XML with a given indentation step. -/
def sink (indent : Nat) : Sink State where
  offer event s :=
    let (text, layout) := write indent s.layout event
    let (fits, output) := s.output.put text.toUTF8
    (if fits then .ok () else .error .medium, { layout, output })

/-- The bytes as text. Bytes cut off inside a character at the end read as a replacement
character. -/
def State.text (s : State) : String :=
  let bytes := s.output.bytes
  match String.fromUTF8? bytes with
  | some text => text
  | none =>
    let whole := [1, 2, 3].findSome? fun n => String.fromUTF8? (bytes.extract 0 (bytes.size - n))
    whole.getD "" ++ String.singleton (Char.ofNat 0xFFFD)

end DitaTopic.Markup.Xml
