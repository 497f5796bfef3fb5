import DitaTopic.Toml.Moment
import DitaTopic.Toml.Quoted
import DitaTopic.Toml.Table

/-!
# TOML files

A file is read line by line into tables. It has a value or it is malformed; where and
why it is malformed is not kept. Arrays and inline tables may be nested 80 deep, and a
key may have 80 parts. Between brackets and braces line breaks and comments may stand
wherever spaces may, except inside a key.
-/

namespace DitaTopic.Toml

/-- What follows all spaces, tabs, line breaks and comments at the start. -/
def skipTrivia (inComment : Bool) : List Char → Option (List Char)
  | [] => some []
  | '\n' :: rest => skipTrivia false rest
  | '\r' :: '\n' :: rest => skipTrivia false rest
  | c :: rest =>
    if inComment then if isPlain c then skipTrivia true rest else none
    else if c = ' ' ∨ c = '\t' then skipTrivia false rest
    else if c = '#' then skipTrivia true rest
    else some (c :: rest)

/-- What follows the line break at the end of a comment, or the end of the text. -/
def afterComment? : List Char → Option (List Char)
  | [] => some []
  | '\n' :: rest => some rest
  | '\r' :: '\n' :: rest => some rest
  | c :: rest => if isPlain c then afterComment? rest else none

/-- What follows the end of a line that has nothing more on it than a comment. -/
def afterLine? (cs : List Char) : Option (List Char) :=
  match dropSpace cs with
  | '#' :: rest => afterComment? rest
  | [] => some []
  | rest => afterLineBreak? rest

/-- Whether a character may stand in a key without quotes. -/
def isBareKeyChar (c : Char) : Bool := c.isAlphanum || c == '_' || c == '-'

def keyPart? (cs : List Char) : Option (String × List Char) :=
  match cs.takeWhile isBareKeyChar with
  | [] => shortString? cs
  | bare => some (String.ofList bare, cs.dropWhile isBareKeyChar)

/-- A key of one or more parts, at most so many, with dots between them, and what follows it and the
space after. -/
def key? : Nat → Scan (List String)
  | 0, _ => none
  | parts + 1, cs => do
    let (part, rest) ← keyPart? (dropSpace cs)
    match dropSpace rest with
    | '.' :: rest => (key? parts rest).map fun r => (part :: r.1, r.2)
    | rest => some ([part], rest)

def partLimit : Nat := 80

/-- Whether a character may stand in a value without quotes. -/
def isTokenChar (c : Char) : Bool := !"=,[]\x7b\x7d \t#\r\n".toList.contains c

/-- A value without quotes and brackets. A date may be followed by a space and a time. -/
def token? (cs : List Char) : List Char × List Char :=
  let first := cs.takeWhile isTokenChar
  let rest := cs.dropWhile isTokenChar
  match afterDate? first, rest with
  | some [], ' ' :: c :: more =>
    if c.isDigit then
      (first ++ ' ' :: (c :: more).takeWhile isTokenChar, (c :: more).dropWhile isTokenChar)
    else (first, rest)
  | _, _ => (first, rest)

/-- What is written as a token. -/
def ofToken? (token : List Char) : Option Written :=
  if token = "true".toList then some (.boolean true)
  else if token = "false".toList then some (.boolean false)
  else if isMoment token then some (.datetime (String.ofList token))
  else
    match integerSpelling? token with
    | some spelling => some (.integer spelling)
    | none => (floatSpelling? token).map .float

/-- A value other than an array or an inline table. -/
def scalar? (cs : List Char) : Option (Written × List Char) :=
  match cs with
  | '"' :: _ => (string? cs).map fun r => (.string r.1, r.2)
  | '\'' :: _ => (string? cs).map fun r => (.string r.1, r.2)
  | _ =>
    let (token, rest) := token? cs
    (ofToken? token).map fun v => (v, rest)

/-- The items of an array after its opening bracket. A comma may follow the last one. -/
def arrayItems (item : Scan Written) : Nat → Scan (List Written)
  | 0, _ => none
  | fuel + 1, cs => do
    match ← skipTrivia false cs with
    | ']' :: rest => some ([], rest)
    | cs =>
      let (v, rest) ← item cs
      match ← skipTrivia false rest with
      | ',' :: rest => (arrayItems item fuel rest).map fun r => (v :: r.1, r.2)
      | ']' :: rest => some ([v], rest)
      | _ => none

/-- A key, an equals sign and a value, given how to skip what may stand between them. -/
def assignment? (skip : List Char → Option (List Char)) (item : Scan Written) :
    Scan (List String × Written) := fun cs => do
  let (path, rest) ← key? partLimit cs
  match ← skip rest with
  | '=' :: rest => (item (← skip rest)).map fun r => ((path, r.1), r.2)
  | _ => none

/-- The entries of an inline table after its opening brace. A comma may follow the last one. -/
def inlineEntries (item : Scan Written) : Nat → Entries → Scan Entries
  | 0, _, _ => none
  | fuel + 1, es, cs => do
    match ← skipTrivia false cs with
    | '}' :: rest => some (es, rest)
    | cs =>
      let ((path, v), rest) ← assignment? (skipTrivia false) item cs
      let es ← es.assign (.value v) path
      match ← skipTrivia false rest with
      | ',' :: rest => inlineEntries item fuel es rest
      | '}' :: rest => some (es, rest)
      | _ => none

/-- A value in which arrays and inline tables are nested at most `depth` deep. -/
def value? : Nat → Scan Written
  | 0, cs => scalar? cs
  | depth + 1, cs =>
    match cs with
    | '[' :: rest =>
      (arrayItems (value? depth) (rest.length + 1) rest).map fun r => (.array r.1, r.2)
    | '{' :: rest =>
      (inlineEntries (value? depth) (rest.length + 1) [] rest).map fun r =>
        (.table (Item.writtenEntries r.1), r.2)
    | _ => scalar? cs

/-- How deep arrays and inline tables may be nested. -/
def nestingLimit : Nat := 80

/-- The tables read so far and the name of the one that assignments go to. -/
structure Progress where
  entries : Entries := []
  header : List String := []

/-- Takes up one line, or more if a value runs over them. -/
def statement? (p : Progress) (cs : List Char) : Option (Progress × List Char) :=
  match dropSpace cs with
  | '[' :: '[' :: rest => do
    match ← key? partLimit rest with
    | (path, ']' :: ']' :: rest) =>
      let entries ← p.entries.openElement path
      some (⟨entries, path⟩, ← afterLine? rest)
    | _ => none
  | '[' :: rest => do
    match ← key? partLimit rest with
    | (path, ']' :: rest) =>
      let entries ← p.entries.openTable path
      some (⟨entries, path⟩, ← afterLine? rest)
    | _ => none
  | cs => do
    match afterLine? cs with
    | some rest => some (p, rest)
    | none =>
      let ((path, v), rest) ← assignment? (some ∘ dropSpace) (value? nestingLimit) cs
      let entries ← p.entries.assignIn p.header path (.value v)
      some ({ p with entries }, ← afterLine? rest)

/-- Takes up lines to the end of the text. -/
def statements? : Nat → Progress → List Char → Option Progress
  | _, p, [] => some p
  | 0, _, _ => none
  | fuel + 1, p, cs => do
    let (p, rest) ← statement? p cs
    statements? fuel p rest

def dropByteOrderMark : List Char → List Char
  | '\uFEFF' :: rest => rest
  | cs => cs

/-- The entries of a file's top table as they are written, or nothing if the file is malformed. -/
def parse? (text : String) : Option (List (String × Written)) :=
  let cs := dropByteOrderMark text.toList
  (statements? (cs.length + 1) {} cs).map fun p => Item.writtenEntries p.entries

end DitaTopic.Toml
