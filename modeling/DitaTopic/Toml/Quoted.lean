import DitaTopic.Toml.Number

/-!
# TOML strings

The four kinds of quoted text. Basic strings have escapes, literal strings do not; both
may run over several lines if their quotes are tripled. Control characters other than
the tab, and line breaks where they are allowed, do not occur in them.
-/

namespace DitaTopic.Toml

/-- A reader takes a value off the start of a text and leaves the rest. -/
abbrev Scan (α : Type) := List Char → Option (α × List Char)

/-- Whether a character may stand as it is in comments and strings. -/
def isPlain (c : Char) : Bool := c == '\t' || (0x20 ≤ c.toNat && c.toNat != 0x7F)

/-- The character with the code point that hexadecimal digits spell. -/
def codePoint? (digits : List Char) : Option Char :=
  let n := digitsValue 16 digits
  if digits.all isHexDigit && (n < 0xD800 || (0xDFFF < n && n < 0x110000)) then some (Char.ofNat n)
  else none

/-- The character of an escape, read after the backslash. -/
def escape? : Scan Char
  | 'b' :: rest => some ('\x08', rest)
  | 't' :: rest => some ('\t', rest)
  | 'n' :: rest => some ('\n', rest)
  | 'f' :: rest => some ('\x0c', rest)
  | 'r' :: rest => some ('\r', rest)
  | 'e' :: rest => some ('\x1b', rest)
  | '"' :: rest => some ('"', rest)
  | '\\' :: rest => some ('\\', rest)
  | 'x' :: rest => numbered 2 rest
  | 'u' :: rest => numbered 4 rest
  | 'U' :: rest => numbered 8 rest
  | _ => none
where
  /-- An escape that spells out a code point in `count` digits. -/
  numbered (count : Nat) (cs : List Char) : Option (Char × List Char) :=
    if (cs.take count).length = count then
      (codePoint? (cs.take count)).map fun c => (c, cs.drop count)
    else none

/-- The text up to the closing quote of a basic string. -/
def basicBody : Nat → Scan (List Char)
  | 0, _ => none
  | _ + 1, [] => none
  | _ + 1, '"' :: rest => some ([], rest)
  | fuel + 1, '\\' :: rest => do
    let (c, rest) ← escape? rest
    let (text, rest) ← basicBody fuel rest
    some (c :: text, rest)
  | fuel + 1, c :: rest =>
    if isPlain c then (basicBody fuel rest).map fun r => (c :: r.1, r.2) else none

/-- The text up to the closing quote of a literal string. -/
def literalBody : Scan (List Char)
  | [] => none
  | '\'' :: rest => some ([], rest)
  | c :: rest => if isPlain c then (literalBody rest).map fun r => (c :: r.1, r.2) else none

/-- The quotes that a run of quotes after three closing ones leaves to the text, two at most. -/
def extraQuotes (quote : Char) : Scan (List Char)
  | a :: b :: rest =>
    if a = quote then
      if b = quote then some ([quote, quote], rest) else some ([quote], b :: rest)
    else some ([], a :: b :: rest)
  | [a] => if a = quote then some ([quote], []) else some ([], [a])
  | [] => some ([], [])

def afterLineBreak? : List Char → Option (List Char)
  | '\n' :: rest => some rest
  | '\r' :: '\n' :: rest => some rest
  | _ => none

/-- What follows the spaces and tabs at the start. -/
def dropSpace (cs : List Char) : List Char := cs.dropWhile fun c => c == ' ' || c == '\t'

/-- What follows all spaces, tabs and line breaks at the start. -/
def dropBlankLines : Nat → List Char → List Char
  | 0, cs => cs
  | fuel + 1, cs =>
    let rest := dropSpace cs
    match afterLineBreak? rest with
    | some next => dropBlankLines fuel next
    | none => rest

/-- The text up to the closing quotes of a basic string over several lines. A backslash at the end
of a line takes away the line break and the white space after it. -/
def longBasicBody : Nat → Scan (List Char)
  | 0, _ => none
  | _ + 1, [] => none
  | _ + 1, '"' :: '"' :: '"' :: rest => extraQuotes '"' rest
  | fuel + 1, '\\' :: rest =>
    match afterLineBreak? (dropSpace rest) with
    | some next => longBasicBody fuel (dropBlankLines fuel next)
    | none => do
      let (c, rest) ← escape? rest
      let (text, rest) ← longBasicBody fuel rest
      some (c :: text, rest)
  | fuel + 1, '\r' :: '\n' :: rest =>
    (longBasicBody fuel rest).map fun r => ('\r' :: '\n' :: r.1, r.2)
  | fuel + 1, c :: rest =>
    if isPlain c || c == '\n' then (longBasicBody fuel rest).map fun r => (c :: r.1, r.2)
    else none

/-- The text up to the closing quotes of a literal string over several lines. -/
def longLiteralBody : Scan (List Char)
  | [] => none
  | '\'' :: '\'' :: '\'' :: rest => extraQuotes '\'' rest
  | '\r' :: '\n' :: rest => (longLiteralBody rest).map fun r => ('\r' :: '\n' :: r.1, r.2)
  | c :: rest =>
    if isPlain c || c == '\n' then (longLiteralBody rest).map fun r => (c :: r.1, r.2) else none

/-- What follows a line break directly after opening quotes, which does not belong to the text. -/
def dropFirstLineBreak (cs : List Char) : List Char := (afterLineBreak? cs).getD cs

def shortString? : Scan String
  | '"' :: rest => (basicBody (rest.length + 1) rest).map fun r => (String.ofList r.1, r.2)
  | '\'' :: rest => (literalBody rest).map fun r => (String.ofList r.1, r.2)
  | _ => none

def string? : Scan String
  | '"' :: '"' :: '"' :: rest =>
    let body := dropFirstLineBreak rest
    (longBasicBody (body.length + 1) body).map fun r => (String.ofList r.1, r.2)
  | '\'' :: '\'' :: '\'' :: rest =>
    (longLiteralBody (dropFirstLineBreak rest)).map fun r => (String.ofList r.1, r.2)
  | cs => shortString? cs

end DitaTopic.Toml
