import DitaTopic.Text.Blank

/-!
# Trailing blank lines

A code block keeps at most a given number of blank lines at its end. A line is blank
if it holds nothing but white space; the final line feed does not open a line.
-/

namespace DitaTopic.Text

/-- The lines of a text: its parts between line feeds, at least one. -/
def lines : List Char → List (List Char)
  | [] => [[]]
  | c :: rest =>
    if c = '\n' then [] :: lines rest
    else
      match lines rest with
      | [] => [[c]]
      | line :: more => (c :: line) :: more

def joinLines : List (List Char) → List Char
  | [] => []
  | [line] => line
  | line :: more => line ++ '\n' :: joinLines more

/-- The text without a line feed at its very end. -/
def dropFinalNewline (cs : List Char) : List Char :=
  if cs.getLast? = some '\n' then cs.dropLast else cs

/-- Whether a line holds nothing but white space. -/
def isBlankLine (line : List Char) : Bool := line.all isBlank

def trailingBlankCount (ls : List (List Char)) : Nat := (ls.reverse.takeWhile isBlankLine).length

/-- The text without its final line feed and without the blank lines beyond `max` at its end. -/
def trimTrailingBlankLines (max : Nat) (cs : List Char) : List Char :=
  let ls := lines (dropFinalNewline cs)
  joinLines (ls.take (ls.length - (trailingBlankCount ls - max)))

end DitaTopic.Text
