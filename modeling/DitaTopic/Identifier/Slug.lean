import DitaTopic.Text.Alphanumeric
import DitaTopic.Text.Blank
import DitaTopic.Text.LowerCase

/-!
# Slugs

A slug keeps the letters and digits of a text in lower case, turns chosen characters
into dashes and drops the rest. White space around the text does not count.
-/

namespace DitaTopic.Identifier

/-- Which characters become dashes, and whether a dash may follow a dash. -/
structure SlugRule where
  dashChars : List Char
  collapse : Bool
  deriving Repr, DecidableEq

namespace SlugRule

/-- The slug written so far, last character first, with the next character of the text added. -/
def push (rule : SlugRule) (written : List Char) (c : Char) : List Char :=
  if Text.isAlphanumeric c then (Text.lowerCase c).reverse ++ written
  else if rule.dashChars.contains c && !(rule.collapse && written.head? == some '-') then
    '-' :: written
  else written

def slugChars (rule : SlugRule) (text : List Char) : List Char :=
  ((Text.trim text).foldl rule.push []).reverse

def slug (rule : SlugRule) (text : String) : String := String.ofList (rule.slugChars text.toList)

end SlugRule

end DitaTopic.Identifier
