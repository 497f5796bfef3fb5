/-!
# White space

The Unicode property White_Space, and the operations on texts that depend on it.
All of them work on lists of characters; the versions on `String` only convert.
-/

namespace DitaTopic.Text

/-- The code points with the property White_Space. -/
def blankCodePoints : List Nat :=
  [0x9, 0xA, 0xB, 0xC, 0xD, 0x20, 0x85, 0xA0, 0x1680, 0x2000, 0x2001, 0x2002, 0x2003, 0x2004,
    0x2005, 0x2006, 0x2007, 0x2008, 0x2009, 0x200A, 0x2028, 0x2029, 0x202F, 0x205F, 0x3000]

def isBlank (c : Char) : Bool := blankCodePoints.contains c.toNat

/-- The text without the white space at its start. -/
def trimStart (cs : List Char) : List Char := cs.dropWhile isBlank

/-- The text without the white space at its end. -/
def trimEnd (cs : List Char) : List Char := (cs.reverse.dropWhile isBlank).reverse

/-- The text without the white space around it. -/
def trim (cs : List Char) : List Char := trimEnd (trimStart cs)

/-- The first word of a text, if it has one. -/
def firstWord? (cs : List Char) : Option (List Char) :=
  match (trimStart cs).takeWhile fun c => !isBlank c with
  | [] => none
  | word => some word

end DitaTopic.Text
