/-!
# Percent-encoding

A link target keeps every printable ASCII character but the ones that may not stand
in a URL; every other byte of its UTF-8 form is written as `%XX`. The percent sign
itself is kept, so a target that is already encoded does not change.
-/

namespace DitaTopic.Text.Percent

/-- Printable ASCII bytes that may not stand in a URL:
space, quotation mark, angle brackets, braces, bar, backslash, caret and grave accent. -/
def reserved : List UInt8 := [0x20, 0x22, 0x3C, 0x3E, 0x7B, 0x7D, 0x7C, 0x5C, 0x5E, 0x60]

/-- Whether a byte is written as it is. -/
def isKept (b : UInt8) : Bool := 0x20 ≤ b && b < 0x7F && !reserved.contains b

/-- The upper-case hexadecimal digit of a number below sixteen. -/
def hexDigit (n : Nat) : Char := if n < 10 then Char.ofNat (0x30 + n) else Char.ofNat (0x37 + n)

/-- What is written for one byte. -/
def encodeByte (b : UInt8) : List Char :=
  if isKept b then [Char.ofNat b.toNat]
  else ['%', hexDigit (b.toNat / 16), hexDigit (b.toNat % 16)]

def encode (url : String) : String := String.ofList (url.toUTF8.toList.flatMap encodeByte)

end DitaTopic.Text.Percent
