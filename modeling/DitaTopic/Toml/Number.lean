/-!
# TOML numbers

The spellings of integers and floats, and the numbers they stand for. An underscore may
stand between two digits, and a decimal number has no superfluous leading zero.

A spelling need not stand for a number. An integer must fit into 64 bits and have digits
of its base only, at least one; after an underscore the spelling of a decimal integer may
hold other characters. A float must not round to infinity unless it says so.
-/

namespace DitaTopic.Toml

/-- The value of a digit in bases up to sixteen. -/
def digitValue (c : Char) : Nat :=
  if c.isDigit then c.toNat - 0x30
  else if 'a' ≤ c ∧ c ≤ 'f' then c.toNat - 0x57
  else c.toNat - 0x37

def isHexDigit (c : Char) : Bool :=
  c.isDigit || ('a' ≤ c && c ≤ 'f') || ('A' ≤ c && c ≤ 'F')

/-- Whether a character is a digit in a base up to sixteen. -/
def isDigitOf (base : Nat) (c : Char) : Bool := isHexDigit c && digitValue c < base

/-- The number that digits spell in a base. -/
def digitsValue (base : Nat) (digits : List Char) : Nat :=
  digits.foldl (fun n c => n * base + digitValue c) 0

/-- Splits a sign off; `true` is minus. -/
def splitSign : List Char → Option Bool × List Char
  | '+' :: rest => (some false, rest)
  | '-' :: rest => (some true, rest)
  | cs => (none, cs)

def signed (negative : Bool) (n : Nat) : Int := if negative then -Int.ofNat n else Int.ofNat n

/-- The characters without underscores, each of which stands between two digits. Before the first
character there is a digit if `afterDigit` says so. -/
def ungroup? (isDigit : Char → Bool) (afterDigit : Bool) : List Char → Option (List Char)
  | [] => some []
  | '_' :: rest =>
    if afterDigit && (rest.head?.map isDigit).getD false then ungroup? isDigit false rest else none
  | c :: rest => (ungroup? isDigit (isDigit c) rest).map (c :: ·)

/-- An integer as it is spelled: its base, its sign and what stands for its digits. -/
structure IntegerSpelling where
  base : Nat
  negative : Bool
  digits : List Char
  deriving Repr, DecidableEq

/-- Whether an integer fits into 64 bits with sign. -/
def fitsInt64 (n : Int) : Bool := -9223372036854775808 ≤ n && n ≤ 9223372036854775807

def IntegerSpelling.value? (s : IntegerSpelling) : Option Int :=
  let n := signed s.negative (digitsValue s.base s.digits)
  if s.digits.isEmpty || !s.digits.all (isDigitOf s.base) || !fitsInt64 n then none else some n

/-- The spelling after the mark of a base: digits of it, possibly none. -/
def basedSpelling? (base : Nat) (cs : List Char) : Option IntegerSpelling :=
  if cs.all fun c => c == '_' || isDigitOf base c then
    (ungroup? (isDigitOf base) false cs).map fun digits => ⟨base, false, digits⟩
  else none

/-- Whether a character is part of floats only. -/
def isFloatMark (c : Char) : Bool := c == '.' || c == 'e' || c == 'E'

/-- The spelling of a decimal integer: a sign, if any, and digits, possibly with underscores. From
the first underscore on there may be any characters but those that make it a float. -/
def decimalSpelling? (token : List Char) : Option IntegerSpelling := do
  let (sign, cs) := splitSign token
  let grouped ← match cs.dropWhile Char.isDigit with
    | [] => some cs
    | '_' :: rest => if rest.any isFloatMark then none else some cs
    | _ => none
  let digits ← ungroup? isHexDigit false grouped
  if digits.isEmpty || (cs.head? == some '0' && 1 < digits.length) then none
  else some ⟨10, sign == some true, digits⟩

/-- The integer spelling that a token is. -/
def integerSpelling? : List Char → Option IntegerSpelling
  | '0' :: 'x' :: rest => basedSpelling? 16 rest
  | '0' :: 'o' :: rest => basedSpelling? 8 rest
  | '0' :: 'b' :: rest => basedSpelling? 2 rest
  | token => decimalSpelling? token

/-- A float as it is spelled, without its sign. -/
inductive FloatSpelling where
  /-- One of the names for infinity and no number. -/
  | named
  /-- The decimal number `digits · 10 ^ exponent`. -/
  | decimal (digits : List Char) (exponent : Int)
  deriving Repr, DecidableEq

/-- The least magnitude that rounds to infinity. -/
def floatOverflow : Nat := Nat.pow 2 1024 - Nat.pow 2 970

/-- Whether a float rounds to what its spelling says: infinity is only for its name. -/
def FloatSpelling.inRange : FloatSpelling → Bool
  | named => true
  | decimal digits exponent =>
    let digits := digits.dropWhile (· == '0')
    let magnitude := (digits.length : Int) + exponent
    if digits.isEmpty || magnitude < 309 then true
    else if 310 < magnitude then false
    else if 0 ≤ exponent then digitsValue 10 digits * Nat.pow 10 exponent.toNat < floatOverflow
    else digitsValue 10 digits < floatOverflow * Nat.pow 10 (-exponent).toNat

/-- The digits after a point, of which there is at least one, and what follows them. Without a point
there are none. -/
def fraction? : List Char → Option (List Char × List Char)
  | '.' :: rest =>
    let digits := rest.takeWhile Char.isDigit
    if digits.isEmpty then none else some (digits, rest.dropWhile Char.isDigit)
  | cs => some ([], cs)

/-- The exponent after its mark, which may begin with zeros. Without a mark it is zero. -/
def exponent? : List Char → Option Int
  | [] => some 0
  | mark :: rest =>
    let (sign, digits) := splitSign rest
    if (mark == 'e' || mark == 'E') && !digits.isEmpty && digits.all Char.isDigit then
      some (signed (sign == some true) (digitsValue 10 digits))
    else none

/-- The float spelling that a token is: a decimal number with a fraction, an exponent or both, or
one of the names for infinity and no number. -/
def floatSpelling? (token : List Char) : Option FloatSpelling := do
  let spelled := (splitSign token).2
  if spelled == "inf".toList || spelled == "nan".toList then some .named
  else
    let cs ← ungroup? Char.isDigit false spelled
    let whole := cs.takeWhile Char.isDigit
    let parts := cs.dropWhile Char.isDigit
    if whole.isEmpty || parts.isEmpty || (spelled.head? == some '0' && 1 < whole.length) then none
    else
      let (places, rest) ← fraction? parts
      let exponent ← exponent? rest
      some (.decimal (whole ++ places) (exponent - places.length))

end DitaTopic.Toml
