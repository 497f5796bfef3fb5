import DitaTopic.Toml.Number

/-!
# TOML points in time

The spellings of dates, times and both together. A date is one of the calendar; a
minute may have 61 seconds, and seconds may be left out; an offset is less than a day.
-/

namespace DitaTopic.Toml

/-- The number that exactly `count` digits at the start spell, and what follows them. -/
def fixedDigits? (count : Nat) (cs : List Char) : Option (Nat × List Char) :=
  let digits := cs.take count
  if digits.length = count ∧ digits.all Char.isDigit then
    some (digitsValue 10 digits, cs.drop count)
  else none

def after? (expected : Char) : List Char → Option (List Char)
  | [] => none
  | c :: rest => if c = expected then some rest else none

/-- Whether a year has a 29th of February. -/
def isLeapYear (year : Nat) : Bool := year % 4 == 0 && (year % 100 != 0 || year % 400 == 0)

/-- The number of days of a month, counted from 1. -/
def daysInMonth (year month : Nat) : Nat :=
  if month = 2 then if isLeapYear year then 29 else 28
  else if [4, 6, 9, 11].contains month then 30
  else 31

def afterDate? (cs : List Char) : Option (List Char) := do
  let (year, cs) ← fixedDigits? 4 cs
  let (month, cs) ← fixedDigits? 2 (← after? '-' cs)
  let (day, cs) ← fixedDigits? 2 (← after? '-' cs)
  if 1 ≤ month ∧ month ≤ 12 ∧ 1 ≤ day ∧ day ≤ daysInMonth year month then some cs else none

/-- What follows the fraction of a second, if there is one. -/
def afterFraction? : List Char → Option (List Char)
  | '.' :: rest =>
    if (rest.head?.map Char.isDigit).getD false then some (rest.dropWhile Char.isDigit) else none
  | cs => some cs

/-- What follows the seconds of a time, if it has any. -/
def afterSeconds? : List Char → Option (List Char)
  | ':' :: rest => do
    let (second, cs) ← fixedDigits? 2 rest
    if second ≤ 60 then afterFraction? cs else none
  | cs => some cs

/-- What follows a time of day. -/
def afterTime? (cs : List Char) : Option (List Char) := do
  let (hour, cs) ← fixedDigits? 2 cs
  let (minute, cs) ← fixedDigits? 2 (← after? ':' cs)
  if hour ≤ 23 ∧ minute ≤ 59 then afterSeconds? cs else none

/-- Whether the rest of a date with a time is an offset or nothing. -/
def isOffset : List Char → Bool
  | [] => true
  | ['Z'] => true
  | ['z'] => true
  | sign :: rest =>
    if sign = '+' ∨ sign = '-' then
      match (do
        let (hour, cs) ← fixedDigits? 2 rest
        let (minute, cs) ← fixedDigits? 2 (← after? ':' cs)
        some (hour, minute, cs)) with
      | some (hour, minute, []) => hour ≤ 23 && minute ≤ 59
      | _ => false
    else false

/-- Whether a token spells a date, a time or both. -/
def isMoment (token : List Char) : Bool :=
  match afterDate? token with
  | some [] => true
  | some (separator :: rest) =>
    [' ', 'T', 't'].contains separator && ((afterTime? rest).map isOffset).getD false
  | none => afterTime? token == some []

end DitaTopic.Toml
