import GridSeries.Calendar.Instant
import GridSeries.Text.Quoted

/-! Reading instants. The written form is accepted with spaces before its numbers and signs, with a blank in place of
the letter between date and time, and with any offset from the meridian. -/
namespace GridSeries.Instant

open Calendar

def skipBlank (cs : List Char) : List Char := cs.dropWhile Text.isBlankChar

def takeNumber (width : Nat) (cs : List Char) : Option (Nat × List Char) :=
  let digits := (cs.takeWhile Text.isDigit).take width
  if digits.isEmpty then none else some (Text.numeral digits, cs.drop digits.length)

def takePadded (width : Nat) (cs : List Char) : Option (Nat × List Char) := takeNumber width (skipBlank cs)

/-- A year: four digits at most, or any number of them after a sign. -/
def takeYear (cs : List Char) : Option (Int × List Char) :=
  match skipBlank cs with
  | '-' :: rest => (takeNumber rest.length rest).map fun (n, after) => (-(n : Int), after)
  | '+' :: rest => (takeNumber rest.length rest).map fun (n, after) => ((n : Int), after)
  | cs => (takeNumber 4 cs).map fun (n, after) => ((n : Int), after)

def takeSign (sign : Char) (cs : List Char) : Option (List Char) :=
  match skipBlank cs with
  | c :: rest => if c = sign then some rest else none
  | [] => none

/-- The milliseconds of a fraction of a second, if a point follows; further digits are dropped. -/
def takeFraction : List Char → Option (Nat × List Char)
  | '.' :: rest =>
    let digits := rest.takeWhile Text.isDigit
    if digits.isEmpty then none
    else some (Text.numeral ((digits ++ ['0', '0', '0']).take 3), rest.drop digits.length)
  | cs => some (0, cs)

def twoDigits : List Char → Option (Nat × List Char)
  | a :: b :: rest => if Text.isDigit a && Text.isDigit b then some (Text.numeral [a, b], rest) else none
  | _ => none

/-- The offset from the meridian in seconds, after its sign: hours and minutes, with anything blank and colons
between them. -/
def takeOffset (cs : List Char) : Option (Int × List Char) := do
  let (hours, rest) ← twoDigits cs
  let (minutes, rest) ← twoDigits (rest.dropWhile fun c => c == ':' || Text.isBlankChar c)
  if 60 ≤ minutes ∨ 24 ≤ hours then none else some ((hours * 3600 + minutes * 60 : Nat), rest)

def takeZone : List Char → Option (Int × List Char)
  | 'Z' :: rest => some (0, rest)
  | 'z' :: rest => some (0, rest)
  | '+' :: rest => takeOffset rest
  | '-' :: rest => (takeOffset rest).map fun (n, after) => (-n, after)
  | '\u2212' :: rest => (takeOffset rest).map fun (n, after) => (-n, after)
  | a :: b :: c :: rest =>
    if a.toUpper = 'U' ∧ b.toUpper = 'T' ∧ c.toUpper = 'C' then some (0, rest) else none
  | _ => none

def takeSeparator : List Char → Option (List Char)
  | 'T' :: rest => some rest
  | 't' :: rest => some rest
  | ' ' :: rest => some rest
  | _ => none

def localMillis? (date : Date) (hour minute second millis : Nat) : Option Int :=
  if date.exists ∧ -262143 ≤ date.year ∧ date.year ≤ 262142 ∧ hour < 24 ∧ minute < 60 ∧ second < 60 then
    some (date.toDays * millisPerDay + (((hour * 60 + minute) * 60 + second) * 1000 + millis : Nat))
  else none

/-- The instant of a local date and time of day, at an offset in seconds. A minute may have a sixty-first second, which
is told as its sixtieth and a second more: it exists wherever the sixtieth does, even after the latest instant. -/
def ofLocal? (date : Date) (hour minute second millis : Nat) (offset : Int) : Option Instant := do
  let extra := if second = 60 then 1 else 0
  let t ← ofMillis? ((← localMillis? date hour minute (second - extra) millis) - offset * 1000)
  pure ⟨t.millis + extra * 1000⟩

def parse? (text : String) : Option Instant := do
  let (year, cs) ← takeYear text.toList
  let cs ← takeSign '-' cs
  let (month, cs) ← takePadded 2 cs
  let cs ← takeSign '-' cs
  let (day, cs) ← takePadded 2 cs
  let cs ← takeSeparator cs
  let (hour, cs) ← takePadded 2 cs
  let cs ← takeSign ':' cs
  let (minute, cs) ← takePadded 2 cs
  let cs ← takeSign ':' cs
  let (second, cs) ← takePadded 2 cs
  let (millis, cs) ← takeFraction cs
  let (offset, cs) ← takeZone (skipBlank cs)
  if (skipBlank cs).isEmpty then ofLocal? { year, month, day } hour minute second millis offset else none

end GridSeries.Instant
