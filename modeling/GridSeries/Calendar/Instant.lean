import GridSeries.Calendar.Date

/-! Instants in whole milliseconds since the start of 1970, and their written form. -/
namespace GridSeries

/-- The instant so many milliseconds after the start of 1970. -/
structure Instant where
  millis : Int
deriving DecidableEq, Repr

namespace Instant

open Calendar

def millisPerDay : Int := 86400000

/-- The first and the last instant that can be told. -/
def earliest : Instant := ⟨(Date.mk (-262143) 1 1).toDays * millisPerDay⟩

def latest : Instant := ⟨((Date.mk 262142 12 31).toDays + 1) * millisPerDay - 1⟩

def inRange (t : Instant) : Bool := decide (earliest.millis ≤ t.millis) && decide (t.millis ≤ latest.millis)

/-- The instant so many milliseconds after the start of 1970, if it can be told. -/
def ofMillis? (millis : Int) : Option Instant :=
  let t : Instant := ⟨millis⟩
  if t.inRange then some t else none

/-- The decimal digits of a number, at least `width` of them. -/
def padded (width n : Nat) : String :=
  let digits := Nat.toDigits 10 n
  String.ofList (List.replicate (width - digits.length) '0' ++ digits)

/-- Years of four digits stand without a sign, all others with one. -/
def yearText (year : Int) : String :=
  if 0 ≤ year ∧ year ≤ 9999 then padded 4 year.toNat
  else (if year < 0 then "-" else "+") ++ padded 4 year.natAbs

/-- The instant as date and time of day, with milliseconds only where there are some. -/
def render (t : Instant) : String :=
  let days := Int.fdiv t.millis millisPerDay
  let rest := (t.millis - days * millisPerDay).toNat
  let date := Date.ofDays days
  let millis := rest % 1000
  let seconds := rest / 1000
  yearText date.year ++ "-" ++ padded 2 date.month ++ "-" ++ padded 2 date.day ++ "T" ++
    padded 2 (seconds / 3600) ++ ":" ++ padded 2 (seconds / 60 % 60) ++ ":" ++ padded 2 (seconds % 60) ++
    (if millis = 0 then "" else "." ++ padded 3 millis) ++ "Z"

end Instant
end GridSeries
