import GridSeries.Calendar.Instant
import GridSeries.Interval
import GridSeries.Json.Basic

/-! How a series is sampled: when it starts, how far its points are apart, and how many there are. -/
namespace GridSeries

/-- The times of the points of a series; the spacing is in milliseconds. -/
structure Sampling where
  start : Instant
  spacing : Int
  count : Nat
deriving DecidableEq, Repr

namespace Sampling

/-- The time of a point; none past the last point or where no instant can be told. -/
def timeAt? (s : Sampling) (point : Nat) : Option Instant :=
  let offset := point * s.spacing
  let t : Instant := ⟨s.start.millis + offset⟩
  if point < s.count ∧ point ≤ maxPoint ∧ minPoint ≤ offset ∧ offset ≤ maxPoint ∧ t.inRange then some t else none

/-- The last point at or before a time; none before the first point or a spacing past the last. -/
def pointAt? (s : Sampling) (t : Instant) : Option Nat :=
  if s.spacing ≤ 0 ∨ t.millis < s.start.millis then none
  else
    let point := ((t.millis - s.start.millis) / s.spacing).toNat
    if point < s.count then some point else none

/-- All points; none if there are no points. -/
def fullInterval? (s : Sampling) : Option Interval :=
  if 0 < s.count ∧ (s.count : Int) ≤ maxPoint then some ⟨0, s.count - 1⟩ else none

def toJson (s : Sampling) : Json :=
  .object [("start", .string s.start.render), ("spacing_ms", .ofInt s.spacing), ("point_count", .ofNat s.count)]

end Sampling
end GridSeries
