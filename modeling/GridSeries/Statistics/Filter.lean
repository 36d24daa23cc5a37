import GridSeries.Interval

/-! The values of a list at the points of some intervals: each once and in order, however the intervals lie. -/
namespace GridSeries.Statistics

/-- Positions from `start` on, before `stop`. -/
structure Span where
  start : Nat
  stop : Nat
deriving DecidableEq, Repr

namespace Span

/-- The positions of an interval in a list of the given length, if there are any. -/
def ofInterval? (length : Nat) (r : Interval) : Option Span :=
  let start := max r.lower 0
  let stop := min (clampPoint (r.upper + 1)) length
  if start < stop then some ⟨start.toNat, stop.toNat⟩ else none

/-- The order of spans: by start, then by end. -/
def le (s t : Span) : Bool := decide (s.start < t.start) || (s.start == t.start && decide (s.stop ≤ t.stop))

/-- Joins spans in order that overlap or touch, the first of them being `current`. -/
def merge (current : Span) : List Span → List Span
  | [] => [current]
  | s :: rest =>
    if s.start ≤ current.stop then merge ⟨current.start, max current.stop s.stop⟩ rest
    else current :: merge s rest

/-- Disjoint spans with the same positions, in order. -/
def mergeAll (spans : List Span) : List Span :=
  match spans.mergeSort le with
  | [] => []
  | s :: rest => merge s rest

def slice {α : Type} (xs : List α) (s : Span) : List α := (xs.drop s.start).take (s.stop - s.start)

end Span

/-- The elements at the points of the intervals. -/
def filterByIntervals {α : Type} (xs : List α) (rs : List Interval) : List α :=
  (Span.mergeAll (rs.filterMap (Span.ofInterval? xs.length))).flatMap (Span.slice xs)

end GridSeries.Statistics
