import GridSeries.Selection

/-! Cutting intervals into chunks of a fixed number of points. The points of all intervals are numbered in one
sequence, which is cut after every `size` of them, so a chunk may reach over a gap between intervals. The last point of
a piece is found from the point past it, so a chunk with the largest point of all has no answer. -/
namespace GridSeries

/-- Disjoint intervals in ascending order, each with the number of points before it, and the size of chunks. -/
structure Cutter where
  placed : List (Nat × Interval)
  total : Nat
  size : Nat
deriving DecidableEq, Repr

namespace Cutter

/-- Pairs each interval with the number of points before it. -/
def place (before : Nat) : List Interval → List (Nat × Interval)
  | [] => []
  | r :: rest => (before, r) :: place (before + r.size) rest

def make (intervals : List Interval) (size : Int) : Except Fault Cutter := do
  if size < 1 then throw (.chunkSize size)
  if intervals.isEmpty then throw (.config .noInterval)
  let arranged ← Interval.arrange intervals
  pure { placed := place 0 arranged, total := Interval.totalSize arranged, size := size.toNat }

def ofWindow (first last size : Int) : Except Fault Cutter := make [⟨first, last⟩] size

def intervals (c : Cutter) : List Interval := c.placed.map (·.2)

/-- The number of chunks: as many as hold all points, the last one perhaps not full. -/
def count (c : Cutter) : Nat := (c.total + c.size - 1) / c.size

/-- The number of the first chunk, whatever the cutter. -/
def offset (_ : Cutter) : Nat := 0

def hasChunk (c : Cutter) (index : Int) : Bool := decide (0 ≤ index) && decide (index < c.count)

/-- The positions of a chunk in the sequence of points: from the first, before the second. -/
def bounds (c : Cutter) (index : Nat) : Nat × Nat :=
  (index * c.size, min (index * c.size + c.size) c.total)

/-- The place of the last interval that begins at or before a position. -/
def firstTouched (c : Cutter) (start : Nat) : Nat := c.placed.countP (fun e => decide (e.1 ≤ start)) - 1

/-- The intervals that a stretch of positions may meet: none ends before the stretch or begins after it. -/
def touched (c : Cutter) (start stop : Nat) : List (Nat × Interval) :=
  (c.placed.drop (c.firstTouched start)).takeWhile fun e => decide (e.1 < stop)

/-- The part of an interval whose positions lie from `start` on, before `stop`, if there is one. There is no answer if
no word holds the point past it. -/
def piece? (start stop : Nat) (e : Nat × Interval) : Option (Option Interval) :=
  let low := max start e.1 - e.1
  let high := min stop (e.1 + e.2.size) - e.1
  if low < high then do
    let past ← Word.signed? (e.2.lower + high)
    some (some ⟨e.2.lower + low, past - 1⟩)
  else some none

/-- The exact pieces of a chunk; a chunk that does not exist has none. There is no answer if a piece has none. -/
def segments (c : Cutter) (index : Int) : Option (List Interval) :=
  if c.hasChunk index then do
    let (start, stop) := c.bounds index.toNat
    let pieces ← (c.touched start stop).mapM (piece? start stop)
    some (pieces.filterMap id)
  else some []

def hull (c : Cutter) (index : Int) : Option Interval := (c.segments index).map Interval.hullOf

/-- The number of the chunk that holds a point; zero for a point that no chunk holds. -/
def chunkOf (c : Cutter) (point : Int) : Nat :=
  match c.placed.find? fun e => decide (point ∈ e.2) with
  | some (before, r) => (before + (point - r.lower).toNat) / c.size
  | none => 0

/-- The hulls of all chunks, in order. Chunks are counted in a word with a sign, and none are if it does not hold their
number. -/
def hulls (c : Cutter) : Option (List Interval) :=
  if c.count ≤ Word.maxSigned then (List.range c.count).mapM fun index : Nat => c.hull index else some []

end Cutter
end GridSeries
