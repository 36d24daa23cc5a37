import GridSeries.Json.Basic
import GridSeries.Word

/-! Closed intervals of point numbers. -/
namespace GridSeries

/-- The points from `lower` to `upper`, both included; there are none when the bounds are inverted. -/
structure Interval where
  lower : Int
  upper : Int
deriving DecidableEq, Repr

def maxPoint : Int := Word.maxSigned

def minPoint : Int := Word.minSigned

def clampPoint (n : Int) : Int := max minPoint (min n maxPoint)

namespace Interval

/-- Stands for a chunk that does not exist. -/
def absent : Interval := ⟨-1, -1⟩

instance : Inhabited Interval := ⟨absent⟩

def size (r : Interval) : Nat := (r.upper + 1 - r.lower).toNat

/-- The number of points in intervals, a point counted as often as it occurs. -/
def totalSize : List Interval → Nat
  | [] => 0
  | r :: rest => r.size + totalSize rest

def isEmpty (r : Interval) : Bool := r.size == 0

instance : Membership Int Interval := ⟨fun r p => r.lower ≤ p ∧ p ≤ r.upper⟩

theorem mem_iff {r : Interval} {p : Int} : p ∈ r ↔ r.lower ≤ p ∧ p ≤ r.upper := Iff.rfl

instance (p : Int) (r : Interval) : Decidable (p ∈ r) :=
  inferInstanceAs (Decidable (r.lower ≤ p ∧ p ≤ r.upper))

/-- The smallest interval around pieces in ascending order. -/
def hullOf (pieces : List Interval) : Interval :=
  match pieces.head?, pieces.getLast? with
  | some first, some last => ⟨first.lower, last.upper⟩
  | _, _ => absent

/-- The bounds allow for a common point. -/
def meets (r s : Interval) : Bool := decide (r.lower ≤ s.upper) && decide (s.lower ≤ r.upper)

/-- Bounds are in order and not negative. -/
def isValid (r : Interval) : Bool := decide (0 ≤ r.lower) && decide (r.lower ≤ r.upper)

def render (r : Interval) : String := "[" ++ toString r.lower ++ ".." ++ toString r.upper ++ "]"

def toJson (r : Interval) : Json := .object [("lower", .ofInt r.lower), ("upper", .ofInt r.upper)]

end Interval
end GridSeries
