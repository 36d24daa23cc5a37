import GridSeries.Store.Basic

/-! Selections: the versions and the points that a run works on. -/
namespace GridSeries

namespace Interval

/-- The interval between two bounds, which must be in order and not negative. -/
def checked (lower upper : Int) : Except Fault Interval :=
  let r : Interval := ⟨lower, upper⟩
  if r.isValid then .ok r else .error (.badInterval r)

/-- The first two neighbours of a list that have a point in common. -/
def firstMeeting? : List Interval → Option (Interval × Interval)
  | r :: s :: rest => if r.meets s then some (r, s) else firstMeeting? (s :: rest)
  | _ => none

/-- Sorts intervals by lower bound; their bounds must be in order and no two may have a point in common. -/
def arrange (rs : List Interval) : Except Fault (List Interval) :=
  match rs.find? fun r => !r.isValid with
  | some r => .error (.badInterval r)
  | none =>
    let sorted := rs.mergeSort fun r s => decide (r.lower ≤ s.lower)
    match firstMeeting? sorted with
    | some (r, s) => .error (.overlap r s)
    | none => .ok sorted

end Interval

/-- Versions, and intervals of points in ascending order; either part may be empty until the selection is completed. -/
structure Selection where
  versions : SortedSet Nat
  intervals : List Interval
deriving DecidableEq, Repr

namespace Selection

def empty : Selection := ⟨∅, []⟩

instance : Inhabited Selection := ⟨empty⟩

def defaultVersion : Nat := 1

/-- The selection of some versions and intervals, if versions are positive and intervals disjoint. -/
def make (versions : List Nat) (intervals : List Interval) : Except Fault Selection := do
  if 0 ∈ versions then throw (.config .versionZero)
  pure ⟨SortedSet.ofList versions, ← Interval.arrange intervals⟩

/-- The last point of a window of `count` points, or the last of all. -/
def windowEnd (first : Int) : Option Int → Int
  | some count => clampPoint (first + (count - 1))
  | none => maxPoint

/-- The selection of one window: `count` points from `first` on, by default all points. -/
def window (versions : List Nat) (first count : Option Int) : Except Fault Selection :=
  let start := first.getD 0
  match count with
  | some n =>
    if n < 1 then .error (.badInterval ⟨start, clampPoint (clampPoint (start + n) - 1)⟩)
    else make versions [⟨start, windowEnd start (some n)⟩]
  | none => make versions [⟨start, windowEnd start none⟩]

def pointCount (s : Selection) : Nat := Interval.totalSize s.intervals

def toJson (s : Selection) : Json :=
  .object [("versions", .array (s.versions.toList.map .ofNat)), ("ranges", .array (s.intervals.map Interval.toJson))]

def contains (s : Selection) (point : Int) : Bool := s.intervals.any fun r => decide (point ∈ r)

/-- Cuts the part of an interval past the points there are; an interval wholly past them stays as it is. -/
def clip (full r : Interval) : Interval :=
  if full.upper < r.lower then r else ⟨r.lower, min r.upper full.upper⟩

/-- The versions asked for, else those of the store, else the default version. -/
def versionsOr (asked : SortedSet Nat) (store : Store) : SortedSet Nat :=
  if !asked.isEmpty then asked
  else if !store.versions.isEmpty then store.versions
  else (∅ : SortedSet Nat).insert defaultVersion

/-- The intervals asked for, within the points of the store, else all its points. -/
def intervalsOr (asked : List Interval) (full : Option Interval) : Except Fault (List Interval) :=
  match asked, full with
  | [], some full => .ok [full]
  | [], none => .error .noSampling
  | _, some full => .ok (asked.map (clip full))
  | _, none => .ok asked

/-- Completes a selection from what a store holds. -/
def complete (asked : Option Selection) (store : Store) : Except Fault Selection := do
  let asked := asked.getD empty
  let sampling ← store.commonSampling store.ownNames.toList
  let intervals ← intervalsOr asked.intervals (sampling.bind Sampling.fullInterval?)
  pure ⟨versionsOr asked.versions store, ← Interval.arrange intervals⟩

end Selection
end GridSeries
