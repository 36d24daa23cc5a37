import GridSeries.Selection
import GridSeries.Sharing
import GridSeries.Statistics.Filter

/-! Statistics of series over the versions and points of a selection. Least, greatest, mean and sum are taken version
by version and then combined; the median is taken of all values together. -/
namespace GridSeries

/-- What a statistic is taken of. -/
inductive Target where
  | name (s : String)
  | formula (f : Formula)
deriving DecidableEq, Repr

/-- All statistics of a target. -/
structure Summary where
  least : Float
  greatest : Float
  mean : Float
  sum : Float
  median : Float
deriving DecidableEq, Repr

/-- A mapping and a selection over a store. -/
structure Statistics where
  store : Store
  mapping : Mapping
  selection : Selection

namespace Statistics

def loaded (s : Statistics) : List String := s.mapping.namesToLoad.toList

/-- The common sampling of the series that the mapping loads. -/
def sampling (s : Statistics) : Except Fault (Option Sampling) := s.store.commonSampling s.loaded

/-- The series that the mapping loads have one sampling, and every version of the selection. -/
def check (s : Statistics) : Except Fault Unit := do
  let _ ← s.sampling
  s.store.checkVersions s.selection.versions s.loaded

def evaluator (s : Statistics) : Except Fault Evaluator := do
  let sampling ← s.sampling
  pure { store := s.store, formulas := s.mapping.formulas, count := sampling.map (·.count) }

/-- What each key that a series feeds receives at a version, at all points. -/
def distribute (s : Statistics) (c : Category) (series : String) (version : Nat) :
    Except Fault (List (Key × List Float)) := do
  Sharing.distribute s.mapping (← s.evaluator) c series version

def allValues (s : Statistics) (target : Target) (version : Nat) : Except Fault (List Float) := do
  let e ← s.evaluator
  match target with
  | .name name => e.evaluateName name version
  | .formula f => e.evaluate f version

def values (s : Statistics) (target : Target) (version : Nat) : Except Fault (List Float) := do
  pure (filterByIntervals (← s.allValues target version) s.selection.intervals)

def perVersion (s : Statistics) (target : Target) : Except Fault (List (List Float)) :=
  s.selection.versions.toList.mapM (s.values target)

/-- The versions that have a value at all. -/
def nonempty (lists : List (List Float)) : List (List Float) := lists.filter fun xs => !xs.isEmpty

/-- Reduces every version that has values, then combines the results. -/
def acrossVersions (s : Statistics) (single : List Float → Float) (f : Float → Float → Float) (target : Target) :
    Except Fault Float := do
  pure (combine f ((nonempty (← s.perVersion target)).map single))

def least (s : Statistics) (target : Target) : Except Fault Float :=
  s.acrossVersions (combine lesser) lesser target

def greatest (s : Statistics) (target : Target) : Except Fault Float :=
  s.acrossVersions (combine greater) greater target

def total (s : Statistics) (target : Target) : Except Fault Float :=
  s.acrossVersions Statistics.sum (fun x y => x + y) target

def average (s : Statistics) (target : Target) : Except Fault Float := do
  pure (Statistics.mean ((nonempty (← s.perVersion target)).map Statistics.mean))

/-- The median of the values of all versions together. -/
def medianOf (s : Statistics) (target : Target) : Except Fault Float := do
  pure (Statistics.median (← s.perVersion target).flatten)

/-- All statistics, from one evaluation of each version. -/
def summary (s : Statistics) (target : Target) : Except Fault Summary := do
  let lists := nonempty (← s.perVersion target)
  pure {
    least := combine lesser (lists.map (combine lesser))
    greatest := combine greater (lists.map (combine greater))
    mean := Statistics.mean (lists.map Statistics.mean)
    sum := combine (fun x y => x + y) (lists.map Statistics.sum)
    median := Statistics.median lists.flatten }

end Statistics
end GridSeries
