import GridSeries.Formula.Basic
import GridSeries.Sorted.Map

/-! What a set of names refers to, directly or through definitions. Each round expands the definitions whose names
have been found and sets them aside, so there are no more rounds than definitions. -/
namespace GridSeries

abbrev Definitions := SortedMap String Formula

namespace Definitions

def references (defs : List (String × Formula)) : List String := defs.flatMap fun d => d.2.references

/-- Expands pending definitions until no found name has one. -/
def close : Nat → List (String × Formula) → SortedSet String → SortedSet String
  | 0, _, found => found
  | rounds + 1, pending, found =>
    let ready := pending.filter fun d => decide (d.1 ∈ found)
    if ready.isEmpty then found
    else
      close rounds (pending.filter fun d => decide (¬ d.1 ∈ found)) (found.insertAll (references ready))

/-- The names found from some names by following definitions, the names themselves included. -/
def reachable (defs : Definitions) (start : SortedSet String) : SortedSet String :=
  close (defs.size + 1) defs.entries start

/-- The names found that have no definition. -/
def leaves (defs : Definitions) (start : SortedSet String) : SortedSet String :=
  (reachable defs start).filter fun name => !defs.contains name

/-- A name would depend on itself if it stood for the formula. -/
def wouldCycle (defs : Definitions) (name : String) (f : Formula) : Bool :=
  decide (name ∈ reachable defs f.names)

end Definitions
end GridSeries
