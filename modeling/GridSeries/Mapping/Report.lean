import GridSeries.Finding
import GridSeries.Mapping.Check

/-! The report on a mapping: counts for each category, and everything found, whether or not the mapping passes. -/
namespace GridSeries

structure Counts where
  mapped : Nat
  multiMapped : Nat
  unmapped : Nat
  ignoredUnmapped : Nat
  declaredUnbound : Nat
deriving DecidableEq, Repr

namespace Counts

def zero : Counts := ⟨0, 0, 0, 0, 0⟩

def toJson (n : Counts) : Json :=
  .object [("mapped", .ofNat n.mapped), ("multi_mapped", .ofNat n.multiMapped), ("unmapped", .ofNat n.unmapped),
    ("ignored_unmapped", .ofNat n.ignoredUnmapped), ("not_mapped_keys", .ofNat n.declaredUnbound)]

end Counts

/-- The report on a mapping; categories in which there is nothing to count are left out. -/
structure Report where
  complete : Bool
  categories : List (Category × Counts)
  findings : Findings
deriving DecidableEq

namespace Report

/-- The counts of a category, if the report lists it. -/
def counts? (r : Report) (c : Category) : Option Counts :=
  (r.categories.find? fun e => decide (e.1 = c)).map (·.2)

def toJson (r : Report) : Json :=
  .object [("complete", .bool r.complete),
    ("categories", .array (r.categories.map fun e => .array [.string e.1.singular, e.2.toJson])),
    ("diagnostics", r.findings.toJson)]

end Report

namespace Mapping

/-- A failed check as a finding, with the equipment and the series that it names. -/
def faultFinding (fault : Fault) : Finding :=
  let (equipment, series) := match fault with
    | .unmappedButBound id series => (some id, some series)
    | .contradiction id _ _ => (some id, none)
    | _ => (none, none)
  { severity := .error, topic := "consistency", message := fault.message, equipment, series }

def driftFinding (c : Category) (k : Key) : Finding :=
  { severity := .warning, topic := "drift", equipment := some k.id, series := none
    message := c.label ++ " time series declared for '" ++ k.driven.label ++ "' but not bound" }

def unmappedFinding (c : Category) (id : String) : Finding :=
  { severity := .warning, topic := "unmapped", equipment := some id, series := none
    message := c.label ++ " has no time series bound" }

/-- What is found in one category: drift first, then unmapped equipment. -/
def categoryFindings (m : Mapping) (c : Category) : List Finding :=
  (m.category c).declaredUnbound.map (driftFinding c) ++ (m.category c).missing.toList.map (unmappedFinding c)

def counts (m : Mapping) (c : Category) : Counts :=
  { mapped := m.mappedCount c
    multiMapped := m.multiMappedCount c
    unmapped := m.unmappedCount c
    ignoredUnmapped := (m.category c).ignoredUnmapped.size
    declaredUnbound := (m.category c).declaredUnbound.length }

def checkFindings (m : Mapping) : List Finding :=
  match m.check with
  | .ok () => []
  | .error fault => [faultFinding fault]

def report (m : Mapping) : Report :=
  { complete := m.isComplete
    categories := (Category.all.map fun c => (c, m.counts c)).filter fun e => decide (e.2 ≠ Counts.zero)
    findings := ⟨m.checkFindings ++ Category.all.flatMap m.categoryFindings⟩ }

end Mapping
end GridSeries
