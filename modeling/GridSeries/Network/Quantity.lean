import GridSeries.Network.Category

/-! The built-in quantities that a time series can drive, and which category takes which of them. -/
namespace GridSeries

/-- A built-in quantity of a piece of equipment. -/
inductive Quantity where
  | targetP
  | targetQ
  | minP
  | maxP
  | p0
  | q0
  | fixedActivePower
  | variableActivePower
  | fixedReactivePower
  | variableReactivePower
  | activePowerSetpoint
  | opened
  | phaseTapPosition
  | ratioTapPosition
  | voltageRegulatorOn
  | targetV
  | nominalV
  | regulationMode
  | ratedU1
  | ratedU2
  | loadTapChangingCapabilities
  | phaseRegulating
  | ratioRegulating
  | voltageSetpoint
  | reactivePowerSetpoint
  | powerFactor
  | disconnected
  | targetDeadband
deriving DecidableEq, Repr

namespace Quantity

/-- Every quantity, in the order in which they were introduced. -/
def all : List Quantity :=
  [targetP, targetQ, minP, maxP, p0, q0, fixedActivePower, variableActivePower, fixedReactivePower,
    variableReactivePower, activePowerSetpoint, opened, phaseTapPosition, ratioTapPosition, voltageRegulatorOn,
    targetV, nominalV, regulationMode, ratedU1, ratedU2, loadTapChangingCapabilities, phaseRegulating,
    ratioRegulating, voltageSetpoint, reactivePowerSetpoint, powerFactor, disconnected, targetDeadband]

/-- The list of quantities leaves none out. -/
theorem mem_all (q : Quantity) : q ∈ all := by cases q <;> decide

def name : Quantity → String
  | targetP => "targetP"
  | targetQ => "targetQ"
  | minP => "minP"
  | maxP => "maxP"
  | p0 => "p0"
  | q0 => "q0"
  | fixedActivePower => "fixedActivePower"
  | variableActivePower => "variableActivePower"
  | fixedReactivePower => "fixedReactivePower"
  | variableReactivePower => "variableReactivePower"
  | activePowerSetpoint => "activePowerSetpoint"
  | opened => "open"
  | phaseTapPosition => "phaseTapPosition"
  | ratioTapPosition => "ratioTapPosition"
  | voltageRegulatorOn => "voltageRegulatorOn"
  | targetV => "targetV"
  | nominalV => "nominalV"
  | regulationMode => "regulationMode"
  | ratedU1 => "ratedU1"
  | ratedU2 => "ratedU2"
  | loadTapChangingCapabilities => "loadTapChangingCapabilities"
  | phaseRegulating => "phaseRegulating"
  | ratioRegulating => "ratioRegulating"
  | voltageSetpoint => "voltageSetpoint"
  | reactivePowerSetpoint => "reactivePowerSetpoint"
  | powerFactor => "powerFactor"
  | disconnected => "disconnected"
  | targetDeadband => "targetDeadband"

def ofName? (s : String) : Option Quantity := all.find? fun q => q.name == s

/-- A name is read only as the quantity that has it. -/
theorem name_of_ofName? {s : String} {q : Quantity} (h : ofName? s = some q) : q.name = s := by
  simpa using List.find?_some h

/-- The name of a quantity is read as that quantity. -/
theorem ofName?_name (q : Quantity) : ofName? q.name = some q := by
  cases q <;> decide +kernel

/-- No two quantities share a name. -/
theorem name_injective {q r : Quantity} (h : q.name = r.name) : q = r := by
  have := ofName?_name q
  rw [h, ofName?_name] at this
  exact (Option.some.inj this).symm

def accepted : Category → List Quantity
  | .generator => [targetP, targetQ, minP, maxP, voltageRegulatorOn, targetV, disconnected]
  | .hvdcLine => [activePowerSetpoint, minP, maxP, nominalV]
  | .load => [p0, q0, fixedActivePower, variableActivePower, fixedReactivePower, variableReactivePower]
  | .danglingLine => [p0]
  | .breaker => [opened]
  | .phaseTapChanger => [phaseTapPosition, phaseRegulating, regulationMode, targetDeadband]
  | .transformer => [ratedU1, ratedU2, disconnected]
  | .ratioTapChanger => [ratioTapPosition, loadTapChangingCapabilities, ratioRegulating, targetV]
  | .lccConverterStation => [powerFactor]
  | .vscConverterStation => [voltageRegulatorOn, voltageSetpoint, reactivePowerSetpoint]
  | .line => [disconnected]

def fits (q : Quantity) (c : Category) : Bool := (accepted c).contains q

/-- The quantity a category is bound on when none is named. -/
def default? : Category → Option Quantity
  | .generator => some targetP
  | .hvdcLine => some activePowerSetpoint
  | .load | .danglingLine => some p0
  | .breaker => some opened
  | .phaseTapChanger => some phaseTapPosition
  | .ratioTapChanger => some ratioTapPosition
  | .lccConverterStation => some powerFactor
  | .vscConverterStation => some voltageSetpoint
  | .transformer | .line => none

/-- The quantities that are declared for a category when none is named; binding one of them makes equipment of
the category count as mapped. -/
def primary : Category → List Quantity
  | .load => [p0, fixedActivePower, variableActivePower]
  | c => (default? c).toList

def isPrimary (q : Quantity) (c : Category) : Bool := (primary c).contains q

/-- A quantity that is primary for a category suits it. -/
theorem fits_of_isPrimary {q : Quantity} {c : Category} (h : q.isPrimary c = true) : q.fits c = true := by
  revert h
  cases c <;> cases q <;> decide

/-- The total that a detailed quantity is a part of. -/
def aggregate? : Quantity → Option Quantity
  | fixedActivePower | variableActivePower => some p0
  | fixedReactivePower | variableReactivePower => some q0
  | _ => none

/-- The detailed parts of a total. -/
def components : Quantity → List Quantity
  | p0 => [fixedActivePower, variableActivePower]
  | q0 => [fixedReactivePower, variableReactivePower]
  | _ => []

/-- The components of a quantity are those with it as their aggregate. -/
theorem mem_components_iff {q r : Quantity} : r ∈ q.components ↔ r.aggregate? = some q := by
  cases q <;> cases r <;> decide

/-- The quantities that must not be bound beside this one: its total, and its parts. -/
def rivals (q : Quantity) : List Quantity := q.aggregate?.toList ++ q.components

end Quantity
end GridSeries
