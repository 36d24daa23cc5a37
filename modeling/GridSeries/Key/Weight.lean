import GridSeries.Json.Printer

/-! Weights: how much of a shared series a piece of equipment receives. -/
namespace GridSeries

/-- A weight that is the same at every point, or is read point by point from a series. -/
inductive Weight where
  | constant (w : Float)
  | series (name : String)
deriving DecidableEq, Repr

/-- Why a weight cannot be used. -/
inductive WeightFault where
  | unusable (w : Float)
  | unnamedSeries
deriving DecidableEq, Repr

namespace Weight

/-- The weight of equipment that was given none. -/
def uniform : Weight := .constant 1.0

instance : Inhabited Weight := ⟨uniform⟩

/-- Constant weights are finite and not negative, and weight series have a name. -/
def check : Weight → Except WeightFault Unit
  | constant w => if w.isFinite && !(w < 0.0) then .ok () else .error (.unusable w)
  | series name => if name == "" then .error .unnamedSeries else .ok ()

def seriesName? : Weight → Option String
  | constant _ => none
  | series name => some name

def toJson : Weight → Json
  | constant w => .object [("number", .ofFloat w)]
  | series name => .object [("timeseries", .string name)]

/-- The weight a tree stands for: an object with one field, which says what kind of weight it is. -/
def ofJson? : Json → Option Weight
  | .object [("number", .number n)] => some (.constant n.toFloat)
  | .object [("timeseries", .string name)] => some (.series name)
  | _ => none

end Weight

namespace WeightFault

def message : WeightFault → String
  | unusable w => "distribution weight must be a non-negative number, got " ++ showFloat w
  | unnamedSeries => "distribution weight series has an empty name"

end WeightFault
end GridSeries
