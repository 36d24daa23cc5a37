import GridSeries.Json.Printer

/-! Findings about a mapping: warnings and errors, collected and shown together. -/
namespace GridSeries

inductive Severity where
  | warning
  | error
deriving DecidableEq, Repr

def Severity.name : Severity → String
  | warning => "warning"
  | error => "error"

structure Finding where
  severity : Severity
  /-- What kind of finding it is. -/
  topic : String
  message : String
  /-- The equipment it concerns. -/
  equipment : Option String
  /-- The series it concerns. -/
  series : Option String
deriving DecidableEq, Repr

namespace Finding

def render (f : Finding) : String :=
  "[" ++ f.severity.name ++ ":" ++ f.topic ++ "] " ++ f.message ++
    (match f.equipment with
      | none => ""
      | some id => " (" ++ id ++ ")") ++
    (match f.series with
      | none => ""
      | some name => " on '" ++ name ++ "'")

/-- What a finding does not name is left out. -/
def toJson (f : Finding) : Json :=
  .object ([("severity", .string f.severity.name), ("category", .string f.topic), ("message", .string f.message)]
    ++ (f.equipment.toList.map fun id => ("entity", .string id))
    ++ (f.series.toList.map fun name => ("time_series", .string name)))

end Finding

/-- What was found, in the order of finding. -/
structure Findings where
  list : List Finding
deriving DecidableEq, Repr

namespace Findings

def count (fs : Findings) (s : Severity) : Nat := fs.list.countP fun f => decide (f.severity = s)

def about (fs : Findings) (topic : String) : List Finding := fs.list.filter fun f => f.topic == topic

private def counted (n : Nat) (noun : String) : String :=
  toString n ++ " " ++ noun ++ (if n = 1 then "" else "s")

/-- The number of findings of each severity, in words. -/
def summary (fs : Findings) : String :=
  let warnings := fs.count .warning
  let errors := fs.count .error
  match warnings, errors with
  | 0, 0 => "No issues"
  | _, 0 => counted warnings "warning"
  | 0, _ => counted errors "error"
  | _, _ => counted warnings "warning" ++ ", " ++ counted errors "error"

/-- One line for the summary and one for each finding. -/
def render (fs : Findings) : String :=
  "Diagnostics: " ++ fs.summary ++ "\n" ++ String.join (fs.list.map fun f => "  " ++ f.render ++ "\n")

/-- An empty list is left out. -/
def toJson (fs : Findings) : Json :=
  .object (if fs.list.isEmpty then [] else [("issues", .array (fs.list.map Finding.toJson))])

end Findings
end GridSeries
