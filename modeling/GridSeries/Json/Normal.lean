import GridSeries.Json.Basic
import GridSeries.Sorted.Map

/-! The normal form of JSON trees: every object lists its fields in key order, each key once. -/
namespace GridSeries.Json

/-- Sorts fields by key; of two fields with one key the later stands. -/
def sortFields (fields : List (String × Json)) : List (String × Json) :=
  (SortedMap.ofList fields).entries

mutual

/-- Sorts the fields of every object of the tree. -/
def normalize : Json → Json
  | .array items => .array (normalizeItems items)
  | .object fields => .object (sortFields (normalizeFields fields))
  | .null => .null
  | .bool b => .bool b
  | .number n => .number n
  | .string s => .string s

def normalizeItems : List Json → List Json
  | [] => []
  | v :: rest => normalize v :: normalizeItems rest

def normalizeFields : List (String × Json) → List (String × Json)
  | [] => []
  | (k, v) :: rest => (k, normalize v) :: normalizeFields rest

end

end GridSeries.Json
