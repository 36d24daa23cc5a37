import GridSeries.Variable.Registry

/-! Mapping keys as JSON trees: the id, and the variable as an object whose only field is its family. -/
namespace GridSeries

/-- The names of a key's two fields. -/
def Key.variableField : String := "mappingVariable"

def Key.idField : String := "id"

def Variable.toJson (v : Variable) : Json := .object [(v.family, .string v.name)]

def Key.toJson (k : Key) : Json :=
  .object [(Key.variableField, k.driven.toJson), (Key.idField, .string k.id)]

def Variable.ofJson (r : Registry) (whole : Json) : Json → Except Fault Variable
  | .object [(family, .string name)] => r.resolve family name
  | .object [(_, _)] => .error (.key (.nameNotText whole))
  | _ => .error (.key (.notOneVariable whole))

/-- Reads a key from a tree in normal form; the registry says which variables there are. -/
def Key.ofJson (r : Registry) (v : Json) : Except Fault Key :=
  match v with
  | .object fields =>
    match fields.find? (fun f => f.1 != Key.variableField && f.1 != Key.idField) with
    | some (name, _) => .error (.key (.unexpectedField name))
    | none =>
      match Json.field? Key.variableField fields, Json.field? Key.idField fields with
      | some driven, some (.string id) => do
        let driven ← Variable.ofJson r v driven
        (Key.make driven id).mapError .key
      | some _, some _ => .error (.key (.idNotText v))
      | _, _ => .error (.key (.incomplete v))
  | _ => .error (.key (.noObject v))

end GridSeries
