import GridSeries.Variable.Basic
import GridSeries.Text.Quoted
import GridSeries.Json.Printer

/-! Mapping keys: a variable of one piece of equipment, the unit that series are bound to. -/
namespace GridSeries

/-- A variable of one piece of equipment. Ids that show nothing and variables without a name are ruled out. -/
structure Key where
  driven : Variable
  id : String
  id_visible : Text.isBlank id = false
  driven_named : driven.isNamed = true
deriving DecidableEq, Repr

/-- Why a key, or a binding on it, is malformed. -/
inductive KeyFault where
  | blankId (driven : Variable)
  | unnamedVariable (id : String)
  | unnamedSeries (key : Key)
  | noObject (v : Json)
  | unexpectedField (name : String)
  | incomplete (v : Json)
  | idNotText (v : Json)
  | notOneVariable (v : Json)
  | nameNotText (v : Json)

namespace Key

/-- A key is determined by what it drives and its id. -/
@[ext]
theorem eq_of_parts {k l : Key} (hd : k.driven = l.driven) (hi : k.id = l.id) : k = l := by
  cases k; cases l; simp_all

def make (driven : Variable) (id : String) : Except KeyFault Key :=
  if hi : Text.isBlank id then .error (.blankId driven)
  else if hd : driven.isNamed then .ok ⟨driven, id, by simpa using hi, hd⟩
  else .error (.unnamedVariable id)

def withQuantity (k : Key) (q : Quantity) : Key := ⟨.builtin q, k.id, k.id_visible, rfl⟩

def render (k : Key) : String := k.id ++ ":" ++ k.driven.label

/-- Keys are ordered by id, then by family and name of the variable; built-in ones come first. -/
def order : Key → Key → Ordering :=
  compareLex (compareOn Key.id) (compareLex (compareOn (·.driven.family))
    (compareLex (compareOn (·.driven.name)) (compareOn (·.driven.isExtension))))

instance : Ord Key := ⟨order⟩

instance : Std.TransOrd Key := inferInstanceAs (Std.TransCmp (compareLex _ _))

instance : Std.LawfulEqOrd Key where
  compare_self {a} := Std.ReflCmp.compare_self
  eq_of_compare {a b} h := by
    simp only [compare, order, compareLex_eq_eq, compareOn] at h
    obtain ⟨hi, hf, hn, he⟩ := h
    exact Key.eq_of_parts (Variable.eq_of_parts (Std.LawfulEqOrd.eq_of_compare hf) (Std.LawfulEqOrd.eq_of_compare hn)
      (Std.LawfulEqOrd.eq_of_compare he)) (Std.LawfulEqOrd.eq_of_compare hi)

end Key

namespace KeyFault

def message : KeyFault → String
  | blankId driven => "equipment id is empty for variable '" ++ driven.label ++ "'"
  | unnamedVariable id => "variable of '" ++ id ++ "' has an empty family or name"
  | unnamedSeries key => "empty time series name for " ++ key.render
  | noObject v => v.compact
  | unexpectedField name => "unexpected field name '" ++ name ++ "'"
  | incomplete v => "incomplete mapping key " ++ v.compact
  | idNotText v => "id must be a string in " ++ v.compact
  | notOneVariable v => "mapping variable must have one field in " ++ v.compact
  | nameNotText v => "variable name must be a string in " ++ v.compact

end KeyFault
end GridSeries
