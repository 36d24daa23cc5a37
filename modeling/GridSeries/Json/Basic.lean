/-! JSON trees. The fields of an object keep the order in which they were given. -/
namespace GridSeries

/-- A JSON number: an integer of at most 64 bits, signed or unsigned, or a double. -/
inductive Json.Number where
  | whole (n : Int)
  | real (x : Float)
deriving Repr, DecidableEq

inductive Json where
  | null
  | bool (b : Bool)
  | number (n : Json.Number)
  | string (s : String)
  | array (items : List Json)
  | object (fields : List (String × Json))

namespace Json

instance : Inhabited Json := ⟨.null⟩

def ofNat (n : Nat) : Json := .number (.whole n)

def ofInt (n : Int) : Json := .number (.whole n)

def ofFloat (x : Float) : Json := .number (.real x)

/-- The double nearest to a number. -/
def Number.toFloat : Number → Float
  | .whole n => Float.ofInt n
  | .real x => x

def strings (l : List String) : Json := .array (l.map .string)

/-- Absence is written as null. -/
def ofOption {α : Type} (f : α → Json) : Option α → Json
  | none => .null
  | some a => f a

/-- The value of a field; objects that are read for their fields have each at most once. -/
def field? (name : String) : List (String × Json) → Option Json
  | [] => none
  | (k, v) :: rest => if k = name then some v else field? name rest

end Json
end GridSeries
