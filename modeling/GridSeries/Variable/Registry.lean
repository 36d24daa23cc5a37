import GridSeries.Fault
import GridSeries.Update
import GridSeries.Text.Hidden

/-! The registry of variable families: each family has one provider, which knows its variables by name. -/
namespace GridSeries

/-- Where the variables of one family come from. -/
inductive Provider where
  | builtin
  | named (family : String) (names : SortedSet String)
deriving DecidableEq, Repr

namespace Provider

def family : Provider → String
  | builtin => Variable.builtinFamily
  | named family _ => family

def find? : Provider → String → Option Variable
  | builtin, name => (Quantity.ofName? name).map .builtin
  | named family names, name => if name ∈ names then some (.extension family name) else none

end Provider

/-- The providers, in the order in which they were registered. -/
structure Registry where
  providers : List Provider
deriving DecidableEq, Repr

namespace Registry

def empty : Registry := ⟨[]⟩

def standard : Registry := ⟨[.builtin]⟩

instance : Inhabited Registry := ⟨standard⟩

/-- The families that have a provider, in the order in which they were registered. -/
def families (r : Registry) : List String := r.providers.map (·.family)

/-- Adds a provider; its family needs a name that no other provider has. -/
def register (p : Provider) : Update Registry Unit := do
  let r ← get
  if p.family = "" ∨ p.family ∈ r.families then throw (.family p.family)
  set (⟨r.providers ++ [p]⟩ : Registry)

def resolve (r : Registry) (family name : String) : Except Fault Variable :=
  match r.providers.filter (fun p => p.family == family) with
  | [p] =>
    match p.find? name with
    | some v => .ok v
    | none => .error (.unknownVariable family name)
  | _ => .error (.family family)

def render (r : Registry) : String :=
  "VariableRegistry \x7b providers: " ++ Text.listing r.families ++ " \x7d"

end Registry
end GridSeries
