import GridSeries.Network.Quantity

/-! What a time series is mapped on: a built-in quantity, or a variable of a registered family. -/
namespace GridSeries

/-- A variable. One of a family called like the built-in one stays different from the built-in quantity. -/
inductive Variable where
  | builtin (q : Quantity)
  | extension (family name : String)
deriving DecidableEq, Repr

namespace Variable

def builtinFamily : String := "equipment"

def family : Variable → String
  | builtin _ => builtinFamily
  | extension family _ => family

def name : Variable → String
  | builtin q => q.name
  | extension _ name => name

def quantity? : Variable → Option Quantity
  | builtin q => some q
  | extension _ _ => none

def isExtension : Variable → Bool
  | builtin _ => false
  | extension _ _ => true

/-- Every category takes every extension: what it means is its family's business. -/
def fits (v : Variable) (c : Category) : Bool :=
  match v with
  | builtin q => q.fits c
  | extension _ _ => true

def label : Variable → String
  | builtin q => q.name
  | extension family name => family ++ "." ++ name

/-- Family and name are not empty; built-in ones never are. -/
def isNamed : Variable → Bool
  | builtin _ => true
  | extension family name => family != "" && name != ""

/-- Family, name and origin determine the variable. -/
theorem eq_of_parts {v w : Variable} (hf : v.family = w.family) (hn : v.name = w.name)
    (he : v.isExtension = w.isExtension) : v = w := by
  cases v <;> cases w <;> simp_all [family, name, isExtension]
  exact Quantity.name_injective hn

end Variable
end GridSeries
