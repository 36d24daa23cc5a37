import GridSeries.Store.Basic

/-! The values of formulas and names, point by point. A name stands for the mapping's formula of that name, else for
the store's calculated series, else for stored values. -/
namespace GridSeries

/-- Values at all points: the same everywhere, or one for each point. -/
inductive Values where
  | everywhere (x : Float)
  | points (xs : List Float)
deriving DecidableEq, Repr

namespace Values

def map (f : Float → Float) : Values → Values
  | everywhere x => everywhere (f x)
  | points xs => points (xs.map f)

/-- Combines the operands of the formula `whole`; two lists need the same length. -/
def combine (whole : Formula) (f : Float → Float → Float) : Values → Values → Except Fault Values
  | everywhere x, everywhere y => .ok (everywhere (f x y))
  | everywhere x, points ys => .ok (points (ys.map fun y => f x y))
  | points xs, everywhere y => .ok (points (xs.map fun x => f x y))
  | points xs, points ys =>
    if xs.length = ys.length then .ok (points (List.zipWith f xs ys))
    else .error (.sampling (.lengths xs.length ys.length whole))

def spread (count : Nat) : Values → List Float
  | everywhere x => List.replicate count x
  | points xs => xs

end Values

/-- Where the names of formulas take their values from. -/
structure Evaluator where
  store : Store
  /-- Formulas that come before the store. -/
  formulas : Definitions
  /-- The number of points of a value that is the same everywhere, if known. -/
  count : Option Nat

namespace Evaluator

def ofStore (store : Store) : Evaluator := ⟨store, ∅, none⟩

def definition? (e : Evaluator) (name : String) : Option Formula :=
  (e.formulas.get? name).or (e.store.formulas.get? name)

/-- The values of a formula, given those of names. -/
def formulaValues (ofName : String → Except Fault Values) : Formula → Except Fault Values
  | .constant x => .ok (.everywhere x)
  | .series name => ofName name
  | .unary op operand => do
    pure ((← formulaValues ofName operand).map op.apply)
  | .binary op left right => do
    let l ← formulaValues ofName left
    let r ← formulaValues ofName right
    Values.combine (.binary op left right) op.apply l r

/-- The values of a name while the names in `opened` are being evaluated, `depth` further names deep at most. -/
def nameValues (e : Evaluator) (version : Nat) : Nat → List String → String → Except Fault Values
  | 0, _, name => .error (.cycle name)
  | depth + 1, opened, name =>
    if name ∈ opened then .error (.cycle name)
    else
      match e.definition? name with
      | some f => formulaValues (nameValues e version depth (name :: opened)) f
      | none => (e.store.values name version).map .points

/-- Names open at one time have different definitions, so no evaluation goes deeper than this. -/
def depth (e : Evaluator) : Nat := e.formulas.size + e.store.formulas.size + 1

/-- One value for each point; a lone value stands for one point if the number of points is not known. -/
def spread (e : Evaluator) (v : Values) : List Float := v.spread (e.count.getD 1)

def evaluateName (e : Evaluator) (name : String) (version : Nat) : Except Fault (List Float) :=
  (e.nameValues version e.depth [] name).map e.spread

def evaluate (e : Evaluator) (f : Formula) (version : Nat) : Except Fault (List Float) :=
  (formulaValues (e.nameValues version e.depth []) f).map e.spread

end Evaluator
end GridSeries
