/-! The operators of formulas on single values. -/
namespace GridSeries

/-- The smaller of two values; a value that is no number gives way to the other. -/
def lesser (x y : Float) : Float :=
  if x.isNaN then y else if y.isNaN then x else if x ≤ y then x else y

/-- The larger of two values; a value that is no number gives way to the other. -/
def greater (x y : Float) : Float :=
  if x.isNaN then y else if y.isNaN then x else if y ≤ x then x else y

/-- A truth value as a number. -/
def indicator (b : Bool) : Float := if b then 1.0 else 0.0

inductive UnaryOp where
  | neg
  | abs
deriving DecidableEq, Repr

namespace UnaryOp

def apply (op : UnaryOp) (x : Float) : Float :=
  match op with
  | neg => -x
  | abs => x.abs

def name : UnaryOp → String
  | neg => "neg"
  | abs => "abs"

def all : List UnaryOp := [neg, abs]

def ofName? (s : String) : Option UnaryOp := all.find? fun op => op.name == s

end UnaryOp

inductive BinaryOp where
  | add
  | sub
  | mul
  | div
  | min
  | max
  | gt
  | ge
  | lt
  | le
  | eq
deriving DecidableEq, Repr

namespace BinaryOp

/-- Comparisons yield one or zero. -/
def apply (op : BinaryOp) (x y : Float) : Float :=
  match op with
  | add => x + y
  | sub => x - y
  | mul => x * y
  | div => x / y
  | min => lesser x y
  | max => greater x y
  | gt => indicator (y < x)
  | ge => indicator (y ≤ x)
  | lt => indicator (x < y)
  | le => indicator (x ≤ y)
  | eq => indicator (x == y)

def name : BinaryOp → String
  | add => "add"
  | sub => "sub"
  | mul => "mul"
  | div => "div"
  | min => "min"
  | max => "max"
  | gt => "gt"
  | ge => "ge"
  | lt => "lt"
  | le => "le"
  | eq => "eq"

def symbol : BinaryOp → String
  | add => "+"
  | sub => "-"
  | mul => "*"
  | div => "/"
  | min => "min"
  | max => "max"
  | gt => ">"
  | ge => ">="
  | lt => "<"
  | le => "<="
  | eq => "=="

def isFunction : BinaryOp → Bool
  | min | max => true
  | _ => false

def all : List BinaryOp := [add, sub, mul, div, min, max, gt, ge, lt, le, eq]

def ofName? (s : String) : Option BinaryOp := all.find? fun op => op.name == s

end BinaryOp
end GridSeries
