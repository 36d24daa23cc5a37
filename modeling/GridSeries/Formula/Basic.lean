import GridSeries.Formula.Operator
import GridSeries.Decimal.Notation
import GridSeries.Sorted.Set

/-! Formulas: constants and named series, combined point by point. -/
namespace GridSeries

/-- An expression over constants and named series. -/
inductive Formula where
  | constant (value : Float)
  | series (name : String)
  | unary (op : UnaryOp) (operand : Formula)
  | binary (op : BinaryOp) (left right : Formula)
deriving DecidableEq, Repr

namespace Formula

/-- The names an expression refers to, from left to right, repeated as they occur. -/
def references : Formula → List String
  | constant _ => []
  | series name => [name]
  | unary _ operand => operand.references
  | binary _ left right => left.references ++ right.references

def names (f : Formula) : SortedSet String := SortedSet.ofList f.references

def render : Formula → String
  | constant value => showFloat value
  | series name => "'" ++ name ++ "'"
  | unary .neg operand => "-(" ++ operand.render ++ ")"
  | unary .abs operand => "abs(" ++ operand.render ++ ")"
  | binary op left right =>
    if op.isFunction then op.symbol ++ "(" ++ left.render ++ ", " ++ right.render ++ ")"
    else "(" ++ left.render ++ " " ++ op.symbol ++ " " ++ right.render ++ ")"

end Formula
end GridSeries
