import GridSeries.Formula.Basic
import GridSeries.Json.Basic

/-! Formulas as JSON trees. An object names its form in the field `type`; fields that its form does not have are
skipped, those it has must be there once. An array with the form and then the parts, in order, means the same, and
below the root the form may be given by its number. -/
namespace GridSeries.Formula

/-- The four forms of a formula. -/
inductive Form where
  | constant
  | series
  | unary
  | binary
deriving DecidableEq, Repr

def Form.all : List Form := [.constant, .series, .unary, .binary]

def Form.name : Form → String
  | .constant => "constant"
  | .series => "series"
  | .unary => "unary"
  | .binary => "binary"

def Form.parts : Form → List String
  | .constant => ["value"]
  | .series => ["name"]
  | .unary => ["op", "operand"]
  | .binary => ["op", "left", "right"]

def toJson : Formula → Json
  | constant value => .object [("type", .string Form.constant.name), ("value", .ofFloat value)]
  | series name => .object [("type", .string Form.series.name), ("name", .string name)]
  | unary op operand =>
    .object [("type", .string Form.unary.name), ("op", .string op.name), ("operand", operand.toJson)]
  | binary op left right =>
    .object [("type", .string Form.binary.name), ("op", .string op.name), ("left", left.toJson),
      ("right", right.toJson)]

/-- The form that a tag names, by its number too if allowed. -/
def Form.ofJson? (numbered : Bool) : Json → Option Form
  | .string s => all.find? fun form => form.name == s
  | .number (.whole n) => if numbered && decide (0 ≤ n) then all[n.toNat]? else none
  | _ => none

/-- An operator's name: a text, or an object whose only field has that name and an empty value. -/
def operatorName? : Json → Option String
  | .string s => some s
  | .object [(s, .null)] => some s
  | .object [(s, .object [])] => some s
  | _ => none

/-- A subtree beside the formula it reads as, if it reads as one. -/
structure Part where
  tree : Json
  formula : Option Formula

def Form.build? : Form → List Part → Option Formula
  | .constant, [v] =>
    match v.tree with
    | .number n => some (.constant n.toFloat)
    | _ => none
  | .series, [v] =>
    match v.tree with
    | .string s => some (.series s)
    | _ => none
  | .unary, [op, x] => do
    let op ← UnaryOp.ofName? (← operatorName? op.tree)
    pure (.unary op (← x.formula))
  | .binary, [op, l, r] => do
    let op ← BinaryOp.ofName? (← operatorName? op.tree)
    pure (.binary op (← l.formula) (← r.formula))
  | _, _ => none

/-- The value of a field that occurs once. -/
def once? (name : String) (fields : List (String × Part)) : Option Part :=
  match fields.filter (fun f => f.1 == name) with
  | [(_, p)] => some p
  | _ => none

def ofFields? (numbered : Bool) (fields : List (String × Part)) : Option Formula := do
  let form ← Form.ofJson? numbered (← once? "type" fields).tree
  form.build? (← form.parts.mapM (once? · fields))

def ofItems? (numbered : Bool) : List Part → Option Formula
  | [] => none
  | tag :: parts => do
    let form ← Form.ofJson? numbered tag.tree
    form.build? parts

mutual

/-- The formula a tree stands for; `numbered` says whether its form may be given by number. -/
def decode? (numbered : Bool) : Json → Option Formula
  | .object fields => ofFields? numbered (decodeFields fields)
  | .array items => ofItems? numbered (decodeItems items)
  | _ => none

def decodeFields : List (String × Json) → List (String × Part)
  | [] => []
  | (k, v) :: rest => (k, ⟨v, decode? true v⟩) :: decodeFields rest

def decodeItems : List Json → List Part
  | [] => []
  | v :: rest => ⟨v, decode? true v⟩ :: decodeItems rest

end

def ofJson? (v : Json) : Option Formula := decode? false v

end GridSeries.Formula
