import GridSeries.Json.Token

/-! Reading JSON text. Tokens are taken one by one by a machine that keeps the open containers on a stack, so no depth
of nesting is out of reach; a reader that wants plain trees then asks for a bound on the depth and for the value of
every number and text. -/
namespace GridSeries.Json

/-- A tree as it stands in a text: a number or text may have no value. -/
inductive Raw where
  | null
  | bool (b : Bool)
  | number (n : Option Number)
  | string (s : Option String)
  | array (items : List Raw)
  | object (fields : List (Option String × Raw))

/-- An open container: what it holds so far, the last element first, and the key that awaits its value. -/
inductive Frame where
  | array (done : List Raw)
  | object (done : List (Option String × Raw)) (key : Option String)

/-- What the next token may be. -/
inductive Reading where
  /-- A value. -/
  | value (stack : List Frame)
  /-- A value or the end of the array just begun. -/
  | firstItem (stack : List Frame)
  /-- A key or the end of the object just begun. -/
  | firstKey (stack : List Frame)
  /-- A key, after a comma. -/
  | nextKey (done : List (Option String × Raw)) (stack : List Frame)
  /-- The colon after a key. -/
  | colon (done : List (Option String × Raw)) (key : Option String) (stack : List Frame)
  /-- A comma or the end of the array. -/
  | afterItem (done : List Raw) (stack : List Frame)
  /-- A comma or the end of the object. -/
  | afterField (done : List (Option String × Raw)) (stack : List Frame)
  /-- Nothing: the tree is complete. -/
  | complete (v : Raw)

def Reading.deliver (v : Raw) : List Frame → Reading
  | [] => .complete v
  | .array done :: stack => .afterItem (v :: done) stack
  | .object done key :: stack => .afterField ((key, v) :: done) stack

/-- Takes a token where a value may begin. -/
def Reading.begin (stack : List Frame) : Token → Option Reading
  | .null => some (deliver .null stack)
  | .bool b => some (deliver (.bool b) stack)
  | .number n => some (deliver (.number n) stack)
  | .string s => some (deliver (.string s) stack)
  | .beginArray => some (.firstItem stack)
  | .beginObject => some (.firstKey stack)
  | _ => none

def Reading.step : Reading → Token → Option Reading
  | .value stack, t => begin stack t
  | .firstItem stack, .endArray => some (deliver (.array []) stack)
  | .firstItem stack, t => begin (.array [] :: stack) t
  | .firstKey stack, .endObject => some (deliver (.object []) stack)
  | .firstKey stack, .string key => some (.colon [] key stack)
  | .nextKey done stack, .string key => some (.colon done key stack)
  | .colon done key stack, .colon => some (.value (.object done key :: stack))
  | .afterItem done stack, .comma => some (.value (.array done :: stack))
  | .afterItem done stack, .endArray => some (deliver (.array done.reverse) stack)
  | .afterField done stack, .comma => some (.nextKey done stack)
  | .afterField done stack, .endObject => some (deliver (.object done.reverse) stack)
  | _, _ => none

/-- The tree that a whole text holds. -/
def Raw.read? (text : String) : Option Raw := do
  let tokens ← Token.scan text
  match ← tokens.foldlM Reading.step (.value []) with
  | .complete v => some v
  | _ => none

mutual

/-- The tree with its values, if every one is there and no more than `depth` containers nest. -/
def Raw.toJson? (depth : Nat) : Raw → Option Json
  | .null => some .null
  | .bool b => some (.bool b)
  | .number n => n.map .number
  | .string s => s.map .string
  | .array items =>
    match depth with
    | 0 => none
    | inner + 1 => (toItems? inner items).map .array
  | .object fields =>
    match depth with
    | 0 => none
    | inner + 1 => (toFields? inner fields).map .object

def Raw.toItems? (depth : Nat) : List Raw → Option (List Json)
  | [] => some []
  | v :: rest => do
    let v ← toJson? depth v
    let rest ← toItems? depth rest
    pure (v :: rest)

def Raw.toFields? (depth : Nat) : List (Option String × Raw) → Option (List (String × Json))
  | [] => some []
  | (k, v) :: rest => do
    let k ← k
    let v ← toJson? depth v
    let rest ← toFields? depth rest
    pure ((k, v) :: rest)

end

/-- The number of containers that may nest. -/
def depthLimit : Nat := 127

def read? (text : String) : Option Json := do
  (← Raw.read? text).toJson? depthLimit

end GridSeries.Json
