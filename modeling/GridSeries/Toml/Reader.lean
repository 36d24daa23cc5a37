import GridSeries.Toml.Table
import GridSeries.Toml.Text

/-! Reading TOML text: values, and the lines of headers and pairs that make up the root table. Arrays may spread over
lines, tables between braces may not. -/
namespace GridSeries.Toml

/-- The number of containers that may nest in a value. -/
def depthLimit : Nat := 79

/-- Steps over blanks, line ends and comments inside an array. -/
def skipGaps : Nat → List Char → List Char
  | 0, cs => cs
  | steps + 1, cs =>
    match takeNewline? cs with
    | some rest => skipGaps steps rest
    | none =>
      match cs with
      | '#' :: rest =>
        match takeNewline? (rest.dropWhile isPlain) with
        | some rest => skipGaps steps rest
        | none => cs
      | c :: rest => if isSpace c then skipGaps steps rest else cs
      | [] => []

def skipAllGaps (cs : List Char) : List Char := skipGaps cs.length cs

mutual

/-- A value; `depth` more containers may be opened. Every step takes a character, so `steps` need only count them. -/
def takeValue? (depth : Nat) : Nat → List Char → Option (Value × List Char)
  | 0, _ => none
  | steps + 1, cs =>
    match cs with
    | '"' :: _ => (takeText? cs).map fun (s, rest) => (.text s, rest)
    | '\'' :: _ => (takeText? cs).map fun (s, rest) => (.text s, rest)
    | '[' :: rest =>
      match depth with
      | 0 => none
      | inner + 1 => (takeItems? inner steps (skipAllGaps rest)).map fun (items, rest) => (.array items, rest)
    | '{' :: rest =>
      match depth with
      | 0 => none
      | inner + 1 => do
        let (pairs, rest) ← match skipSpace rest with
          | '}' :: rest => pure ([], rest)
          | rest => takePairs? inner steps rest
        pure (← tableOfPairs? pairs, rest)
    | 't' :: 'r' :: 'u' :: 'e' :: rest => some (.bool true, rest)
    | 'f' :: 'a' :: 'l' :: 's' :: 'e' :: rest => some (.bool false, rest)
    | _ => takeNumber? cs

/-- The elements of an array to its end; a comma may follow the last. -/
def takeItems? (depth : Nat) : Nat → List Char → Option (List Value × List Char)
  | 0, _ => none
  | _, ']' :: rest => some ([], rest)
  | steps + 1, cs => do
    let (v, rest) ← takeValue? depth steps cs
    match skipAllGaps rest with
    | ',' :: rest =>
      let (items, rest) ← takeItems? depth steps (skipAllGaps rest)
      pure (v :: items, rest)
    | ']' :: rest => pure ([v], rest)
    | _ => none

/-- The pairs of a table between braces to its end; no comma may follow the last. -/
def takePairs? (depth : Nat) : Nat → List Char → Option (List (List String × Value) × List Char)
  | 0, _ => none
  | steps + 1, cs => do
    let (key, rest) ← takeKey? cs
    let rest ← takeMark? '=' rest
    let (v, rest) ← takeValue? depth steps (skipSpace rest)
    match skipSpace rest with
    | ',' :: rest =>
      let (pairs, rest) ← takePairs? depth steps rest
      pure ((key, v) :: pairs, rest)
    | '}' :: rest => pure ([(key, v)], rest)
    | _ => none

end

/-- The end of a line: perhaps a comment, and then a line end or the end of the text. -/
def takeLineEnd? (cs : List Char) : Option (List Char) :=
  let rest := match skipSpace cs with
    | '#' :: rest => rest.dropWhile isPlain
    | rest => rest
  if rest.isEmpty then some [] else takeNewline? rest

/-- The document so far, and the path of the table that lines add to. -/
structure Progress where
  root : Entries
  path : List String

/-- Opens the table of a header. -/
def Progress.openHeader (p : Progress) (path : List String) (repeated : Bool) : Option Progress := do
  let key ← path.getLast?
  let change := if repeated then Entries.openElement key else Entries.openTable key
  pure { root := ← p.root.within change path.dropLast, path }

/-- Gives a key of the open table its value. -/
def Progress.assign (p : Progress) (key : List String) (v : Value) : Option Progress := do
  pure { p with root := ← p.root.within (Entries.assign v none key) p.path }

/-- A header or a pair, to the end of its line. -/
def takeStatement? (p : Progress) : List Char → Option (Progress × List Char)
  | '[' :: '[' :: rest => do
    let (key, rest) ← takeKey? rest
    let rest ← takeMark? ']' (← takeMark? ']' rest)
    pure (← p.openHeader key true, ← takeLineEnd? rest)
  | '[' :: rest => do
    let (key, rest) ← takeKey? rest
    let rest ← takeMark? ']' rest
    pure (← p.openHeader key false, ← takeLineEnd? rest)
  | cs => do
    let (key, rest) ← takeKey? cs
    let rest ← takeMark? '=' rest
    let rest := skipSpace rest
    let (v, rest) ← takeValue? depthLimit (rest.length + 1) rest
    pure (← p.assign key v, ← takeLineEnd? rest)

/-- Reads line after line; every line takes a character. -/
def readLines : Nat → Progress → List Char → Option Progress
  | 0, p, cs => if cs.isEmpty then some p else none
  | steps + 1, p, cs =>
    match skipSpace cs with
    | [] => some p
    | '#' :: rest => do readLines steps p (← takeLineEnd? ('#' :: rest))
    | c :: rest =>
      match takeNewline? (c :: rest) with
      | some rest => readLines steps p rest
      | none => do
        let (p, rest) ← takeStatement? p (c :: rest)
        readLines steps p rest

/-- The root table of a text. A byte order mark at its front is stepped over. -/
def read? (text : String) : Option (List (String × Value)) := do
  let cs := match text.toList with
    | '\uFEFF' :: rest => rest
    | cs => cs
  let p ← readLines (cs.length + 1) ⟨[], []⟩ cs
  pure (entriesToValues p.root)

end GridSeries.Toml
