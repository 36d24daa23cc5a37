import GridSeries.Json.Basic
import GridSeries.Text.Quoted
import GridSeries.Decimal.Notation

/-! JSON text: one line without spaces, or spread over lines with two spaces to the level. -/
namespace GridSeries.Json

def Number.chars : Number → List Char
  | .whole n => (toString n).toList
  | .real x => Decimal.Layout.document.chars x

def wordChars (b : Bool) : List Char := if b then ['t', 'r', 'u', 'e'] else ['f', 'a', 'l', 's', 'e']

mutual

def compactChars : Json → List Char
  | .null => ['n', 'u', 'l', 'l']
  | .bool b => wordChars b
  | .number n => n.chars
  | .string s => Text.quoteChars s
  | .array items => '[' :: (List.intercalate [','] (compactItems items) ++ [']'])
  | .object fields => '{' :: (List.intercalate [','] (compactFields fields) ++ ['}'])

def compactItems : List Json → List (List Char)
  | [] => []
  | v :: rest => compactChars v :: compactItems rest

def compactFields : List (String × Json) → List (List Char)
  | [] => []
  | (k, v) :: rest => (Text.quoteChars k ++ ':' :: compactChars v) :: compactFields rest

end

/-- A line break and the spaces of a level. -/
def lineBreak (level : Nat) : List Char := '\n' :: List.replicate (2 * level) ' '

/-- A container with one piece to a line; an empty one stays on its line. -/
def spread (opening closing : Char) (level : Nat) (pieces : List (List Char)) : List Char :=
  if pieces.isEmpty then [opening, closing]
  else
    let inner := lineBreak (level + 1)
    opening :: (inner ++ List.intercalate (',' :: inner) pieces ++ lineBreak level ++ [closing])

mutual

def prettyChars (level : Nat) : Json → List Char
  | .null => ['n', 'u', 'l', 'l']
  | .bool b => wordChars b
  | .number n => n.chars
  | .string s => Text.quoteChars s
  | .array items => spread '[' ']' level (prettyItems (level + 1) items)
  | .object fields => spread '{' '}' level (prettyFields (level + 1) fields)

def prettyItems (level : Nat) : List Json → List (List Char)
  | [] => []
  | v :: rest => prettyChars level v :: prettyItems level rest

def prettyFields (level : Nat) : List (String × Json) → List (List Char)
  | [] => []
  | (k, v) :: rest => (Text.quoteChars k ++ ':' :: ' ' :: prettyChars level v) :: prettyFields level rest

end

def compact (v : Json) : String := String.ofList (compactChars v)

def pretty (v : Json) : String := String.ofList (prettyChars 0 v)

end GridSeries.Json
