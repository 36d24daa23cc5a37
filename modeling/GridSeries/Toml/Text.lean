import GridSeries.Text.Quoted

/-! Texts and keys of TOML: the four kinds of quoted text, and keys of one or more parts. -/
namespace GridSeries.Toml

/-- The characters that may stand between the parts of a line. -/
def isSpace (c : Char) : Bool := c == ' ' || c == '\t'

def skipSpace (cs : List Char) : List Char := cs.dropWhile isSpace

/-- The characters of comments and of literal text: no control but the tab. -/
def isPlain (c : Char) : Bool := c == '\t' || (decide (0x20 ≤ c.toNat) && decide (c.toNat ≠ 0x7F))

def takeNewline? : List Char → Option (List Char)
  | '\n' :: rest => some rest
  | '\r' :: '\n' :: rest => some rest
  | _ => none

def charOf? (n : Nat) : Option Char := if n.isValidChar then some (Char.ofNat n) else none

/-- Eight hexadecimal digits. -/
def hexOctet? (a b c d e f g h : Char) : Option Nat := do
  pure (65536 * (← Text.hexQuad? a b c d) + (← Text.hexQuad? e f g h))

def shortEscape? : Char → Option Char
  | 'b' => some '\x08'
  | 't' => some '\t'
  | 'n' => some '\n'
  | 'f' => some '\x0c'
  | 'r' => some '\r'
  | '"' => some '"'
  | '\\' => some '\\'
  | _ => none

/-- The character that an escape names, after its backslash. -/
def takeEscape? : List Char → Option (Char × List Char)
  | 'u' :: a :: b :: c :: d :: rest => do
    pure (← charOf? (← Text.hexQuad? a b c d), rest)
  | 'U' :: a :: b :: c :: d :: e :: f :: g :: h :: rest => do
    pure (← charOf? (← hexOctet? a b c d e f g h), rest)
  | c :: rest => do
    pure (← shortEscape? c, rest)
  | [] => none

/-- The body of a text in double quotes, and what follows it. -/
def takeBasic? : Nat → List Char → Option (List Char × List Char)
  | _, '"' :: rest => some ([], rest)
  | steps + 1, '\\' :: rest => do
    let (c, rest) ← takeEscape? rest
    let (body, rest) ← takeBasic? steps rest
    pure (c :: body, rest)
  | steps + 1, c :: rest =>
    if isPlain c then do
      let (body, rest) ← takeBasic? steps rest
      pure (c :: body, rest)
    else none
  | _, _ => none

/-- The body of a text in single quotes, and what follows it. -/
def takeLiteral? : List Char → Option (List Char × List Char)
  | [] => none
  | '\'' :: rest => some ([], rest)
  | c :: rest =>
    if isPlain c then do
      let (body, rest) ← takeLiteral? rest
      pure (c :: body, rest)
    else none

/-- Steps over spaces and over the ends of lines. A carriage return ends a line only with the line feed after it. -/
def skipBlankLines : List Char → List Char
  | '\r' :: '\n' :: rest => skipBlankLines rest
  | c :: rest => if isSpace c || c == '\n' then skipBlankLines rest else c :: rest
  | [] => []

/-- Steps over a line break after a backslash, and over all that is blank after it. -/
def skipFolded? (cs : List Char) : Option (List Char) :=
  (takeNewline? (skipSpace cs)).map skipBlankLines

/-- Quotes that end a text of several lines, up to two of them belonging to the text. -/
def takeClosing? (quote : Char) (cs : List Char) : Option (List Char × List Char) :=
  let quotes := (cs.takeWhile fun c => c == quote).length
  if quotes < 3 then none
  else
    let kept := min (quotes - 3) 2
    some (List.replicate kept quote, cs.drop (kept + 3))

/-- The body of a text of several lines, and what follows it; backslashes are escapes if `escapes` says so. -/
def takeLines? (quote : Char) (escapes : Bool) : Nat → List Char → Option (List Char × List Char)
  | 0, _ => none
  | steps + 1, cs =>
    match takeClosing? quote cs with
    | some closing => some closing
    | none =>
      match takeNewline? cs with
      | some rest => do
        let (body, rest) ← takeLines? quote escapes steps rest
        pure ('\n' :: body, rest)
      | none =>
        match cs with
        | [] => none
        | c :: rest =>
          if escapes && c == '\\' then
            match skipFolded? rest with
            | some rest => takeLines? quote escapes steps rest
            | none => do
              let (c, rest) ← takeEscape? rest
              let (body, rest) ← takeLines? quote escapes steps rest
              pure (c :: body, rest)
          else if isPlain c then do
            let (body, rest) ← takeLines? quote escapes steps rest
            pure (c :: body, rest)
          else none

def takeText? : List Char → Option (String × List Char)
  | '"' :: '"' :: '"' :: rest =>
    let rest := (takeNewline? rest).getD rest
    (takeLines? '"' true (rest.length + 1) rest).map fun (body, after) => (String.ofList body, after)
  | '\'' :: '\'' :: '\'' :: rest =>
    let rest := (takeNewline? rest).getD rest
    (takeLines? '\'' false (rest.length + 1) rest).map fun (body, after) => (String.ofList body, after)
  | '"' :: rest => (takeBasic? rest.length rest).map fun (body, after) => (String.ofList body, after)
  | '\'' :: rest => (takeLiteral? rest).map fun (body, after) => (String.ofList body, after)
  | _ => none

/-- The characters of keys without quotes. -/
def isBare (c : Char) : Bool :=
  Text.isDigit c || (decide ('a' ≤ c) && decide (c ≤ 'z')) || (decide ('A' ≤ c) && decide (c ≤ 'Z')) ||
    c == '-' || c == '_'

def takeKeyPart? : List Char → Option (String × List Char)
  | '"' :: rest => (takeBasic? rest.length rest).map fun (body, after) => (String.ofList body, after)
  | '\'' :: rest => (takeLiteral? rest).map fun (body, after) => (String.ofList body, after)
  | cs =>
    let part := cs.takeWhile isBare
    if part.isEmpty then none else some (String.ofList part, cs.drop part.length)

/-- A key: parts with points between them. Spaces around them are stepped over. -/
def takeKeyParts? : Nat → List Char → Option (List String × List Char)
  | 0, _ => none
  | parts + 1, cs => do
    let (part, rest) ← takeKeyPart? (skipSpace cs)
    match skipSpace rest with
    | '.' :: rest =>
      let (more, rest) ← takeKeyParts? parts rest
      pure (part :: more, rest)
    | rest => pure ([part], rest)

/-- The number of parts that a key may have. -/
def partLimit : Nat := 79

def takeKey? (cs : List Char) : Option (List String × List Char) := takeKeyParts? partLimit cs

end GridSeries.Toml
