/-! Characters and quoted text. Digits spell numbers, and blanks show nothing. String literals, as JSON has them, are
written with the fewest escapes and read back. Reading goes through units, because two escaped units may stand for one
character. -/
namespace GridSeries.Text

/-- The ten digits of ASCII; digits of other scripts do not count. -/
def isDigit (c : Char) : Bool := decide ('0' ≤ c) && decide (c ≤ '9')

def digitValue (c : Char) : Nat := c.toNat - 48

def numberOf (digits : List Nat) : Nat := digits.foldl (fun n d => n * 10 + d) 0

def numeral (cs : List Char) : Nat := numberOf (cs.map digitValue)

/-- The characters with the Unicode property `White_Space`; core's own class knows only four of them. -/
def isBlankChar (c : Char) : Bool :=
  let n := c.toNat
  (9 ≤ n && n ≤ 13) || n == 0x20 || n == 0x85 || n == 0xA0 || n == 0x1680 ||
    (0x2000 ≤ n && n ≤ 0x200A) || n == 0x2028 || n == 0x2029 || n == 0x202F || n == 0x205F || n == 0x3000

/-- No character of the text is visible; the empty text is blank. -/
def isBlank (s : String) : Bool :=
  s.toList.all isBlankChar

/-- What one character becomes inside a JSON literal: only quotes, backslashes and controls are escaped. -/
def escapeChar (c : Char) : List Char :=
  if c = '"' then ['\\', '"']
  else if c = '\\' then ['\\', '\\']
  else if c = '\x08' then ['\\', 'b']
  else if c = '\x0c' then ['\\', 'f']
  else if c = '\n' then ['\\', 'n']
  else if c = '\r' then ['\\', 'r']
  else if c = '\t' then ['\\', 't']
  else if c.toNat < 0x20 then
    ['\\', 'u', '0', '0', Nat.digitChar (c.toNat / 16), Nat.digitChar (c.toNat % 16)]
  else [c]

def quoteChars (s : String) : List Char :=
  '"' :: (s.toList.flatMap escapeChar ++ ['"'])

def quote (s : String) : String :=
  String.ofList (quoteChars s)

/-- One element of a literal's body: a plain character, or the sixteen bits that a numeric escape names. -/
inductive LiteralUnit where
  | plain (c : Char)
  | code (n : Nat)
deriving Repr, DecidableEq

def hexValue? (c : Char) : Option Nat :=
  let n := c.toNat
  if 48 ≤ n ∧ n ≤ 57 then some (n - 48)
  else if 97 ≤ n ∧ n ≤ 102 then some (n - 87)
  else if 65 ≤ n ∧ n ≤ 70 then some (n - 55)
  else none

/-- Four hexadecimal digits, the most significant first. -/
def hexQuad? (a b c d : Char) : Option Nat := do
  pure (4096 * (← hexValue? a) + 256 * (← hexValue? b) + 16 * (← hexValue? c) + (← hexValue? d))

/-- The character that a one-letter escape names. -/
def shortEscape? : Char → Option Char
  | '"' => some '"'
  | '\\' => some '\\'
  | '/' => some '/'
  | 'b' => some '\x08'
  | 'f' => some '\x0c'
  | 'n' => some '\n'
  | 'r' => some '\r'
  | 't' => some '\t'
  | _ => none

/-- Reads a literal's body up to its closing quote, which is consumed: the units, and what follows the literal. -/
def scanUnits : List Char → Option (List LiteralUnit × List Char)
  | [] => none
  | '"' :: rest => some ([], rest)
  | '\\' :: 'u' :: a :: b :: c :: d :: rest => do
    let n ← hexQuad? a b c d
    let (units, after) ← scanUnits rest
    pure (.code n :: units, after)
  | '\\' :: e :: rest => do
    let c ← shortEscape? e
    let (units, after) ← scanUnits rest
    pure (.plain c :: units, after)
  | c :: rest =>
    if c.toNat < 0x20 ∨ c = '\\' then none
    else do
      let (units, after) ← scanUnits rest
      pure (.plain c :: units, after)

def isHighSurrogate (n : Nat) : Bool := 0xD800 ≤ n && n < 0xDC00

def isLowSurrogate (n : Nat) : Bool := 0xDC00 ≤ n && n < 0xE000

/-- The characters that the units spell, if every surrogate among them has its partner. -/
def assemble? : List LiteralUnit → Option (List Char)
  | [] => some []
  | .plain c :: rest => (assemble? rest).map (c :: ·)
  | .code hi :: .code lo :: rest =>
    if isHighSurrogate hi then
      if isLowSurrogate lo then
        (assemble? rest).map (Char.ofNat (0x10000 + (hi - 0xD800) * 0x400 + (lo - 0xDC00)) :: ·)
      else none
    else if isLowSurrogate hi then none
    else (assemble? (.code lo :: rest)).map (Char.ofNat hi :: ·)
  | .code n :: rest =>
    if isHighSurrogate n || isLowSurrogate n then none
    else (assemble? rest).map (Char.ofNat n :: ·)

/-- Reads a literal after its opening quote: its text, if the escapes spell one, and what follows. -/
def scanLiteral (cs : List Char) : Option (Option String × List Char) := do
  let (units, after) ← scanUnits cs
  pure ((assemble? units).map String.ofList, after)

end GridSeries.Text
