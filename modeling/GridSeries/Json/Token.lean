import GridSeries.Json.Basic
import GridSeries.Text.Quoted
import GridSeries.Decimal.Literal

/-! The tokens of JSON text. A number past the largest double and a text with an unpaired surrogate are tokens
without a value: only a reader that needs the value refuses them. -/
namespace GridSeries.Json

inductive Token where
  | beginArray
  | endArray
  | beginObject
  | endObject
  | comma
  | colon
  | null
  | bool (b : Bool)
  | number (n : Option Number)
  | string (s : Option String)
deriving Repr, DecidableEq

/-- The four characters that may stand between tokens. -/
def isSpace (c : Char) : Bool := c == ' ' || c == '\t' || c == '\n' || c == '\r'

def scanDigits (cs : List Char) : List Nat × List Char :=
  ((cs.takeWhile Text.isDigit).map Text.digitValue, cs.dropWhile Text.isDigit)

/-- The fraction of a number, if a point follows; a point needs a digit after it. -/
def scanFraction : List Char → Option (Option (List Nat) × List Char)
  | '.' :: rest =>
    let (digits, after) := scanDigits rest
    if digits.isEmpty then none else some (some digits, after)
  | cs => some (none, cs)

def scanExponentDigits (negative : Bool) (cs : List Char) : Option (Option Int × List Char) :=
  let (digits, after) := scanDigits cs
  if digits.isEmpty then none
  else
    let n : Int := Text.numberOf digits
    some (some (if negative then -n else n), after)

def scanExponent : List Char → Option (Option Int × List Char)
  | c :: rest =>
    if c = 'e' ∨ c = 'E' then
      match rest with
      | '+' :: after => scanExponentDigits false after
      | '-' :: after => scanExponentDigits true after
      | _ => scanExponentDigits false rest
    else some (none, c :: rest)
  | [] => some (none, [])

/-- The unsigned part of a number literal: no leading zeros, digits on both sides of a point. -/
def scanUnsigned (negative : Bool) (cs : List Char) : Option (Decimal.Literal × List Char) := do
  let (whole, rest) := scanDigits cs
  if whole.isEmpty ∨ (whole.head? = some 0 ∧ 1 < whole.length) then none
  else
    let (fraction, rest) ← scanFraction rest
    let (exponent, rest) ← scanExponent rest
    pure ({ negative, whole, fraction, exponent }, rest)

def scanNumber : List Char → Option (Decimal.Literal × List Char)
  | '-' :: rest => scanUnsigned true rest
  | cs => scanUnsigned false cs

/-- The number a literal stands for: an integer if it is written as one, fits 64 bits and is no negative zero. -/
def Number.ofLiteral? (l : Decimal.Literal) : Option Number :=
  let n := Text.numberOf l.whole
  match l.fraction, l.exponent with
  | none, none =>
    if l.negative then
      if 0 < n ∧ Word.minSigned ≤ -(n : Int) then some (.whole (-n)) else l.toFloat?.map .real
    else if Word.isUnsigned n then some (.whole n)
    else l.toFloat?.map .real
  | _, _ => l.toFloat?.map .real

/-- The token at the front of a text that starts with no space, and what follows it. -/
def scanToken : List Char → Option (Token × List Char)
  | '[' :: rest => some (.beginArray, rest)
  | ']' :: rest => some (.endArray, rest)
  | '{' :: rest => some (.beginObject, rest)
  | '}' :: rest => some (.endObject, rest)
  | ',' :: rest => some (.comma, rest)
  | ':' :: rest => some (.colon, rest)
  | 'n' :: 'u' :: 'l' :: 'l' :: rest => some (.null, rest)
  | 't' :: 'r' :: 'u' :: 'e' :: rest => some (.bool true, rest)
  | 'f' :: 'a' :: 'l' :: 's' :: 'e' :: rest => some (.bool false, rest)
  | '"' :: rest => (Text.scanLiteral rest).map fun (s, after) => (.string s, after)
  | cs => (scanNumber cs).map fun (l, after) => (.number (Number.ofLiteral? l), after)

/-- The tokens of a text; a token takes at least one character, so as many steps as characters suffice. -/
def scanTokens : Nat → List Char → Option (List Token)
  | 0, cs => if cs.all isSpace then some [] else none
  | steps + 1, cs =>
    match cs.dropWhile isSpace with
    | [] => some []
    | c :: rest => do
      let (token, after) ← scanToken (c :: rest)
      let tokens ← scanTokens steps after
      pure (token :: tokens)

def Token.scan (s : String) : Option (List Token) :=
  let cs := s.toList
  scanTokens cs.length cs

end GridSeries.Json
