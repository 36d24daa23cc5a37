import GridSeries.Decimal.Literal
import GridSeries.Text.Quoted
import GridSeries.Word

/-! The values that TOML text holds, and how those that are numbers or times are read. -/
namespace GridSeries.Toml

/-- A value. Times are kept as they stand in the text. -/
inductive Value where
  | text (s : String)
  | whole (n : Int)
  | real (x : Float)
  | bool (b : Bool)
  | time (s : String)
  | array (items : List Value)
  | table (entries : List (String × Value))

/-- The value of an entry; a table has a key at most once. -/
def entry? (key : String) : List (String × Value) → Option Value
  | [] => none
  | (k, v) :: rest => if k = key then some v else entry? key rest

/-- Digits with single underscores between them: the digits, and what follows. -/
def takeDigits (isDigit : Char → Bool) : List Char → List Char × List Char
  | '_' :: d :: rest =>
    if isDigit d then
      let (digits, rest) := takeDigits isDigit rest
      (d :: digits, rest)
    else ([], '_' :: d :: rest)
  | c :: rest =>
    if isDigit c then
      let (digits, rest) := takeDigits isDigit rest
      (c :: digits, rest)
    else ([], c :: rest)
  | [] => ([], [])

/-- Digits, the first of them not after an underscore; there must be one. -/
def takeDigits? (isDigit : Char → Bool) (cs : List Char) : Option (List Char × List Char) :=
  match cs with
  | c :: _ => if isDigit c then some (takeDigits isDigit cs) else none
  | [] => none

/-- A sign, if there is one: whether it is that of negative numbers. -/
def takeSign : List Char → Bool × List Char
  | '-' :: rest => (true, rest)
  | '+' :: rest => (false, rest)
  | cs => (false, cs)

/-- The digits of a decimal number without leading zeros. -/
def takeDecimal? : List Char → Option (List Char × List Char)
  | '0' :: rest => some (['0'], rest)
  | cs => takeDigits? Text.isDigit cs

def wholeValue? (n : Int) : Option Value := if Word.isSigned n then some (.whole n) else none

/-- A whole number in base two, eight or sixteen, after its mark. -/
def takeBased? (base : Nat) (cs : List Char) : Option (Value × List Char) := do
  let isDigit := fun c => (Text.hexValue? c).any fun d => decide (d < base)
  let (digits, rest) ← takeDigits? isDigit cs
  let n : Nat := digits.foldl (fun n c => n * base + (Text.hexValue? c).getD 0) 0
  pure (← wholeValue? n, rest)

def takeWhole? : List Char → Option (Value × List Char)
  | '0' :: 'x' :: rest => takeBased? 16 rest
  | '0' :: 'o' :: rest => takeBased? 8 rest
  | '0' :: 'b' :: rest => takeBased? 2 rest
  | cs => do
    let (negative, rest) := takeSign cs
    let (digits, rest) ← takeDecimal? rest
    let n : Int := Text.numeral digits
    pure (← wholeValue? (if negative then -n else n), rest)

/-- The digits after a point, if one follows. -/
def takeFraction? : List Char → Option (Option (List Char) × List Char)
  | '.' :: rest => (takeDigits? Text.isDigit rest).map fun (digits, after) => (some digits, after)
  | cs => some (none, cs)

/-- The exponent, if its mark follows. -/
def takeExponent? : List Char → Option (Option Int × List Char)
  | c :: rest =>
    if c = 'e' ∨ c = 'E' then
      let (negative, rest) := takeSign rest
      (takeDigits? Text.isDigit rest).map fun (digits, after) =>
        let n : Int := Text.numeral digits
        (some (if negative then -n else n), after)
    else some (none, c :: rest)
  | [] => some (none, [])

/-- A number with a fraction or an exponent; none past the largest double. -/
def takeReal? (cs : List Char) : Option (Value × List Char) := do
  let (negative, rest) := takeSign cs
  let (whole, rest) ← takeDecimal? rest
  let (fraction, rest) ← takeFraction? rest
  let (exponent, rest) ← takeExponent? rest
  if fraction.isNone && exponent.isNone then none
  else
    let digits := fraction.getD []
    let size := Decimal.nearest (Text.numeral (whole ++ digits)) (exponent.getD 0 - digits.length)
    let x := if negative then -size else size
    if x == Decimal.infinity then none else pure (.real x, rest)

/-- The names of the values that are no decimals. -/
def takeNamed? (cs : List Char) : Option (Value × List Char) :=
  let (negative, rest) := takeSign cs
  match rest with
  | 'i' :: 'n' :: 'f' :: rest => some (.real (if negative then -Decimal.infinity else Decimal.infinity), rest)
  | 'n' :: 'a' :: 'n' :: rest => some (.real (0.0 / 0.0), rest)
  | _ => none

/-- A number of just so many digits, between two bounds. -/
def takeFixed? (width least most : Nat) (cs : List Char) : Option (Nat × List Char) :=
  let digits := cs.take width
  let n := Text.numeral digits
  if digits.length = width ∧ digits.all Text.isDigit ∧ least ≤ n ∧ n ≤ most then some (n, cs.drop width) else none

def takeMark? (mark : Char) : List Char → Option (List Char)
  | c :: rest => if c = mark then some rest else none
  | [] => none

def monthDays (year month : Nat) : Nat :=
  if month = 2 then (if year % 4 = 0 ∧ (year % 100 ≠ 0 ∨ year % 400 = 0) then 29 else 28)
  else if month = 4 ∨ month = 6 ∨ month = 9 ∨ month = 11 then 30
  else 31

def skipDate? (cs : List Char) : Option (List Char) := do
  let (year, rest) ← takeFixed? 4 0 9999 cs
  let (month, rest) ← takeFixed? 2 1 12 (← takeMark? '-' rest)
  let (_, rest) ← takeFixed? 2 1 (monthDays year month) (← takeMark? '-' rest)
  pure rest

def skipClock? (cs : List Char) : Option (List Char) := do
  let (_, rest) ← takeFixed? 2 0 23 cs
  let (_, rest) ← takeFixed? 2 0 59 (← takeMark? ':' rest)
  let (_, rest) ← takeFixed? 2 0 60 (← takeMark? ':' rest)
  match rest with
  | '.' :: d :: after => if Text.isDigit d then pure (after.dropWhile Text.isDigit) else none
  | _ => pure rest

/-- Steps over an offset from the meridian, if one follows. -/
def skipOffset (cs : List Char) : List Char :=
  let offset? (rest : List Char) : Option (List Char) := do
    let (_, rest) ← takeFixed? 2 0 23 rest
    let (_, rest) ← takeFixed? 2 0 59 (← takeMark? ':' rest)
    pure rest
  match cs with
  | 'Z' :: rest => rest
  | 'z' :: rest => rest
  | '+' :: rest => (offset? rest).getD cs
  | '-' :: rest => (offset? rest).getD cs
  | _ => cs

/-- Steps over the time of day after a date, if one follows. -/
def skipDayTime (cs : List Char) : List Char :=
  match cs with
  | c :: rest =>
    if c = 'T' ∨ c = 't' ∨ c = ' ' then ((skipClock? rest).map skipOffset).getD cs else cs
  | [] => []

def takeTime? (cs : List Char) : Option (Value × List Char) := do
  let rest ← ((skipDate? cs).map skipDayTime).or (skipClock? cs)
  pure (.time (String.ofList (cs.take (cs.length - rest.length))), rest)

def takeNumber? (cs : List Char) : Option (Value × List Char) :=
  (((takeTime? cs).or (takeReal? cs)).or (takeNamed? cs)).or (takeWhole? cs)

end GridSeries.Toml
