import GridSeries.Decimal.Shortest

/-! How the digits of a double are laid out as text. One record holds a format's decisions; the two formats used
are that of written documents and that of messages. -/
namespace GridSeries.Decimal

/-- The decisions of a number format. -/
structure Layout where
  /-- Which of two equally near decimals is written. -/
  tie : Tie
  /-- Positional notation is used when the first digit's power of ten lies between these two, if given. -/
  positional : Option (Int × Int)
  /-- A whole number in positional notation ends in a point and a zero. -/
  keepPoint : Bool
  /-- What stands for a value that is no number. -/
  notANumber : String
  /-- What stands for the two infinities, if they are told apart. -/
  infinity : String
  negativeInfinity : String

/-- Written documents: a point or an exponent in every number, and an exponent outside `1e-5 ≤ |x| < 1e16`. -/
def Layout.document : Layout :=
  { tie := .toEven, positional := some (-5, 15), keepPoint := true
    notANumber := "null", infinity := "null", negativeInfinity := "null" }

/-- Messages: never an exponent, and no point in whole numbers. -/
def Layout.message : Layout :=
  { tie := .up, positional := none, keepPoint := false
    notANumber := "NaN", infinity := "inf", negativeInfinity := "-inf" }

private def zeros (n : Nat) : List Char := List.replicate n '0'

/-- Significant digits in positional notation, `lead` being the power of ten of the first. -/
def positionalChars (keepPoint : Bool) (digits : List Char) (lead : Int) : List Char :=
  if lead < 0 then '0' :: '.' :: (zeros (-lead - 1).toNat ++ digits)
  else
    let whole := lead.toNat + 1
    if digits.length ≤ whole then
      digits ++ zeros (whole - digits.length) ++ (if keepPoint then ['.', '0'] else [])
    else digits.take whole ++ '.' :: digits.drop whole

/-- Significant digits with one of them before the point, and a signed exponent. -/
def exponentChars (digits : List Char) (lead : Int) : List Char :=
  let sign := if lead < 0 then '-' else '+'
  digits.take 1 ++ (if digits.length ≤ 1 then [] else '.' :: digits.drop 1) ++
    'e' :: sign :: Nat.toDigits 10 lead.natAbs

def Layout.scaledChars (layout : Layout) (s : Scaled) : List Char :=
  let digits := Nat.toDigits 10 s.digits
  let lead := s.exponent + digits.length - 1
  match layout.positional with
  | none => positionalChars layout.keepPoint digits lead
  | some (least, most) =>
    if least ≤ lead ∧ lead ≤ most then positionalChars layout.keepPoint digits lead
    else exponentChars digits lead

def Layout.chars (layout : Layout) (x : Float) : List Char :=
  match Parts.ofFloat x with
  | .notANumber => layout.notANumber.toList
  | .infinite negative => (if negative then layout.negativeInfinity else layout.infinity).toList
  | .finite negative mantissa exponent =>
    (if negative then ['-'] else []) ++
      (if mantissa = 0 then positionalChars layout.keepPoint ['0'] 0
        else layout.scaledChars (shortest layout.tie mantissa exponent))

def Layout.render (layout : Layout) (x : Float) : String :=
  String.ofList (layout.chars x)

end GridSeries.Decimal

namespace GridSeries

def showFloat (x : Float) : String :=
  Decimal.Layout.message.render x

end GridSeries
