import GridSeries.Decimal.Binary
import GridSeries.Word

/-! Number literals as they are read: digits gather in one 64-bit word, what does not fit is dropped, and the word is
scaled by powers of ten in floating point. The result is the nearest double whenever word and power are exact; `nearest`
rounds every decimal to the double nearest to it. -/
namespace GridSeries.Decimal

/-- The pieces of a number literal. The fraction and the exponent may be absent, and are then not the same as zero. -/
structure Literal where
  negative : Bool
  whole : List Nat
  fraction : Option (List Nat)
  exponent : Option Int
deriving Repr, DecidableEq

/-- Gathers digits while the word holds them: the word, and the digits left. -/
def gather (word : Nat) : List Nat → Nat × List Nat
  | [] => (word, [])
  | d :: rest => if Word.isUnsigned (word * 10 + d) then gather (word * 10 + d) rest else (word, d :: rest)

def powerOfTen (n : Nat) : Float := Float.ofNat (tens n)

/-- Scales by a power of ten, at most 308 places at a time; no value past the largest double is produced.
Dividing stops at zero, so `steps` need only reach past the last nonzero quotient. -/
def scale : Nat → Float → Int → Option Float
  | 0, x, _ => some x
  | steps + 1, x, exponent =>
    if exponent.natAbs ≤ 308 then
      if 0 ≤ exponent then
        let y := x * powerOfTen exponent.natAbs
        if y.isFinite then some y else none
      else some (x / powerOfTen exponent.natAbs)
    else if x == 0 then some x
    else if 0 ≤ exponent then none
    else scale steps (x / powerOfTen 308) (exponent + 308)

def Literal.parts (l : Literal) : Nat × Int :=
  let (word, left) := gather 0 l.whole
  let (word, kept) := match l.fraction with
    | none => (word, 0)
    | some digits =>
      let (word', left') := gather word digits
      (word', digits.length - left'.length)
  (word, (left.length : Int) - kept + l.exponent.getD 0)

/-- The double a literal stands for; none if it lies past the largest double. -/
def Literal.toFloat? (l : Literal) : Option Float :=
  let (word, exponent) := l.parts
  (scale 8 (Float.ofNat word) exponent).map fun x => if l.negative then -x else x

def infinity : Float := 1.0 / 0.0

/-- The double nearest to `digits` times ten to the power `exponent`. Decimals far outside the range of doubles are
told by their size alone. -/
def nearest (digits : Nat) (exponent : Int) : Float :=
  let lead := exponent + (Nat.toDigits 10 digits).length
  if digits = 0 then 0.0
  else if 400 < lead then infinity
  else if lead < -400 then 0.0
  else if 0 ≤ exponent then Float.ofScientific digits false exponent.toNat
  else Float.ofScientific digits true (-exponent).toNat

end GridSeries.Decimal
