import GridSeries.Decimal.Binary

/-! The fewest decimal digits that read back as a given double. The reals that round to it form an interval;
for 1, 2, ... digits the two neighbours of the exact value on that decimal grid are tried, and the first grid with
a neighbour inside the interval gives the digits, the nearer of two. All arithmetic is on exact integers. -/
namespace GridSeries.Decimal

/-- Which of two equally near decimals is taken. -/
inductive Tie where
  | toEven
  | up
deriving Repr, DecidableEq

/-- The positive decimal `digits` times ten to the power `exponent`. -/
structure Scaled where
  digits : Nat
  exponent : Int
deriving Repr, DecidableEq

/-- The reals that round to a double: its value and the ends of the interval, as numerators over one denominator. -/
structure Rounding where
  low : Nat
  value : Nat
  high : Nat
  denominator : Nat
  closed : Bool
deriving Repr, DecidableEq

/-- The interval of a positive double: half a gap to either side, ends included when the mantissa is even. -/
def Rounding.of (mantissa : Nat) (exponent : Int) : Rounding :=
  let below := if narrowBelow mantissa exponent then 1 else 2
  let scale := exponent - 2
  let factor := twos scale.toNat
  { low := (4 * mantissa - below) * factor
    value := 4 * mantissa * factor
    high := (4 * mantissa + 2) * factor
    denominator := twos (-scale).toNat
    closed := mantissa % 2 == 0 }

/-- The decimal `digits` times ten to the power `place` lies in the interval. -/
def Rounding.contains (r : Rounding) (digits : Nat) (place : Int) : Bool :=
  let scaled := digits * tens place.toNat * r.denominator
  let unit := tens (-place).toNat
  if r.closed then decide (r.low * unit ≤ scaled) && decide (scaled ≤ r.high * unit)
  else decide (r.low * unit < scaled) && decide (scaled < r.high * unit)

def leadingPlace (numerator denominator : Nat) : Int :=
  if denominator ≤ numerator then
    ((Nat.toDigits 10 (numerator / denominator)).length : Int) - 1
  else
    let ratio := (Nat.toDigits 10 (denominator / numerator)).length
    if denominator ≤ numerator * tens (ratio - 1) then -((ratio : Int) - 1) else -(ratio : Int)

/-- The decimal nearest to the value among the two neighbours on the grid of `place` that lie in the interval. -/
def Rounding.onGrid? (r : Rounding) (tie : Tie) (place : Int) : Option Nat :=
  let numerator := r.value * tens (-place).toNat
  let denominator := r.denominator * tens place.toNat
  let lower := numerator / denominator
  let rest := numerator % denominator
  let lowerFits := 0 < lower && r.contains lower place
  let upperFits := r.contains (lower + 1) place
  if lowerFits && upperFits then
    if 2 * rest < denominator then some lower
    else if denominator < 2 * rest then some (lower + 1)
    else match tie with
      | .up => some (lower + 1)
      | .toEven => if lower % 2 = 0 then some lower else some (lower + 1)
  else if lowerFits then some lower
  else if upperFits then some (lower + 1)
  else none

def Scaled.trim : Nat → Scaled → Scaled
  | 0, s => s
  | fuel + 1, s =>
    if s.digits % 10 = 0 then trim fuel { digits := s.digits / 10, exponent := s.exponent + 1 } else s

/-- Tries the grids with `tried + 1`, `tried + 2`, ... digits, `more` of them. -/
def Rounding.search (r : Rounding) (tie : Tie) (lead : Int) : Nat → Nat → Scaled
  | tried, 0 => { digits := r.value / r.denominator, exponent := lead - tried }
  | tried, more + 1 =>
    let place := lead - tried
    match r.onGrid? tie place with
    | some digits => Scaled.trim 18 { digits, exponent := place }
    | none => search r tie lead (tried + 1) more

/-- The shortest decimal that reads back as the positive double `mantissa` times two to the power `exponent`;
seventeen digits always suffice. -/
def shortest (tie : Tie) (mantissa : Nat) (exponent : Int) : Scaled :=
  let r := Rounding.of mantissa exponent
  r.search tie (leadingPlace r.value r.denominator) 0 17

end GridSeries.Decimal
