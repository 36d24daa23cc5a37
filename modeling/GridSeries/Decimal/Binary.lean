/-! The parts of a binary floating-point number, as exact integers, and the powers that they are scaled by. -/
namespace GridSeries.Decimal

/-- A double taken apart; a finite one is `mantissa` times two to the power `exponent`, with its sign kept apart
so that the two zeros stay different. -/
inductive Parts where
  | notANumber
  | infinite (negative : Bool)
  | finite (negative : Bool) (mantissa : Nat) (exponent : Int)
deriving Repr, DecidableEq

/-- Fractions have fifty-two bits, so they lie below this number, which full mantissas start from. -/
def leastMantissa : Nat := 4503599627370496

def Parts.ofBits (bits : Nat) : Parts :=
  let negative := bits / leastMantissa / 2048 == 1
  let biased : Nat := bits / leastMantissa % 2048
  let fraction : Nat := bits % leastMantissa
  if biased = 2047 then
    if fraction = 0 then .infinite negative else .notANumber
  else if biased = 0 then .finite negative fraction (-1074)
  else .finite negative (leastMantissa + fraction) ((biased : Int) - 1075)

def Parts.ofFloat (x : Float) : Parts :=
  Parts.ofBits x.toBits.toNat

/-- The gap to the double below is half as wide as the gap above: the fraction is zero and a smaller
exponent exists. -/
def narrowBelow (mantissa : Nat) (exponent : Int) : Bool :=
  mantissa == leastMantissa && decide (-1074 < exponent)

def twos (n : Nat) : Nat := Nat.pow 2 n

def tens (n : Nat) : Nat := Nat.pow 10 n

end GridSeries.Decimal
