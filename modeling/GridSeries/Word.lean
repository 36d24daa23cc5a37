/-! Machine words of 64 bits: the numbers that they hold, with a sign and without. -/
namespace GridSeries.Word

def maxSigned : Int := 9223372036854775807

def minSigned : Int := -9223372036854775808

def maxUnsigned : Nat := 18446744073709551615

theorem maxSigned_eq : maxSigned = 9223372036854775807 := rfl

theorem minSigned_eq : minSigned = -9223372036854775808 := rfl

theorem maxUnsigned_eq : maxUnsigned = 18446744073709551615 := rfl

def isSigned (n : Int) : Bool := decide (minSigned ≤ n) && decide (n ≤ maxSigned)

theorem isSigned_iff {n : Int} : isSigned n = true ↔ minSigned ≤ n ∧ n ≤ maxSigned := by
  simp [isSigned]

def isUnsigned (n : Nat) : Bool := decide (n ≤ maxUnsigned)

/-- The word with a sign that holds a result. A result that does not fit ends the computation without an answer. -/
def signed? (n : Int) : Option Int := if isSigned n then some n else none

/-- A number that fits is its own word. -/
theorem signed?_of_fits {n : Int} (hlower : minSigned ≤ n) (hupper : n ≤ maxSigned) : signed? n = some n :=
  if_pos (isSigned_iff.2 ⟨hlower, hupper⟩)

/-- A number that is too large has no word. -/
theorem signed?_of_lt {n : Int} (h : maxSigned < n) : signed? n = none :=
  if_neg fun hfits => absurd (isSigned_iff.1 hfits).2 (by omega)

end GridSeries.Word
