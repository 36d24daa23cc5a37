import GridSeries.Word

/-! What machines make of results. A word holds a result that fits it; what becomes of one that does not differs from
machine to machine, and the two usual ways are given beside what all have in common. -/
namespace GridSeries.Word

/-- How the results of a computation get into words. Those that fit are kept as they are. -/
structure Arithmetic where
  signed : Int → Option Int
  unsigned : Int → Option Nat
  signed_eq : ∀ {n : Int}, minSigned ≤ n → n ≤ maxSigned → signed n = some n
  unsigned_eq : ∀ {n : Nat}, n ≤ maxUnsigned → unsigned n = some n

/-- A result that does not fit ends the computation without an answer. -/
def checked : Arithmetic where
  signed := signed?
  unsigned n := if 0 ≤ n ∧ n ≤ maxUnsigned then some n.toNat else none
  signed_eq := signed?_of_fits
  unsigned_eq {n} h := by
    rw [if_pos (by omega), Int.toNat_natCast]

/-- The number of different words. -/
def wordCount : Nat := maxUnsigned + 1

/-- A result that does not fit loses the digits for which the word has no place. -/
def wrapping : Arithmetic where
  signed n := some (n.bmod wordCount)
  unsigned n := some (n % wordCount).toNat
  signed_eq {n} hlower hupper := by
    have hmax := maxSigned_eq
    have hmin := minSigned_eq
    have hcount : wordCount = 18446744073709551616 := rfl
    rw [Int.bmod_eq_of_le_mul_two (by omega) (by omega)]
  unsigned_eq {n} h := by
    rw [Int.emod_eq_of_lt (by omega) (by rw [wordCount]; omega), Int.toNat_natCast]

variable {a : Arithmetic} {β : Type}

/-- A computation goes on with a result that fits. -/
theorem Arithmetic.signed_bind {n : Int} (hlower : minSigned ≤ n) (hupper : n ≤ maxSigned) (f : Int → Option β) :
    (a.signed n >>= f) = f n := by
  rw [a.signed_eq hlower hupper]
  rfl

/-- The word of a natural number that fits is that number. -/
theorem Arithmetic.unsigned_of {n : Int} {k : Nat} (hn : n = k) (h : k ≤ maxUnsigned) : a.unsigned n = some k := by
  rw [hn, a.unsigned_eq h]

/-- A computation goes on with a result without a sign that fits. -/
theorem Arithmetic.unsigned_bind {n : Int} {k : Nat} (hn : n = k) (h : k ≤ maxUnsigned) (f : Nat → Option β) :
    (a.unsigned n >>= f) = f k := by
  rw [a.unsigned_of hn h]
  rfl

end GridSeries.Word
