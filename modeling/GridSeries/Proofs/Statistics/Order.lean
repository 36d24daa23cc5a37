import Mathlib.Data.Prod.Lex
import Mathlib.Order.Compare

/-! The order of doubles. All of them but the one that is no number have a place in a linear order, the two zeros one
place together, and comparing two of them is comparing their places. -/
namespace GridSeries.Statistics
open Float.Model (UnpackedFloat)

private theorem compare_toLex {α β : Type} [LinearOrder α] [LinearOrder β] (a c : α) (b d : β) :
    compare (toLex (a, b)) (toLex (c, d)) = (compare a c).then (compare b d) := by
  rw [Prod.Lex.compare_def]
  rfl

private theorem compare_neg (a b : Int) : compare (-a) (-b) = (compare a b).swap := by
  have hanti : StrictAnti fun c : Int => -c := fun _ _ h => Int.neg_lt_neg h
  rw [← cmp_eq_compare, ← cmp_eq_compare, cmp_swap]
  exact hanti.cmp_map_eq a b

private theorem compare_natCast (m n : Nat) : compare (m : Int) n = compare m n := by
  have hmono : StrictMono fun k : Nat => (k : Int) := fun _ _ h => Int.ofNat_lt.2 h
  rw [← cmp_eq_compare, ← cmp_eq_compare]
  exact hmono.cmp_map_eq m n

/-- Where an unpacked number stands: infinities outermost and zeros in the middle; between them the exponent counts
before the mantissa, and below zero everything the other way round. -/
def unpackedPlace : UnpackedFloat → Int ×ₗ Int ×ₗ Int
  | .infinity sign => toLex (sign.apply 2, toLex (0, 0))
  | .finite sign mantissa exponent _ => toLex (sign.apply 1, toLex (sign.apply exponent, sign.apply mantissa))
  | .zero _ | .notANumber => toLex (0, toLex (0, 0))

private theorem compare_unpackedPlace {a b : UnpackedFloat} (ha : a ≠ .notANumber) (hb : b ≠ .notANumber) :
    a.compare b = some (compare (unpackedPlace a) (unpackedPlace b)) := by
  rcases a with (_ | _) | _ | _ | ⟨_ | _, m, e, hm⟩ <;> rcases b with (_ | _) | _ | _ | ⟨_ | _, n, f, hn⟩
  case finite.negative.finite.negative =>
    change _ = some (compare (toLex ((-1 : Int), toLex (-e, -(m : Int)))) (toLex (-1, toLex (-f, -(n : Int)))))
    rw [compare_toLex, compare_toLex, compare_neg e f, compare_neg m n, compare_natCast, ← Ordering.swap_then]
    rfl
  case finite.positive.finite.positive =>
    change _ = some (compare (toLex ((1 : Int), toLex (e, (m : Int)))) (toLex (1, toLex (f, (n : Int)))))
    rw [compare_toLex, compare_toLex, compare_natCast]
    rfl
  all_goals try contradiction
  -- numbers of different kinds are told apart by the first parts of their places
  all_goals rfl

/-- The place of a double among the numbers. -/
def place (x : Float) : Int ×ₗ Int ×ₗ Int := unpackedPlace x.toModel.unpack

variable {x y : Float}

private theorem compare_place (hx : x.isNaN = false) (hy : y.isNaN = false) :
    x.toModel.unpack.compare y.toModel.unpack = some (compare (place x) (place y)) := by
  have hne : ∀ {z : Float}, z.isNaN = false → z.toModel.unpack ≠ .notANumber := fun {z} hz hnone => by
    have hnan : z.toModel.unpack.isNaN = false := hz
    rw [hnone] at hnan
    cases hnan
  exact compare_unpackedPlace (hne hx) (hne hy)

/-- Numbers are in the order of their places. -/
theorem le_iff_place (hx : x.isNaN = false) (hy : y.isNaN = false) : x ≤ y ↔ place x ≤ place y := by
  have hle : x ≤ y ↔ (x.toModel.unpack.compare y.toModel.unpack).any (·.isLE) = true := by
    change decide (x.toModel ≤ y.toModel) = true ↔ _
    rw [decide_eq_true_iff]
    rfl
  rw [hle, compare_place hx hy, ← compare_le_iff_le]
  cases compare (place x) (place y) <;> simp

/-- The same for strict order. -/
theorem lt_iff_place (hx : x.isNaN = false) (hy : y.isNaN = false) : x < y ↔ place x < place y := by
  have hlt : x < y ↔ (x.toModel.unpack.compare y.toModel.unpack == some .lt) = true := by
    change decide (x.toModel < y.toModel) = true ↔ _
    rw [decide_eq_true_iff]
    rfl
  rw [hlt, compare_place hx hy, beq_iff_eq, Option.some_inj]
  exact compare_lt_iff_lt

/-- Numbers are equal when their places are, so both zeros have one place. -/
theorem beq_iff_place (hx : x.isNaN = false) (hy : y.isNaN = false) : (x == y) = true ↔ place x = place y := by
  have hbeq : (x == y) = (x.toModel.unpack.compare y.toModel.unpack == some .eq) := rfl
  rw [hbeq, compare_place hx hy, beq_iff_eq, Option.some_inj]
  exact compare_eq_iff_eq

end GridSeries.Statistics
