import GridSeries.Formula.Operator

/-! Reductions of lists of values to one value. A list without values has no least value, no mean and no median; what
stands for them is no number. -/
namespace GridSeries.Statistics

/-- What stands for the value of nothing. -/
def undefined : Float := 0.0 / 0.0

/-- Combines values from left to right. -/
def combine (f : Float → Float → Float) : List Float → Float
  | [] => undefined
  | x :: xs => xs.foldl f x

/-- The sum from left to right, on top of a first value. -/
def sumFrom {α : Type} [Add α] (start : α) (xs : List α) : α := xs.foldl (fun x y => x + y) start

/-- The sum from left to right; it starts at negative zero, which changes no summand. -/
def sum (xs : List Float) : Float := sumFrom (-0.0) xs

def mean (xs : List Float) : Float :=
  if xs.isEmpty then undefined else sum xs / Float.ofNat xs.length

/-- The lower of the two middle elements of a list in order, or the middle one. -/
def lowerMiddle? {α : Type} (le : α → α → Bool) (xs : List α) : Option α :=
  (xs.mergeSort le)[(xs.length - 1) / 2]?

def median (xs : List Float) : Float :=
  (lowerMiddle? (fun x y => decide (x ≤ y)) xs).getD undefined

end GridSeries.Statistics
