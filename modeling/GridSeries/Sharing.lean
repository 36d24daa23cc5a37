import GridSeries.Evaluation
import GridSeries.Mapping.Basic
import GridSeries.Statistics.Reduce

/-! Sharing a series among the equipment it feeds, in proportion to weights. -/
namespace GridSeries

/-- The arithmetic that sharing needs: doubles have it, and so do exact numbers. -/
class Shareable (α : Type) extends Add α, Mul α, Div α where
  /-- What sums start from. -/
  start : α
  ofNat : Nat → α
  abs : α → α
  isZero : α → Bool

/-- Sums of doubles start at negative zero, which changes no summand. -/
instance : Shareable Float where
  start := -0.0
  ofNat := Float.ofNat
  abs := Float.abs
  isZero x := x == 0.0

/-- The weight of one share: the same at every point, or one for each point. -/
inductive Share (α : Type) where
  | constant (w : α)
  | points (ws : List α)
deriving DecidableEq, Repr

namespace Share

variable {α : Type} [Shareable α]

/-- The weight at the first point: the size of what was given there, and nothing past the end. -/
def weight : Share α → α
  | constant w => w
  | points [] => Shareable.ofNat 0
  | points (w :: _) => Shareable.abs w

/-- The share from the second point on. -/
def later : Share α → Share α
  | constant w => constant w
  | points ws => points ws.tail

end Share

namespace Sharing

variable {α : Type} [Shareable α]

/-- The part of a whole that a weight stands for; weights that add up to nothing count as equal. -/
def ratio (count : Nat) (total w : α) : α :=
  if Shareable.isZero total then Shareable.ofNat 1 / Shareable.ofNat count else w / total

def splitValue (weights : List α) (value : α) : List α :=
  let total := Statistics.sumFrom Shareable.start weights
  weights.map fun w => value * ratio weights.length total w

/-- Splits the values of all points: one list for each share, in the order of the shares. -/
def split (shares : List (Share α)) : List α → List (List α)
  | [] => shares.map fun _ => []
  | value :: rest =>
    List.zipWith List.cons (splitValue (shares.map Share.weight) value) (split (shares.map Share.later) rest)

/-- The first value that cannot be split, and its place. -/
def firstUnusable? (point : Nat) : List Float → Option (Nat × Float)
  | [] => none
  | value :: rest => if value.isFinite then firstUnusable? (point + 1) rest else some (point, value)

/-- Splits the values of the series `name`, which must all be finite. -/
def apportion (name : String) (values : List Float) (shares : List (Share Float)) :
    Except Fault (List (List Float)) :=
  match firstUnusable? 0 values with
  | some (point, value) => .error (.notFinite name point value)
  | none => .ok (split shares values)

/-- Keys in the order in which shares are listed: by id, then by the name of the variable. -/
def listingOrder (keys : SortedSet Key) : List Key :=
  keys.toList.mergeSort fun k l =>
    ((compare k.id l.id).then (compare k.driven.name l.driven.name)).isLE

/-- The share of a key at a version. -/
def shareOf (m : Mapping) (e : Evaluator) (version : Nat) (k : Key) : Except Fault (Share Float) :=
  match m.weight k with
  | .constant w => .ok (.constant w)
  | .series name => (e.evaluateName name version).map .points

/-- What each key that a series feeds in a category receives at a version. -/
def distribute (m : Mapping) (e : Evaluator) (c : Category) (series : String) (version : Nat) :
    Except Fault (List (Key × List Float)) :=
  match (m.category c).keysFor? series with
  | none => .ok []
  | some keys => do
    let listed := listingOrder keys
    let shares ← listed.mapM (shareOf m e version)
    let values ← e.evaluateName series version
    let split ← apportion series values shares
    pure (listed.zip split)

end Sharing
end GridSeries
