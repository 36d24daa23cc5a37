import GridSeries.Key.Weight
import GridSeries.Sharing
import Mathlib.Algebra.BigOperators.Ring.List
import Mathlib.Algebra.Order.BigOperators.Group.List
import Mathlib.Algebra.Order.Field.Rat
import Mathlib.Algebra.Order.Ring.Abs
import Mathlib.Data.Rat.Cast.Order
import Mathlib.Data.Sign.Basic

/-! Sharing in exact numbers. Every finite double stands for a fraction. Done in fractions, sharing gives at every point
parts of the value that add up to it, whatever the weights are, as long as they are not negative. -/
namespace GridSeries

namespace Decimal
open Float.Model (UnpackedFloat)

/-- The fraction that a finite double stands for. -/
def exact (x : Float) : ℚ :=
  match x.toModel.unpack with
  | .finite sign mantissa exponent _ => sign.apply mantissa * 2 ^ exponent
  | _ => 0

/-- A double that does not lie below zero stands for a fraction that does not either. -/
theorem exact_nonneg {x : Float} (h : ¬ x < 0.0) : 0 ≤ exact x := by
  have hzero : (0.0 : Float).toModel.unpack = .zero .positive := rfl
  have hlt : ¬ x.toModel.unpack.lt (0.0 : Float).toModel.unpack = true :=
    fun hlt => h (decide_eq_true (p := x.toModel < (0.0 : Float).toModel) hlt)
  rw [exact]
  cases hx : x.toModel.unpack with
  | finite sign mantissa exponent hm =>
    cases sign with
    | positive =>
      have hmantissa : (0 : ℚ) ≤ (mantissa : Int) := Int.cast_nonneg (Int.natCast_nonneg mantissa)
      exact mul_nonneg hmantissa (zpow_nonneg zero_le_two exponent)
    | negative =>
      rw [hx, hzero] at hlt
      exact absurd rfl hlt
  | infinity | notANumber | zero => exact le_refl 0

end Decimal

/-- Exact numbers can be shared. -/
instance : Shareable ℚ where
  start := 0
  ofNat n := n
  abs x := |x|
  isZero x := decide (x = 0)

namespace Share

/-- The same weights in exact numbers. -/
def exact : Share Float → Share ℚ
  | constant w => constant (Decimal.exact w)
  | points ws => points (ws.map Decimal.exact)

/-- All weights are finite. -/
def IsFinite : Share Float → Prop
  | constant w => w.isFinite = true
  | points ws => ∀ w ∈ ws, w.isFinite = true

/-- Constant weights are not negative; of weights for each point only the size counts. -/
def Nonneg : Share ℚ → Prop
  | constant w => 0 ≤ w
  | points _ => True

/-- The weight of a share without negative values is not negative. -/
theorem Nonneg.weight {s : Share ℚ} (h : s.Nonneg) : 0 ≤ s.weight := by
  cases s with
  | constant w => exact h
  | points ws =>
    cases ws with
    | nil => exact Nat.cast_nonneg 0
    | cons w rest => exact abs_nonneg w

/-- A share without negative values has none at later points either. -/
theorem Nonneg.later {s : Share ℚ} (h : s.Nonneg) : s.later.Nonneg := by
  cases s with
  | constant w => exact h
  | points ws => trivial

end Share

namespace Sharing

/-- The shares of a value add up to it, and each is a part of it: no larger, and not of the other sign. -/
structure DividesValue (value : ℚ) (parts : List ℚ) : Prop where
  sum_eq : parts.sum = value
  sign_eq : ∀ part ∈ parts, part = 0 ∨ SignType.sign part = SignType.sign value
  abs_le : ∀ part ∈ parts, |part| ≤ |value|

section Point

variable {weights : List ℚ}

private theorem sumFrom_start (weights : List ℚ) : Statistics.sumFrom Shareable.start weights = weights.sum :=
  List.sum_eq_foldl.symm

private theorem ratio_eq (count : Nat) (total w : ℚ) :
    ratio count total w = if total = 0 then 1 / (count : ℚ) else w / total := by
  change (if decide (total = 0) = true then ((1 : Nat) : ℚ) / (count : ℚ) else w / total) = _
  simp only [decide_eq_true_eq, Nat.cast_one]

private theorem ratio_nonneg (hnonneg : ∀ w ∈ weights, 0 ≤ w) {w : ℚ} (hw : w ∈ weights) :
    0 ≤ ratio weights.length weights.sum w := by
  rw [ratio_eq]
  split
  · exact div_nonneg zero_le_one (Nat.cast_nonneg _)
  · exact div_nonneg (hnonneg w hw) (List.sum_nonneg hnonneg)

/-- The parts make up the whole, also where no weight says how. -/
theorem sum_ratio (hne : weights ≠ []) : (weights.map (ratio weights.length weights.sum)).sum = 1 := by
  have hlength : (weights.length : ℚ) ≠ 0 := Nat.cast_ne_zero.2 (List.length_pos_iff.2 hne).ne'
  by_cases htotal : weights.sum = 0
  · have hequal : weights.map (ratio weights.length weights.sum) = weights.map fun _ => 1 / (weights.length : ℚ) :=
      List.map_congr_left fun w _ => by rw [ratio_eq, if_pos htotal]
    rw [hequal, List.map_const', List.sum_replicate, nsmul_eq_mul, mul_one_div_cancel hlength]
  · have hparts : weights.map (ratio weights.length weights.sum) = weights.map fun w => weights.sum⁻¹ * w :=
      List.map_congr_left fun w _ => by rw [ratio_eq, if_neg htotal, div_eq_inv_mul]
    rw [hparts, List.sum_map_mul_left, List.map_id', inv_mul_cancel₀ htotal]

private theorem ratio_le_one (hnonneg : ∀ w ∈ weights, 0 ≤ w) {w : ℚ} (hw : w ∈ weights) :
    ratio weights.length weights.sum w ≤ 1 := by
  rw [← sum_ratio (List.ne_nil_of_mem hw)]
  refine List.single_le_sum (fun part hpart => ?_) _ (List.mem_map_of_mem hw)
  obtain ⟨v, hv, rfl⟩ := List.mem_map.1 hpart
  exact ratio_nonneg hnonneg hv

private theorem dividesValue_splitValue (hne : weights ≠ []) (hnonneg : ∀ w ∈ weights, 0 ≤ w) (value : ℚ) :
    DividesValue value (splitValue weights value) := by
  have hsplit : splitValue weights value = weights.map fun w => value * ratio weights.length weights.sum w := by
    rw [splitValue, sumFrom_start]
  rw [hsplit]
  refine ⟨?_, fun part hpart => ?_, fun part hpart => ?_⟩
  · rw [List.sum_map_mul_left, sum_ratio hne, mul_one]
  · obtain ⟨w, hw, rfl⟩ := List.mem_map.1 hpart
    rcases (ratio_nonneg hnonneg hw).eq_or_lt with hzero | hpos
    · exact .inl (by rw [← hzero, mul_zero])
    · exact .inr (by rw [sign_mul, sign_pos hpos, mul_one])
  · obtain ⟨w, hw, rfl⟩ := List.mem_map.1 hpart
    rw [abs_mul, abs_of_nonneg (ratio_nonneg hnonneg hw)]
    exact mul_le_of_le_one_right (abs_nonneg value) (ratio_le_one hnonneg hw)

end Point

section Points

variable {α : Type} [Shareable α]

/-- Every share has a part. -/
theorem length_split (shares : List (Share α)) (values : List α) : (split shares values).length = shares.length := by
  induction values generalizing shares with
  | nil => rw [split, List.length_map]
  | cons value rest ih =>
    rw [split, List.length_zipWith, ih, splitValue, List.length_map, List.length_map, List.length_map, Nat.min_self]

private theorem split_cons (shares : List (Share α)) (value : α) (rest : List α) :
    (split shares (value :: rest)).map (·.head?) = (splitValue (shares.map Share.weight) value).map some ∧
      (split shares (value :: rest)).map (·.tail) = split (shares.map Share.later) rest := by
  have hlength : (splitValue (shares.map Share.weight) value).length =
      (split (shares.map Share.later) rest).length := by
    rw [length_split, splitValue, List.length_map, List.length_map, List.length_map]
  rw [split, List.map_zipWith, List.map_zipWith]
  constructor
  · refine List.ext_getElem (by simp [hlength]) fun n _ _ => by simp
  · refine List.ext_getElem (by simp [hlength]) fun n _ _ => by simp

/-- Every share has a value for each point. -/
theorem length_of_mem_split {shares : List (Share α)} {values part : List α} (h : part ∈ split shares values) :
    part.length = values.length := by
  induction values generalizing shares part with
  | nil =>
    obtain ⟨_, _, rfl⟩ := List.mem_map.1 h
    rfl
  | cons value rest ih =>
    have htail : part.tail ∈ split (shares.map Share.later) rest := by
      rw [← (split_cons shares value rest).2]
      exact List.mem_map_of_mem h
    have hhead : part.head? ∈ (splitValue (shares.map Share.weight) value).map some := by
      rw [← (split_cons shares value rest).1]
      exact List.mem_map_of_mem h
    obtain ⟨first, _, hfirst⟩ := List.mem_map.1 hhead
    obtain ⟨later, rfl⟩ := List.head?_eq_some_iff.1 hfirst.symm
    rw [List.length_cons, List.length_cons, ← ih htail, List.tail_cons]

end Points

/-- The parts that shares have of a series: at every point they divide the value there. -/
structure DividesSeries (values : List ℚ) (parts : List (List ℚ)) : Prop where
  length_eq : ∀ part ∈ parts, part.length = values.length
  divides : ∀ (point : Nat) (value : ℚ), values[point]? = some value →
    ∃ shares : List ℚ, parts.map (·[point]?) = shares.map some ∧ DividesValue value shares

/-- Splitting divides every value by the weights at its point. -/
theorem dividesSeries_split {shares : List (Share ℚ)} (hne : shares ≠ []) (hnonneg : ∀ s ∈ shares, s.Nonneg)
    (values : List ℚ) : DividesSeries values (split shares values) where
  length_eq _ := length_of_mem_split
  divides point value hvalue := by
    induction values generalizing shares point with
    | nil => cases hvalue
    | cons first rest ih =>
      obtain ⟨hfirst, hlater⟩ := split_cons shares first rest
      cases point with
      | zero =>
        cases hvalue
        refine ⟨splitValue (shares.map Share.weight) value, ?_, dividesValue_splitValue (by simpa using hne) ?_ value⟩
        · simpa only [List.head?_eq_getElem?] using hfirst
        · intro w hw
          obtain ⟨s, hs, rfl⟩ := List.mem_map.1 hw
          exact (hnonneg s hs).weight
      | succ point =>
        -- later points are split by the same shares, taken from their second point on
        have hnonneg' : ∀ s ∈ shares.map Share.later, s.Nonneg := by
          intro s hs
          obtain ⟨t, ht, rfl⟩ := List.mem_map.1 hs
          exact (hnonneg t ht).later
        obtain ⟨parts, hparts, hdivides⟩ := ih (by simpa using hne) hnonneg' point hvalue
        refine ⟨parts, ?_, hdivides⟩
        rw [← hparts, ← hlater, List.map_map]
        refine List.map_congr_left fun part _ => ?_
        simp [List.getElem?_tail]

end Sharing
end GridSeries
