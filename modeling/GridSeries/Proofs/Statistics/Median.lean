import GridSeries.Proofs.Statistics.Order
import GridSeries.Proofs.Statistics.Summary
import Mathlib.Data.Multiset.Bind
import Mathlib.Data.Multiset.Count

/-! The median without sorting. It is one of the values, and counting tells which: at most half of the others are
smaller, while more than that many are not larger. Up to the sign of a zero one value only is told so, and as counting
knows no order, the order of versions and of points does not matter. -/
namespace GridSeries.Statistics

section Counting

variable {κ : Type} [LinearOrder κ] {k l : κ} {i : Nat}

/-- Of the elements of a sorted list, at most those before a position are smaller than the one there, and at least those
up to it are not larger. -/
private theorem counts_of_sorted {ks : List κ} (hs : ks.Pairwise (· ≤ ·)) (hk : ks[i]? = some k) :
    ks.countP (· < k) ≤ i ∧ i < ks.countP (· ≤ k) := by
  induction ks generalizing i with
  | nil => cases hk
  | cons a rest ih =>
    obtain ⟨ha, hrest⟩ := List.pairwise_cons.1 hs
    cases i with
    | zero =>
      rw [List.getElem?_cons_zero, Option.some_inj] at hk
      subst hk
      have hnone : rest.countP (· < a) = 0 := List.countP_eq_zero.2 fun b hb => by simpa using ha b hb
      constructor
      · rw [List.countP_cons_of_neg (by simp), hnone]
      · rw [List.countP_cons_of_pos (by simp)]
        exact Nat.succ_pos _
    | succ i =>
      rw [List.getElem?_cons_succ] at hk
      have hle : a ≤ k := ha k (List.mem_of_getElem? hk)
      obtain ⟨hbelow, hupTo⟩ := ih hrest hk
      constructor
      · rw [List.countP_cons]
        split <;> omega
      · rw [List.countP_cons_of_pos (by simpa using hle)]
        omega

/-- An element that more are up to than are below another is not smaller than that one. -/
private theorem le_of_counts {ks : List κ} (hk : i < ks.countP (· ≤ k)) (hl : ks.countP (· < l) ≤ i) : l ≤ k := by
  by_contra hlt
  have hmono : ks.countP (· ≤ k) ≤ ks.countP (· < l) := by
    refine List.countP_mono_left fun j _ hj => ?_
    rw [decide_eq_true_eq] at hj ⊢
    exact lt_of_le_of_lt hj (lt_of_not_ge hlt)
  omega

end Counting

/-- A value is the lower one of the two middle values, or the middle one: counting those that are smaller and those that
are not larger leaves no other. -/
structure LowerMiddle (values : Multiset Float) (m : Float) : Prop where
  mem : m ∈ values
  below_le : values.countP (· < m) ≤ (values.card - 1) / 2
  lt_upTo : (values.card - 1) / 2 < values.countP (· ≤ m)

variable {xs ys : List Float} {m m' : Float}

private theorem countP_lt_place (hnumbers : ∀ x ∈ xs, x.isNaN = false) (hm : m.isNaN = false) :
    xs.countP (· < m) = (xs.map place).countP (· < place m) := by
  rw [List.countP_map]
  exact List.countP_congr fun x hx => by simp [lt_iff_place (hnumbers x hx) hm]

private theorem countP_le_place (hnumbers : ∀ x ∈ xs, x.isNaN = false) (hm : m.isNaN = false) :
    xs.countP (· ≤ m) = (xs.map place).countP (· ≤ place m) := by
  rw [List.countP_map]
  exact List.countP_congr fun x hx => by simp [le_iff_place (hnumbers x hx) hm]

private theorem lowerMiddle_iff_place (hnumbers : ∀ x ∈ xs, x.isNaN = false) :
    LowerMiddle xs m ↔ m ∈ xs ∧ (xs.map place).countP (· < place m) ≤ (xs.length - 1) / 2 ∧
      (xs.length - 1) / 2 < (xs.map place).countP (· ≤ place m) := by
  have hcounts : LowerMiddle xs m ↔
      m ∈ xs ∧ xs.countP (· < m) ≤ (xs.length - 1) / 2 ∧ (xs.length - 1) / 2 < xs.countP (· ≤ m) :=
    ⟨fun h => ⟨h.mem, h.below_le, h.lt_upTo⟩, fun ⟨hm, hbelow, hupTo⟩ => ⟨hm, hbelow, hupTo⟩⟩
  rw [hcounts]
  refine and_congr_right fun hm => ?_
  rw [countP_lt_place hnumbers (hnumbers m hm), countP_le_place hnumbers (hnumbers m hm)]

/-- The lower middle value is one, though a zero may stand for it with either sign. -/
theorem LowerMiddle.beq (hnumbers : ∀ x ∈ xs, x.isNaN = false) (h : LowerMiddle xs m) (h' : LowerMiddle xs m') :
    (m == m') = true := by
  obtain ⟨hm, hbelow, hupTo⟩ := (lowerMiddle_iff_place hnumbers).1 h
  obtain ⟨hm', hbelow', hupTo'⟩ := (lowerMiddle_iff_place hnumbers).1 h'
  rw [beq_iff_place (hnumbers m hm) (hnumbers m' hm')]
  exact le_antisymm (le_of_counts hupTo' hbelow) (le_of_counts hupTo hbelow')

/-- However numbers are sorted, the lower one of the two middle elements is their lower middle value. -/
theorem lowerMiddle_of_sorted (hnumbers : ∀ x ∈ ys, x.isNaN = false) (hs : ys.Pairwise (· ≤ ·))
    (hm : ys[(ys.length - 1) / 2]? = some m) : LowerMiddle ys m := by
  -- counting is done on places, where the order is total
  have hplaces : (ys.map place).Pairwise (· ≤ ·) :=
    List.pairwise_map.2 (hs.imp_of_mem fun {x y} hx hy hle =>
      (le_iff_place (hnumbers x hx) (hnumbers y hy)).1 hle)
  have hplace : (ys.map place)[(ys.length - 1) / 2]? = some (place m) := by
    rw [List.getElem?_map, hm]
    rfl
  exact (lowerMiddle_iff_place hnumbers).2 ⟨List.mem_of_getElem? hm, counts_of_sorted hplaces hplace⟩

private theorem pairwise_mergeSort_numbers (hnumbers : ∀ x ∈ xs, x.isNaN = false) :
    (xs.mergeSort fun x y => decide (x ≤ y)).Pairwise (· ≤ ·) := by
  have hplaces : (xs.mergeSort fun x y => decide (x ≤ y)).map place =
      (xs.map place).mergeSort fun k l => decide (k ≤ l) :=
    List.map_mergeSort fun x hx y hy => by simp [le_iff_place (hnumbers x hx) (hnumbers y hy)]
  have hsorted : ((xs.map place).mergeSort fun k l => decide (k ≤ l)).Pairwise fun k l => decide (k ≤ l) = true := by
    refine List.pairwise_mergeSort (fun a b c hab hbc => ?_) (fun a b => ?_) (xs.map place)
    · rw [decide_eq_true_eq] at *
      exact le_trans hab hbc
    · simpa using le_total a b
  rw [← hplaces, List.pairwise_map] at hsorted
  refine hsorted.imp_of_mem fun {x y} hx hy hle => ?_
  rw [List.mem_mergeSort] at hx hy
  exact (le_iff_place (hnumbers x hx) (hnumbers y hy)).2 (of_decide_eq_true hle)

/-- The median of numbers is their lower middle value. -/
theorem lowerMiddle_median (hne : xs ≠ []) (hnumbers : ∀ x ∈ xs, x.isNaN = false) : LowerMiddle xs (median xs) := by
  have hperm := List.mergeSort_perm xs fun x y => decide (x ≤ y)
  have hlength := hperm.length_eq
  have hinside : (xs.length - 1) / 2 < (xs.mergeSort fun x y => decide (x ≤ y)).length := by
    have := List.length_pos_iff.2 hne
    omega
  have hmedian : (xs.mergeSort fun x y => decide (x ≤ y))[(xs.length - 1) / 2]? = some (median xs) := by
    rw [median, lowerMiddle?, List.getElem?_eq_getElem hinside]
    rfl
  rw [← hlength] at hmedian
  rw [← Multiset.coe_eq_coe.2 hperm]
  exact lowerMiddle_of_sorted (fun x hx => hnumbers x (hperm.mem_iff.1 hx))
    (pairwise_mergeSort_numbers hnumbers) hmedian

/-- Numbers have one median, in whatever order they stand. -/
theorem median_beq_of_perm (hne : xs ≠ []) (hnumbers : ∀ x ∈ xs, x.isNaN = false) (hperm : ys.Perm xs) :
    (median ys == median xs) = true := by
  have hys : LowerMiddle ys (median ys) :=
    lowerMiddle_median (fun hnil => hne (List.perm_nil.1 (hnil ▸ hperm.symm)))
      fun y hy => hnumbers y (hperm.mem_iff.1 hy)
  rw [Multiset.coe_eq_coe.2 hperm] at hys
  exact hys.beq hnumbers (lowerMiddle_median hne hnumbers)

private theorem exists_median_of_sorted (hne : xs ≠ []) (hnumbers : ∀ x ∈ xs, x.isNaN = false) (hperm : ys.Perm xs)
    (hs : ys.Pairwise (· ≤ ·)) : ∃ m, ys[(xs.length - 1) / 2]? = some m ∧ (m == median xs) = true := by
  have hinside : (xs.length - 1) / 2 < ys.length := by
    have := List.length_pos_iff.2 hne
    rw [hperm.length_eq]
    omega
  refine ⟨_, List.getElem?_eq_getElem hinside, ?_⟩
  have hmiddle : LowerMiddle ys ys[(xs.length - 1) / 2] :=
    lowerMiddle_of_sorted (fun y hy => hnumbers y (hperm.mem_iff.1 hy)) hs
      (by rw [hperm.length_eq, List.getElem?_eq_getElem hinside])
  rw [Multiset.coe_eq_coe.2 hperm] at hmiddle
  exact hmiddle.beq hnumbers (lowerMiddle_median hne hnumbers)

/-- What the values of the versions at all points give at the selected points, in no order. -/
def pooled (s : Statistics) (series : Nat → List Float) : Multiset Float :=
  (s.selection.versions.toList : Multiset Nat).bind fun v => filterByIntervals (series v) s.selection.intervals

/-- The values that a statistic is taken of are those of all versions at the selected points. -/
private theorem perVersion_eq_ok {s : Statistics} {target : Target} {series : Nat → List Float}
    (h : ∀ v ∈ s.selection.versions, s.allValues target v = .ok (series v)) :
    ∃ lists, s.perVersion target = .ok lists ∧ (lists.flatten : Multiset Float) = s.pooled series := by
  have hvalues : ∀ v ∈ s.selection.versions.toList,
      s.values target v = .ok (filterByIntervals (series v) s.selection.intervals) := fun v hv => by
    rw [values, h v hv]
    rfl
  refine ⟨s.selection.versions.toList.map fun v => filterByIntervals (series v) s.selection.intervals, ?_, ?_⟩
  · rw [perVersion]
    simpa using Outcome.mapM_map_eq_ok (g := id) hvalues
  · rw [pooled, Multiset.coe_bind, List.flatMap_def]

/-- The median of values that are numbers is the lower middle one of them. For a list that is not empty it is one of its
elements, at most half of the others are smaller, and more than that many are not larger; it is the only such element up
to the sign of a zero, the same in whatever order the elements stand, and what any way of sorting them puts in the lower
middle. Of a target it is the lower middle one of the values that all versions have at the selected points, taken
together, in whatever order they are listed. -/
theorem median_is_lowerMiddle :
    (∀ xs : List Float, xs ≠ [] → (∀ x ∈ xs, x.isNaN = false) →
      LowerMiddle xs (median xs) ∧
      (∀ m, LowerMiddle xs m → m == median xs) ∧
      (∀ ys : List Float, ys.Perm xs → median ys == median xs) ∧
      ∀ ys : List Float, ys.Perm xs → ys.Pairwise (· ≤ ·) →
        ∃ m, ys[(xs.length - 1) / 2]? = some m ∧ m == median xs) ∧
    (∀ (s : Statistics) (target : Target) (series : Nat → List Float),
      (∀ v ∈ s.selection.versions, s.allValues target v = .ok (series v)) →
      s.pooled series ≠ 0 → (∀ x ∈ s.pooled series, x.isNaN = false) →
      ∃ m, s.medianOf target = .ok m ∧ LowerMiddle (s.pooled series) m ∧
        (∀ n, LowerMiddle (s.pooled series) n → n == m) ∧
        ∀ ys : List Float, (ys : Multiset Float) = s.pooled series → median ys == m) := by
  refine ⟨fun xs hne hnumbers => ?_, fun s target series hseries hne hnumbers => ?_⟩
  · exact ⟨lowerMiddle_median hne hnumbers, fun m hm => hm.beq hnumbers (lowerMiddle_median hne hnumbers),
      fun ys => median_beq_of_perm hne hnumbers, fun ys => exists_median_of_sorted hne hnumbers⟩
  · obtain ⟨lists, hlists, hpooled⟩ := perVersion_eq_ok hseries
    rw [← hpooled] at hne hnumbers ⊢
    have hvalues : lists.flatten ≠ [] := fun hnil => hne (congrArg _ hnil)
    have hmedian : s.medianOf target = .ok (median lists.flatten) := by
      rw [medianOf_eq, hlists]
      rfl
    have hmiddle := lowerMiddle_median hvalues hnumbers
    exact ⟨_, hmedian, hmiddle, fun n hn => hn.beq hnumbers hmiddle,
      fun ys hys => median_beq_of_perm hvalues hnumbers (Multiset.coe_eq_coe.1 hys)⟩

/-- A series of three points and two versions, of which the selection leaves out the last point. -/
def firstTwoPoints : Statistics where
  store := (do
    Store.insert "x" ⟨⟨0⟩, 3600000, 3⟩ 1 [5, 1, 9]
    Store.insert "x" ⟨⟨0⟩, 3600000, 3⟩ 2 [3, 2, 9]).after .empty
  mapping := .empty
  selection := ⟨.ofList [2, 1], [⟨0, 1⟩]⟩

/-- Of four values together the median is the second smallest, here the smaller one of the second version; of the two
zeros either may be the median. -/
theorem firstTwoPoints_median :
    (∃ m, firstTwoPoints.medianOf (.name "x") = .ok m ∧ LowerMiddle {5, 1, 3, 2} m ∧ 2 == m) ∧
      median [-0.0, 0.0] == median [0.0, -0.0] := by
  have hseries : ∀ v ∈ firstTwoPoints.selection.versions,
      firstTwoPoints.allValues (.name "x") v = .ok (if v = 1 then [5, 1, 9] else [3, 2, 9]) := by
    intro v hv
    have hlisted : v ∈ [2, 1] := SortedSet.mem_ofList.1 hv
    simp only [List.mem_cons, List.not_mem_nil, or_false] at hlisted
    rcases hlisted with rfl | rfl
    · rfl
    · rfl
  have hpooled : firstTwoPoints.pooled (fun v => if v = 1 then [5, 1, 9] else [3, 2, 9]) = {5, 1, 3, 2} := by
    decide +kernel
  have hsecond : LowerMiddle {5, 1, 3, 2} 2 := ⟨by decide +kernel, by decide +kernel, by decide +kernel⟩
  have hpart := median_is_lowerMiddle.2 firstTwoPoints (.name "x") _ hseries
  rw [hpooled] at hpart
  obtain ⟨m, hm, hmiddle, hunique, _⟩ := hpart (by decide +kernel) (by decide +kernel)
  refine ⟨⟨m, hm, hmiddle, hunique 2 hsecond⟩, ?_⟩
  obtain ⟨_, _, hperm, _⟩ := median_is_lowerMiddle.1 [0.0, -0.0] (by simp) (by decide +kernel)
  exact hperm [-0.0, 0.0] (List.Perm.swap ..)

end GridSeries.Statistics
