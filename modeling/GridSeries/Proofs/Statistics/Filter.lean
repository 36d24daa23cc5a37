import GridSeries.Proofs.Interval.Points
import GridSeries.Statistics.Filter
import Mathlib.Data.List.Sort

/-! Filtering by intervals, position by position: joining spans keeps their positions and leaves each in one span only,
so a value is kept just when an interval contains its position. -/
namespace GridSeries.Statistics
open GridSeries.Interval (Covers points)

namespace Span

def positions (s : Span) : List Nat := List.range' s.start (s.stop - s.start)

/-- Some span of a list holds the position. -/
def Held (spans : List Span) (i : Nat) : Prop := ∃ s ∈ spans, s.start ≤ i ∧ i < s.stop

private theorem mem_flatMap_positions {spans : List Span} {i : Nat} : i ∈ spans.flatMap positions ↔ Held spans i := by
  simp only [List.mem_flatMap, positions, List.mem_range'_1, Held]
  constructor
  · rintro ⟨s, hs, hi⟩
    exact ⟨s, hs, by omega⟩
  · rintro ⟨s, hs, hi⟩
    exact ⟨s, hs, by omega⟩

private theorem held_cons {s : Span} {spans : List Span} {i : Nat} :
    Held (s :: spans) i ↔ (s.start ≤ i ∧ i < s.stop) ∨ Held spans i := by
  simp [Held]

private theorem held_merge {current : Span} {rest : List Span} {i : Nat}
    (h : (current :: rest).Pairwise fun s t => s.start ≤ t.start) :
    Held (merge current rest) i ↔ Held (current :: rest) i := by
  induction rest generalizing current with
  | nil => rfl
  | cons s rest ih =>
    obtain ⟨hcurrent, hs⟩ := List.pairwise_cons.1 h
    have hle := hcurrent s (by simp)
    rw [merge]
    split
    · rename_i hjoin
      have hnext : (⟨current.start, max current.stop s.stop⟩ :: rest : List Span).Pairwise
          fun s t => s.start ≤ t.start :=
        List.pairwise_cons.2 ⟨fun t ht => hcurrent t (List.mem_cons_of_mem s ht), (List.pairwise_cons.1 hs).2⟩
      rw [ih hnext, held_cons, held_cons, held_cons, ← or_assoc]
      apply or_congr_left
      simp only
      omega
    · rw [held_cons, held_cons (s := current), ih hs]

private theorem merge_apart {current : Span} {rest : List Span}
    (h : (current :: rest).Pairwise fun s t => s.start ≤ t.start) :
    (∀ s ∈ merge current rest, current.start ≤ s.start) ∧
      (merge current rest).Pairwise fun s t => s.stop < t.start := by
  induction rest generalizing current with
  | nil => simp [merge]
  | cons s rest ih =>
    obtain ⟨hcurrent, hs⟩ := List.pairwise_cons.1 h
    have hle := hcurrent s (by simp)
    rw [merge]
    split
    · have hnext : (⟨current.start, max current.stop s.stop⟩ :: rest : List Span).Pairwise
          fun s t => s.start ≤ t.start :=
        List.pairwise_cons.2 ⟨fun t ht => hcurrent t (List.mem_cons_of_mem s ht), (List.pairwise_cons.1 hs).2⟩
      exact ih hnext
    · obtain ⟨hstart, hapart⟩ := ih hs
      refine ⟨fun t ht => ?_, List.pairwise_cons.2 ⟨fun t ht => ?_, hapart⟩⟩
      · rcases List.mem_cons.1 ht with rfl | ht
        · exact Nat.le_refl _
        · exact Nat.le_trans hle (hstart t ht)
      · have := hstart t ht
        omega

private theorem pairwise_mergeSort_le (spans : List Span) :
    (spans.mergeSort le).Pairwise fun s t => s.start ≤ t.start := by
  have htrans : ∀ a b c : Span, le a b = true → le b c = true → le a c = true := by
    intro a b c hab hbc
    simp only [le, Bool.or_eq_true, Bool.and_eq_true, decide_eq_true_eq, beq_iff_eq] at *
    omega
  have htotal : ∀ a b : Span, (le a b || le b a) = true := by
    intro a b
    simp only [le, Bool.or_eq_true, Bool.and_eq_true, decide_eq_true_eq, beq_iff_eq]
    omega
  refine (List.pairwise_mergeSort htrans htotal spans).imp fun {s t} hst => ?_
  simp only [le, Bool.or_eq_true, Bool.and_eq_true, decide_eq_true_eq, beq_iff_eq] at hst
  omega

/-- However spans lie, joining all of them lists each of their positions once and in order. -/
theorem mergeAll_spec (spans : List Span) :
    (∀ i, Held (mergeAll spans) i ↔ Held spans i) ∧ ((mergeAll spans).flatMap positions).Pairwise (· < ·) := by
  have hsorted := pairwise_mergeSort_le spans
  have hmem : ∀ i, Held (spans.mergeSort le) i ↔ Held spans i := fun i => by
    simp only [Held, List.mem_mergeSort]
  rw [mergeAll]
  cases hs : spans.mergeSort le with
  | nil =>
    rw [hs] at hmem
    exact ⟨hmem, .nil⟩
  | cons s rest =>
    rw [hs] at hsorted hmem
    refine ⟨fun i => (held_merge hsorted).trans (hmem i), ?_⟩
    rw [List.pairwise_flatMap]
    refine ⟨fun t _ => List.pairwise_lt_range', (merge_apart hsorted).2.imp fun {t u} htu p hp q hq => ?_⟩
    simp only [positions, List.mem_range'_1] at hp hq
    omega

/-- A span takes the elements at its positions, as far as there are any. -/
theorem slice_eq {α : Type} (xs : List α) (s : Span) : slice xs s = s.positions.filterMap (xs[·]?) := by
  rw [slice, positions]
  generalize s.start = start
  generalize s.stop - start = n
  induction n generalizing start with
  | zero => simp
  | succ n ih =>
    rw [List.range'_succ, List.filterMap_cons]
    by_cases h : start < xs.length
    · rw [List.getElem?_eq_getElem h, List.drop_eq_getElem_cons h, List.take_succ_cons, ih]
    · have hnil : xs.drop start = [] := List.drop_eq_nil_of_le (by omega)
      have hnext : xs.drop (start + 1) = [] := List.drop_eq_nil_of_le (by omega)
      rw [List.getElem?_eq_none (by omega), ← ih, hnil, hnext, List.take_nil, List.take_nil]

private theorem held_ofInterval {length : Nat} (hlength : (length : Int) ≤ maxPoint) {rs : List Interval} {i : Nat}
    (hi : i < length) : Held (rs.filterMap (ofInterval? length)) i ↔ Covers rs i := by
  have hone : ∀ r : Interval, (∃ s, ofInterval? length r = some s ∧ s.start ≤ i ∧ i < s.stop) ↔ (i : Int) ∈ r := by
    intro r
    have hmin : minPoint ≤ 0 := by decide
    have hclamp : clampPoint (r.upper + 1) = max minPoint (min (r.upper + 1) maxPoint) := rfl
    rw [Interval.mem_iff, ofInterval?]
    by_cases h : max r.lower 0 < min (clampPoint (r.upper + 1)) length
    · rw [if_pos h]
      simp only [Option.some.injEq, exists_eq_left']
      omega
    · rw [if_neg h]
      simp only [reduceCtorEq, false_and, exists_false, false_iff]
      omega
  simp only [Held, Covers, List.mem_filterMap, ← hone]
  constructor
  · rintro ⟨s, ⟨r, hr, hs⟩, hpos⟩
    exact ⟨r, hr, s, hs, hpos⟩
  · rintro ⟨r, hr, s, hs, hpos⟩
    exact ⟨s, ⟨r, hr, hs⟩, hpos⟩

end Span

variable {α : Type} {xs : List α}

/-- Taking elements at ascending positions depends only on the positions that there are. -/
private theorem filterMap_positions_congr {l₁ l₂ : List Nat} (h₁ : l₁.Pairwise (· < ·)) (h₂ : l₂.Pairwise (· < ·))
    (h : ∀ i < xs.length, i ∈ l₁ ↔ i ∈ l₂) : l₁.filterMap (xs[·]?) = l₂.filterMap (xs[·]?) := by
  have hkept (l : List Nat) : l.filterMap (xs[·]?) = (l.filter (decide <| · < xs.length)).filterMap (xs[·]?) := by
    rw [List.filterMap_filter]
    apply List.filterMap_congr
    intro i _
    by_cases hi : i < xs.length
    · simp [hi]
    · simp [hi]
  have hsame : l₁.filter (decide <| · < xs.length) = l₂.filter (decide <| · < xs.length) := by
    refine (h₁.filter _).eq_of_mem_iff (h₂.filter _) fun i => ?_
    simp only [List.mem_filter, decide_eq_true_eq]
    constructor
    · rintro ⟨hm, hi⟩
      exact ⟨(h i hi).1 hm, hi⟩
    · rintro ⟨hm, hi⟩
      exact ⟨(h i hi).2 hm, hi⟩
  rw [hkept l₁, hkept l₂, hsame]

/-- Filtering takes the elements at any ascending positions that are those of the intervals, as far as the list
goes. -/
theorem filterByIntervals_eq {rs : List Interval} {l : List Nat} (hxs : (xs.length : Int) ≤ maxPoint)
    (hl : l.Pairwise (· < ·)) (h : ∀ i < xs.length, i ∈ l ↔ Covers rs i) :
    filterByIntervals xs rs = l.filterMap (xs[·]?) := by
  obtain ⟨hheld, hascending⟩ := Span.mergeAll_spec (rs.filterMap (Span.ofInterval? xs.length))
  have hslices : filterByIntervals xs rs =
      ((Span.mergeAll (rs.filterMap (Span.ofInterval? xs.length))).flatMap Span.positions).filterMap (xs[·]?) := by
    rw [filterByIntervals, List.filterMap_flatMap]
    exact List.flatMap_congr fun s _ => Span.slice_eq xs s
  rw [hslices]
  refine filterMap_positions_congr hascending hl fun i hi => ?_
  rw [Span.mem_flatMap_positions, hheld, Span.held_ofInterval hxs hi, h i hi]

/-- The positions of a list that some interval contains, in order. -/
def keptPositions (length : Nat) (rs : List Interval) : List Nat :=
  (List.range length).filter fun i : Nat => rs.any fun r => decide ((i : Int) ∈ r)

private theorem mem_keptPositions_iff {length i : Nat} {rs : List Interval} :
    i ∈ keptPositions length rs ↔ i < length ∧ Covers rs i := by
  simp [keptPositions, Covers]

/-- Filtering takes the elements at these positions. -/
theorem filterByIntervals_eq_keptPositions (hxs : (xs.length : Int) ≤ maxPoint) (rs : List Interval) :
    filterByIntervals xs rs = (keptPositions xs.length rs).filterMap (xs[·]?) :=
  filterByIntervals_eq hxs (List.pairwise_lt_range.filter _) fun _ hi => mem_keptPositions_iff.trans (and_iff_right hi)

/-- It depends only on which positions of the list the intervals contain. -/
theorem filterByIntervals_congr {rs qs : List Interval} (hxs : (xs.length : Int) ≤ maxPoint)
    (h : ∀ i < xs.length, Covers rs i ↔ Covers qs i) : filterByIntervals xs rs = filterByIntervals xs qs := by
  rw [filterByIntervals_eq_keptPositions hxs qs]
  refine filterByIntervals_eq hxs (List.pairwise_lt_range.filter _) fun i hi => ?_
  exact mem_keptPositions_iff.trans ((and_iff_right hi).trans (h i hi).symm)

/-- Intervals that are arranged are read point by point. -/
theorem filterByIntervals_of_arranged {rs : List Interval} (hxs : (xs.length : Int) ≤ maxPoint)
    (h : Interval.Arranged rs) :
    filterByIntervals xs rs = ((rs.flatMap points).map Int.toNat).filterMap (xs[·]?) := by
  have hnonneg : ∀ p ∈ rs.flatMap points, 0 ≤ p := by
    intro p hp
    obtain ⟨r, hr, hpr⟩ := Interval.mem_flatMap_points.1 hp
    have := Interval.isValid_iff.1 (h.valid r hr)
    rw [Interval.mem_iff] at hpr
    omega
  refine filterByIntervals_eq hxs ?_ fun i _ => ?_
  · rw [List.pairwise_map]
    refine h.points_ascending.imp_of_mem fun {p q} hp hq hpq => ?_
    have := hnonneg p hp
    omega
  · rw [← Interval.mem_flatMap_points, List.mem_map]
    constructor
    · rintro ⟨p, hp, rfl⟩
      rwa [Int.toNat_of_nonneg (hnonneg p hp)]
    · intro hi
      exact ⟨i, hi, Int.toNat_natCast i⟩

/-- However intervals lie, filtering by them is the plain filter of points: in order and each once, it keeps the elements
at exactly those positions that some interval contains. -/
theorem filterByIntervals_eq_plain (hxs : (xs.length : Int) ≤ maxPoint) (rs : List Interval) :
    filterByIntervals xs rs =
      ((List.finRange xs.length).filter fun i : Fin xs.length => rs.any fun r => decide ((i.val : Int) ∈ r)).map
        xs.get := by
  rw [filterByIntervals_eq_keptPositions hxs, keptPositions, ← List.map_coe_finRange_eq_range, List.filter_map,
    List.filterMap_map]
  exact List.filterMap_eq_map_iff_forall_eq_some.2 fun i _ => List.getElem?_eq_getElem i.isLt

/-- One interval reaches past the list as far as points go, one starts before it, one lies inside another, one is
inverted, and two touch. -/
theorem scattered_intervals_filtered :
    filterByIntervals [10, 20, 30, 40, 50, 60] [⟨5, maxPoint⟩, ⟨-4, 1⟩, ⟨0, 0⟩, ⟨3, 2⟩, ⟨4, 4⟩] =
      [10, 20, 50, 60] := by
  rw [filterByIntervals_eq_plain (by decide)]
  decide

end GridSeries.Statistics
