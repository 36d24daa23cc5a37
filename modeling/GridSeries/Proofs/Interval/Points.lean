import GridSeries.Selection
import Mathlib.Data.List.Pairwise
import Mathlib.Data.Set.Card

/-! The points of intervals as lists, and lists of intervals that lie apart in ascending order. Arranging intervals
gives such a list of the same intervals, and leaves one that is given as it is. -/
namespace GridSeries.Interval

/-- The points of an interval in ascending order. -/
def points (r : Interval) : List Int := (List.range r.size).map fun n : Nat => r.lower + n

/-- Some interval of a list contains the point. -/
def Covers (rs : List Interval) (p : Int) : Prop := ∃ r ∈ rs, p ∈ r

instance (rs : List Interval) (p : Int) : Decidable (Covers rs p) := inferInstanceAs (Decidable (∃ r ∈ rs, p ∈ r))

/-- An interval has as many points as its size says. -/
@[simp]
theorem length_points (r : Interval) : r.points.length = r.size := by simp [points]

@[simp]
theorem mem_points {r : Interval} {p : Int} : p ∈ r.points ↔ p ∈ r := by
  simp only [points, List.mem_map, List.mem_range, mem_iff, size]
  constructor
  · rintro ⟨n, hn, rfl⟩
    omega
  · rintro ⟨hl, hu⟩
    exact ⟨(p - r.lower).toNat, by omega, by omega⟩

/-- The points of an interval are listed in ascending order. -/
theorem points_ascending (r : Interval) : r.points.Pairwise (· < ·) := by
  rw [points, List.pairwise_map]
  exact List.pairwise_lt_range.imp fun h => by omega

/-- The points from one place to another inside an interval. -/
theorem points_part {r : Interval} {low high : Nat} (hl : low < high) (hh : high ≤ r.size) :
    (⟨r.lower + low, r.lower + high - 1⟩ : Interval).points = (r.points.drop low).take (high - low) := by
  have hs : (⟨r.lower + low, r.lower + high - 1⟩ : Interval).size = high - low := by
    simp only [size]
    omega
  apply List.ext_getElem
  · simp only [length_points, hs, List.length_take, List.length_drop]
    omega
  · intro n _ _
    simp only [points, List.getElem_map, List.getElem_range, List.getElem_take, List.getElem_drop]
    push_cast
    omega

/-- The points of intervals are those that they cover. -/
theorem mem_flatMap_points {rs : List Interval} {p : Int} : p ∈ rs.flatMap points ↔ Covers rs p := by
  simp [Covers]

/-- There are as many of them as the sizes add up to. -/
theorem length_flatMap_points (rs : List Interval) : (rs.flatMap points).length = totalSize rs := by
  induction rs with
  | nil => rfl
  | cons r rest ih => simp [totalSize, ih]

/-- Which points are covered does not depend on the order of the intervals. -/
theorem covers_of_perm {qs rs : List Interval} (h : qs.Perm rs) (p : Int) : Covers qs p ↔ Covers rs p := by
  simp only [Covers, h.mem_iff]

/-- A valid interval begins at zero or later and is not empty. -/
theorem isValid_iff {r : Interval} : r.isValid = true ↔ 0 ≤ r.lower ∧ r.lower ≤ r.upper := by
  simp [isValid]

/-- Valid intervals, each ending before the next begins. -/
structure Arranged (rs : List Interval) : Prop where
  valid : ∀ r ∈ rs, r.isValid = true
  apart : rs.Pairwise fun r s => r.upper < s.lower

namespace Arranged

theorem tail {r : Interval} {rs : List Interval} (h : Arranged (r :: rs)) : Arranged rs where
  valid s hs := h.valid s (List.mem_cons_of_mem r hs)
  apart := (List.pairwise_cons.1 h.apart).2

theorem nil : Arranged [] where
  valid _ hr := absurd hr List.not_mem_nil
  apart := .nil

theorem singleton {r : Interval} (h : r.isValid = true) : Arranged [r] where
  valid s hs := by rwa [List.mem_singleton.1 hs]
  apart := List.pairwise_singleton _ _

/-- The points of such intervals, listed interval after interval, ascend. -/
theorem points_ascending {rs : List Interval} (h : Arranged rs) : (rs.flatMap points).Pairwise (· < ·) := by
  rw [List.pairwise_flatMap]
  refine ⟨fun r _ => r.points_ascending, h.apart.imp fun {r s} hrs p hp q hq => ?_⟩
  rw [mem_points, mem_iff] at hp hq
  omega

/-- Intervals of the list with a common point are the same. -/
theorem eq_of_common {rs : List Interval} (h : Arranged rs) {r s : Interval} (hr : r ∈ rs) (hs : s ∈ rs) {p : Int}
    (hp : p ∈ r) (hq : p ∈ s) : r = s := by
  rw [mem_iff] at hp hq
  induction rs with
  | nil => cases hr
  | cons t rest ih =>
    have ht := (List.pairwise_cons.1 h.apart).1
    rcases List.mem_cons.1 hr with rfl | hr' <;> rcases List.mem_cons.1 hs with rfl | hs'
    · rfl
    · have := ht s hs'
      omega
    · have := ht r hr'
      omega
    · exact ih h.tail hr' hs'

/-- No interval of an arranged list occurs twice. -/
theorem nodup {rs : List Interval} (h : Arranged rs) : rs.Nodup := by
  refine List.Pairwise.imp_of_mem (fun {r s} hr _ hrs heq => ?_) h.apart
  have := isValid_iff.1 (h.valid r hr)
  subst heq
  omega

/-- No point is counted twice. -/
theorem ncard_covers {rs : List Interval} (h : Arranged rs) : {p | Covers rs p}.ncard = totalSize rs := by
  have hset : {p | Covers rs p} = ((rs.flatMap points).toFinset : Set Int) := by
    ext p
    simp [Covers]
  have hnodup : (rs.flatMap points).Nodup := h.points_ascending.imp fun hlt => ne_of_lt hlt
  rw [hset, Set.ncard_coe_finset, List.toFinset_card_of_nodup hnodup, length_flatMap_points]

/-- The hull of such intervals reaches from the first of their points to the last. -/
theorem covers_hullOf {rs : List Interval} (h : Arranged rs) (hne : rs ≠ []) :
    Covers rs (hullOf rs).lower ∧ Covers rs (hullOf rs).upper := by
  have hfirst := isValid_iff.1 (h.valid _ (List.head_mem hne))
  have hlast := isValid_iff.1 (h.valid _ (List.getLast_mem hne))
  rw [hullOf, List.head?_eq_some_head hne, List.getLast?_eq_some_getLast hne]
  exact ⟨⟨_, List.head_mem hne, mem_iff.2 ⟨Int.le_refl _, hfirst.2⟩⟩,
    ⟨_, List.getLast_mem hne, mem_iff.2 ⟨hlast.2, Int.le_refl _⟩⟩⟩

/-- All points lie in the hull. -/
theorem mem_hullOf {rs : List Interval} (h : Arranged rs) {p : Int} (hp : Covers rs p) : p ∈ hullOf rs := by
  obtain ⟨r, hr, hpr⟩ := hp
  have hne := List.ne_nil_of_mem hr
  have hvalid : ∀ s ∈ rs, s.lower ≤ s.upper := fun s hs => (isValid_iff.1 (h.valid s hs)).2
  have hfirst : (rs.head hne).lower ≤ r.lower := by
    have hsplit := List.cons_head_tail hne
    have happart := h.apart
    rw [← hsplit] at happart hr
    rcases List.mem_cons.1 hr with rfl | htail
    · exact Int.le_refl _
    · have hlt := (List.pairwise_cons.1 happart).1 r htail
      have := hvalid _ (List.head_mem hne)
      omega
  have hlast : r.upper ≤ (rs.getLast hne).upper := by
    have hsplit := List.dropLast_concat_getLast hne
    have happart := h.apart
    rw [← hsplit] at happart hr
    rcases List.mem_append.1 hr with hfront | hend
    · have hlt := (List.pairwise_append.1 happart).2.2 r hfront _ (List.mem_singleton_self _)
      have := hvalid _ (List.getLast_mem hne)
      omega
    · rw [List.mem_singleton.1 hend]
  rw [mem_iff] at hpr
  rw [hullOf, List.head?_eq_some_head hne, List.getLast?_eq_some_getLast hne]
  exact mem_iff.2 ⟨by dsimp only; omega, by dsimp only; omega⟩

end Arranged

/-- Sorted valid intervals of which no two neighbours meet lie apart. -/
private theorem apart_of_firstMeeting? {rs : List Interval} (hv : ∀ r ∈ rs, r.isValid = true)
    (hs : rs.Pairwise fun r s => r.lower ≤ s.lower) (hm : firstMeeting? rs = none) :
    rs.Pairwise fun r s => r.upper < s.lower := by
  induction rs with
  | nil => exact .nil
  | cons r rest ih =>
    have hsr := List.pairwise_cons.1 hs
    cases rest with
    | nil => exact List.pairwise_singleton _ _
    | cons s rest =>
      unfold firstMeeting? at hm
      have hmeets : r.meets s = false := by
        cases h : r.meets s with
        | false => rfl
        | true => simp [h] at hm
      rw [hmeets] at hm
      have hrest := ih (fun t ht => hv t (List.mem_cons_of_mem r ht)) hsr.2 hm
      have hvs := isValid_iff.1 (hv s (by simp))
      have hle := hsr.1 s (by simp)
      have hrs : r.upper < s.lower := by
        simp only [meets, Bool.and_eq_false_iff, decide_eq_false_iff_not] at hmeets
        omega
      -- only neighbours are compared; intervals further on begin after the end of the next one
      refine List.pairwise_cons.2 ⟨fun t ht => ?_, hrest⟩
      rcases List.mem_cons.1 ht with rfl | ht
      · exact hrs
      · have := (List.pairwise_cons.1 hrest).1 t ht
        omega

/-- Arranging succeeds only with the given intervals, in ascending order and apart. -/
theorem arrange_spec {rs sorted : List Interval} (h : arrange rs = .ok sorted) :
    Arranged sorted ∧ sorted.Perm rs := by
  unfold arrange at h
  split at h
  · cases h
  · rename_i hv
    dsimp only at h
    split at h
    · cases h
    · rename_i hm
      cases h
      have hperm := List.mergeSort_perm rs fun r s => decide (r.lower ≤ s.lower)
      have hvalid : ∀ r ∈ rs, r.isValid = true := fun r hr => by
        simpa using List.find?_eq_none.1 hv r hr
      have htrans : ∀ a b c : Interval, decide (a.lower ≤ b.lower) = true → decide (b.lower ≤ c.lower) = true →
          decide (a.lower ≤ c.lower) = true := by
        intro a b c hab hbc
        simp only [decide_eq_true_eq] at *
        omega
      have htotal : ∀ a b : Interval, (decide (a.lower ≤ b.lower) || decide (b.lower ≤ a.lower)) = true := by
        intro a b
        simp only [Bool.or_eq_true, decide_eq_true_eq]
        omega
      have hsorted := List.pairwise_mergeSort htrans htotal rs
      have hall := fun r hr => hvalid r (hperm.mem_iff.1 hr)
      exact ⟨⟨hall, apart_of_firstMeeting? hall (hsorted.imp fun h => by simpa using h) hm⟩, hperm⟩

private theorem firstMeeting?_eq_none {rs : List Interval} (h : rs.Pairwise fun r s => r.upper < s.lower) :
    firstMeeting? rs = none := by
  induction rs with
  | nil => rfl
  | cons r rest ih =>
    cases rest with
    | nil => rfl
    | cons s rest =>
      have hr := List.pairwise_cons.1 h
      have hrs := hr.1 s (by simp)
      have hmeets : r.meets s = false := by
        simp only [meets, Bool.and_eq_false_iff, decide_eq_false_iff_not]
        omega
      rw [firstMeeting?, hmeets]
      exact ih hr.2

/-- Intervals that are arranged already stay as they are. -/
theorem arrange_of_arranged {rs : List Interval} (h : Arranged rs) : arrange rs = .ok rs := by
  have hfind : rs.find? (fun r => !r.isValid) = none :=
    List.find?_eq_none.2 fun r hr => by simp [h.valid r hr]
  have hsort : rs.mergeSort (fun r s => decide (r.lower ≤ s.lower)) = rs := by
    apply List.mergeSort_of_pairwise
    refine List.Pairwise.imp_of_mem (fun {r s} hr _ hrs => ?_) h.apart
    have := isValid_iff.1 (h.valid r hr)
    simp only [decide_eq_true_eq]
    omega
  rw [arrange, hfind]
  dsimp only
  rw [hsort, firstMeeting?_eq_none h.apart]

end GridSeries.Interval
