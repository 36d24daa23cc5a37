import GridSeries.Proofs.Interval.Points
import Mathlib.Data.List.NodupEquivFin
import Mathlib.Data.List.Permutation

/-! What arranging accepts and what it refuses. Only neighbours are compared once the intervals are sorted, and yet
exactly those lists are accepted in which no two intervals, wherever they stand, have a point in common. -/
namespace GridSeries.Interval

/-- No point lies in both intervals. -/
def Separate (r s : Interval) : Prop := ∀ p, p ∈ r → ¬ p ∈ s

theorem Separate.symm {r s : Interval} (h : Separate r s) : Separate s r := fun p hs hr => h p hr hs

private theorem exists_common_of_meets {r s : Interval} (hr : r.isValid = true) (hs : s.isValid = true)
    (h : r.meets s = true) : ∃ p, p ∈ r ∧ p ∈ s := by
  have hr := isValid_iff.1 hr
  have hs := isValid_iff.1 hs
  simp only [meets, Bool.and_eq_true, decide_eq_true_eq] at h
  refine ⟨max r.lower s.lower, ?_, ?_⟩
  · rw [mem_iff]
    omega
  · rw [mem_iff]
    omega

/-- Arranged intervals have no points in common, also those that are no neighbours. -/
theorem Arranged.separate {rs : List Interval} (h : Arranged rs) : rs.Pairwise Separate := by
  refine h.apart.imp fun {r s} hrs p hr hs => ?_
  rw [mem_iff] at hr hs
  omega

/-- Arranged intervals begin one after the other. -/
theorem Arranged.ascending {rs : List Interval} (h : Arranged rs) : rs.Pairwise fun r s => r.lower < s.lower := by
  refine h.apart.imp_of_mem fun {r s} hr _ hrs => ?_
  have := isValid_iff.1 (h.valid r hr)
  omega

/-- Arranged lists of the same intervals are the same list. -/
theorem Arranged.eq_of_perm {rs qs : List Interval} (hr : Arranged rs) (hq : Arranged qs) (h : rs.Perm qs) :
    rs = qs := by
  refine h.eq_of_pairwise (fun r s _ _ hrs hsr => ?_) hr.ascending hq.ascending
  omega

/-- The two intervals that meet stand in the list, one before the other. -/
private theorem sublist_of_firstMeeting? {rs : List Interval} {r s : Interval} (h : firstMeeting? rs = some (r, s)) :
    r.meets s = true ∧ [r, s].Sublist rs := by
  induction rs with
  | nil => cases h
  | cons a rest ih =>
    cases rest with
    | nil => cases h
    | cons b rest =>
      rw [firstMeeting?] at h
      split at h
      · rename_i hmeets
        cases h
        exact ⟨hmeets, ((List.nil_sublist rest).cons_cons s).cons_cons r⟩
      · obtain ⟨hmeets, hsub⟩ := ih h
        exact ⟨hmeets, hsub.cons a⟩

/-- Two elements of a list stand at two positions of every permutation of it. -/
private theorem exists_positions {rs qs : List Interval} {r s : Interval} (hsub : [r, s].Sublist qs)
    (hperm : qs.Perm rs) : ∃ i j : Nat, i ≠ j ∧ rs[i]? = some r ∧ rs[j]? = some s := by
  obtain ⟨l, hl, hsub⟩ := hsub.subperm.trans hperm.subperm
  obtain ⟨f, hf⟩ := List.sublist_iff_exists_orderEmbedding_getElem?_eq.1 hsub
  have hpositions : f 0 ≠ f 1 := fun h => absurd (f.injective h) Nat.zero_ne_one
  have hzero := hf 0
  have hone := hf 1
  -- the permutation leaves the two in their order or swaps them
  rcases List.perm_pair.1 hl with rfl | rfl
  · exact ⟨f 0, f 1, hpositions, hzero.symm, hone.symm⟩
  · exact ⟨f 1, f 0, hpositions.symm, hone.symm, hzero.symm⟩

/-- Why a list is refused: for the first interval with bad bounds, or else for two intervals at different positions that
have a point in common. -/
inductive Refusal (rs : List Interval) : Fault → Prop
  | bounds {before after : List Interval} {r : Interval} (hrs : rs = before ++ r :: after)
      (hbefore : ∀ q ∈ before, 0 ≤ q.lower ∧ q.lower ≤ q.upper) (hr : ¬ (0 ≤ r.lower ∧ r.lower ≤ r.upper)) :
      Refusal rs (.badInterval r)
  | common {i j : Nat} {r s : Interval} {p : Int} (hbounds : ∀ q ∈ rs, 0 ≤ q.lower ∧ q.lower ≤ q.upper) (hij : i ≠ j)
      (hi : rs[i]? = some r) (hj : rs[j]? = some s) (hr : p ∈ r) (hs : p ∈ s) : Refusal rs (.overlap r s)

private theorem refusal_of_arrange {rs : List Interval} {fault : Fault} (h : arrange rs = .error fault) :
    Refusal rs fault := by
  unfold arrange at h
  split at h
  · rename_i r hbad
    cases h
    obtain ⟨hr, before, after, hrs, hbefore⟩ := List.find?_eq_some_iff_append.1 hbad
    refine .bounds hrs (fun q hq => isValid_iff.1 ?_) fun hv => ?_
    · simpa using hbefore q hq
    · simp [isValid_iff.2 hv] at hr
  · rename_i hnone
    have hvalid : ∀ q ∈ rs, q.isValid = true := fun q hq => by simpa using List.find?_eq_none.1 hnone q hq
    dsimp only at h
    split at h
    · rename_i r s hmeeting
      cases h
      obtain ⟨hmeets, hsub⟩ := sublist_of_firstMeeting? hmeeting
      obtain ⟨i, j, hij, hi, hj⟩ := exists_positions hsub (List.mergeSort_perm rs _)
      obtain ⟨p, hr, hs⟩ := exists_common_of_meets (hvalid r (List.mem_of_getElem? hi))
        (hvalid s (List.mem_of_getElem? hj)) hmeets
      exact .common (fun q hq => isValid_iff.1 (hvalid q hq)) hij hi hj hr hs
    · cases h

/-- What is refused has bad bounds or a common point. -/
theorem Refusal.not_separate {rs : List Interval} {fault : Fault} (h : Refusal rs fault)
    (hbounds : ∀ r ∈ rs, 0 ≤ r.lower ∧ r.lower ≤ r.upper) : ¬ rs.Pairwise Separate := by
  intro hseparate
  cases h with
  | bounds hrs _ hr => exact hr (hbounds _ (by simp [hrs]))
  | @common i j r s p _ hij hi hj hr hs =>
    obtain ⟨hilength, rfl⟩ := List.getElem?_eq_some_iff.1 hi
    obtain ⟨hjlength, rfl⟩ := List.getElem?_eq_some_iff.1 hj
    rcases Nat.lt_or_gt_of_ne hij with hlt | hlt
    · exact List.pairwise_iff_getElem.1 hseparate i j hilength hjlength hlt p hr hs
    · exact List.pairwise_iff_getElem.1 hseparate j i hjlength hilength hlt p hs hr

private theorem exists_arrange_iff {rs : List Interval} :
    (∃ sorted, arrange rs = .ok sorted) ↔
      (∀ r ∈ rs, 0 ≤ r.lower ∧ r.lower ≤ r.upper) ∧ rs.Pairwise Separate := by
  constructor
  · rintro ⟨sorted, h⟩
    obtain ⟨harranged, hperm⟩ := arrange_spec h
    refine ⟨fun r hr => isValid_iff.1 (harranged.valid r (hperm.mem_iff.2 hr)), ?_⟩
    exact (hperm.pairwise_iff fun hrs => hrs.symm).1 harranged.separate
  · rintro ⟨hbounds, hseparate⟩
    cases h : arrange rs with
    | ok sorted => exact ⟨sorted, rfl⟩
    | error fault => exact absurd hseparate ((refusal_of_arrange h).not_separate hbounds)

private theorem arrange_of_perm {rs qs sorted : List Interval} (h : arrange rs = .ok sorted) (hperm : qs.Perm rs) :
    arrange qs = .ok sorted := by
  obtain ⟨hbounds, hseparate⟩ := exists_arrange_iff.1 ⟨sorted, h⟩
  obtain ⟨other, hother⟩ := exists_arrange_iff.2
    ⟨fun r hr => hbounds r (hperm.mem_iff.1 hr), (hperm.pairwise_iff fun hrs => hrs.symm).2 hseparate⟩
  obtain ⟨harranged, hsorted⟩ := arrange_spec h
  obtain ⟨harranged', hsorted'⟩ := arrange_spec hother
  rw [hother, harranged'.eq_of_perm harranged (hsorted'.trans (hperm.trans hsorted.symm))]

/-- What an accepted list becomes: the same intervals sorted by lower bound, whatever their order was, with as many
points as there are in any of them. -/
structure ArrangedAs (rs sorted : List Interval) : Prop where
  perm : sorted.Perm rs
  ascending : sorted.Pairwise fun r s => r.lower < s.lower
  of_perm : ∀ qs, qs.Perm rs → arrange qs = .ok sorted
  size_eq : totalSize sorted = {p | Covers rs p}.ncard

/-- Exactly the lists are accepted that have valid bounds throughout and no two intervals, at whatever positions, with
a common point. An accepted list is sorted and counts each point once. A list is refused for its first interval with bad
bounds, and if there is none for two of its intervals that do have a common point. -/
theorem arrange_decides_separation (rs : List Interval) :
    ((∃ sorted, arrange rs = .ok sorted) ↔
      (∀ r ∈ rs, 0 ≤ r.lower ∧ r.lower ≤ r.upper) ∧ rs.Pairwise Separate) ∧
    (∀ sorted, arrange rs = .ok sorted → ArrangedAs rs sorted) ∧
    ∀ fault, arrange rs = .error fault → Refusal rs fault := by
  refine ⟨exists_arrange_iff, fun sorted h => ?_, fun fault => refusal_of_arrange⟩
  obtain ⟨harranged, hperm⟩ := arrange_spec h
  refine ⟨hperm, harranged.ascending, fun qs => arrange_of_perm h, ?_⟩
  rw [← harranged.ncard_covers]
  exact congrArg Set.ncard (Set.ext fun p => covers_of_perm hperm p)

/-- Neighbouring numbers are no common point: two intervals that touch so are accepted, in either order. Two that share
their end are refused for it. -/
theorem touching_arranged_and_sharing_refused :
    (∃ sorted, arrange [⟨6, 9⟩, ⟨0, 5⟩] = .ok sorted ∧ arrange [⟨0, 5⟩, ⟨6, 9⟩] = .ok sorted) ∧
      ∃ fault, arrange [⟨5, 9⟩, ⟨0, 5⟩] = .error fault ∧ Refusal [⟨5, 9⟩, ⟨0, 5⟩] fault := by
  obtain ⟨haccepted, harranged, _⟩ := arrange_decides_separation [⟨6, 9⟩, ⟨0, 5⟩]
  obtain ⟨haccepted', _, hrefused⟩ := arrange_decides_separation [⟨5, 9⟩, ⟨0, 5⟩]
  constructor
  · have hseparate : Separate ⟨6, 9⟩ ⟨0, 5⟩ := fun p hr hs => by
      rw [mem_iff] at hr hs
      simp only at hr hs
      omega
    obtain ⟨sorted, hsorted⟩ := haccepted.2 ⟨by simp, by simpa using hseparate⟩
    exact ⟨sorted, hsorted, (harranged sorted hsorted).of_perm _ (List.Perm.swap _ _ _)⟩
  · cases h : arrange [⟨5, 9⟩, ⟨0, 5⟩] with
    | ok sorted =>
      have hseparate := (haccepted'.1 ⟨sorted, h⟩).2
      exact absurd (show (5 : Int) ∈ (⟨0, 5⟩ : Interval) by decide)
        ((List.pairwise_cons.1 hseparate).1 _ (by simp) 5 (by decide))
    | error fault => exact ⟨fault, rfl, hrefused fault h⟩

end GridSeries.Interval
