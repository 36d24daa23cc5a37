import GridSeries.Proofs.Chunk.Pieces
import Mathlib.Algebra.Order.Floor.Div
import Mathlib.Data.Set.Card

/-! Chunks divide the points of the intervals they are cut from: no point is lost, none is doubled, and every chunk but
the last is full. A cutter answers with the pieces of that division, except for a last chunk that holds the largest
point. -/
namespace GridSeries.Cutter
open GridSeries.Interval (Covers hullOf)

/-- The points of chunks, chunk after chunk and part after part. -/
def pointsOf (parts : Int → List Interval) (count : Nat) : List Int :=
  (List.range count).flatMap fun i : Nat => (parts i).flatMap Interval.points

/-- The parts of chunks divide the points of some intervals into `count` chunks of a size. -/
structure Divides (parts : Int → List Interval) (count : Nat) (rs : List Interval) (size : Nat) : Prop where
  /-- There are as many chunks as the number of points asks for. -/
  count_eq : count = {p | Covers rs p}.ncard ⌈/⌉ size
  /-- The points of the chunks ascend, so none occurs twice, and they are those of the intervals. -/
  ascending : (pointsOf parts count).Pairwise (· < ·)
  mem_points_iff : ∀ p, p ∈ pointsOf parts count ↔ Covers rs p
  full : ∀ i : Nat, i + 1 < count → ((parts i).flatMap Interval.points).length = size
  last : ∀ i : Nat, i + 1 = count →
    1 ≤ ((parts i).flatMap Interval.points).length ∧ ((parts i).flatMap Interval.points).length ≤ size
  /-- Parts hold a point, and each ends before the next begins. -/
  part_valid : ∀ i, ∀ s ∈ parts i, s.lower ≤ s.upper
  parts_apart : ∀ i, (parts i).Pairwise fun s t => s.upper < t.lower
  /-- A part lies in one interval, and an interval that a chunk meets has one part of it. -/
  part_inside : ∀ i, ∀ s ∈ parts i, ∃ r ∈ rs, r.lower ≤ s.lower ∧ s.upper ≤ r.upper
  part_unique : ∀ i, ∀ r ∈ rs, (∃ p ∈ r, Covers (parts i) p) →
    ∃! s, s ∈ parts i ∧ r.lower ≤ s.lower ∧ s.upper ≤ r.upper
  /-- The hull of a chunk is the smallest interval with all its points. -/
  hull_lower : ∀ i : Nat, i < count → Covers (parts i) (hullOf (parts i)).lower
  hull_upper : ∀ i : Nat, i < count → Covers (parts i) (hullOf (parts i)).upper
  mem_hull : ∀ i p, Covers (parts i) p → p ∈ hullOf (parts i)
  hulls_apart : ∀ i j : Nat, i < j → j < count → (hullOf (parts i)).upper < (hullOf (parts j)).lower
  /-- A number outside the domain has no parts, and its hull stands for that. -/
  absent : ∀ i : Int, i < 0 ∨ count ≤ i → parts i = [] ∧ hullOf (parts i) = ⟨-1, -1⟩

variable {c : Cutter} {rs : List Interval}

/-- The points of a chunk are those that its parts cover. -/
theorem mem_points_parts {i : Int} {p : Int} :
    p ∈ (c.parts i).flatMap Interval.points ↔ Covers (c.parts i) p :=
  Interval.mem_flatMap_points

private theorem length_parts_points (h : c.Cuts rs) {i : Nat} (hi : i < c.count) :
    ((c.parts i).flatMap Interval.points).length = min c.size (c.total - i * c.size) := by
  rw [parts_points h hi, List.length_take, List.length_drop, h.total_eq]

private theorem total_pos (h : c.Cuts rs) : 0 < c.total := by
  obtain ⟨r, rest, rfl⟩ := List.exists_cons_of_ne_nil h.nonempty
  have hv := Interval.isValid_iff.1 (h.arranged.valid r (by simp))
  rw [h.total_eq, List.flatMap_cons, List.length_append, Interval.length_points, Interval.size]
  omega

/-- The sequence reaches into the last chunk and not past it. -/
theorem count_bounds (h : c.Cuts rs) : 0 < c.count ∧ (c.count - 1) * c.size < c.total ∧ c.total ≤ c.count * c.size := by
  have hpos := total_pos h
  have hsize := h.size_pos
  have hdiv := Nat.div_add_mod (c.total + c.size - 1) c.size
  have hmod := Nat.mod_lt (c.total + c.size - 1) hsize
  have hcount : c.count = (c.total + c.size - 1) / c.size := rfl
  rw [← hcount, Nat.mul_comm] at hdiv
  have hone : 0 < c.count := by
    rcases Nat.eq_zero_or_pos c.count with hz | hp
    · rw [hz] at hdiv
      omega
    · exact hp
  refine ⟨hone, ?_, by omega⟩
  rw [Nat.sub_mul]
  omega

/-- The total of a cutter is the number of points that its intervals cover. -/
theorem ncard_covers (h : c.Cuts rs) : {p | Covers rs p}.ncard = c.total := by
  rw [h.arranged.ncard_covers, h.total_eq, Interval.length_flatMap_points]

private theorem parts_apart (h : c.Cuts rs) (i : Int) : (c.parts i).Pairwise fun s t => s.upper < t.lower := by
  by_cases hi : i < 0 ∨ c.count ≤ i
  · rw [parts_of_not_hasChunk hi]
    exact .nil
  · obtain ⟨n, rfl⟩ := Int.eq_ofNat_of_zero_le (show 0 ≤ i by omega)
    rw [parts_eq h (by omega)]
    have hplaced : (place 0 rs).Pairwise fun e f => e.2.upper < f.2.lower := by
      have hapart := h.arranged.apart
      rw [← map_place 0 rs] at hapart
      exact List.pairwise_map.1 hapart
    refine List.Pairwise.filterMap _ (fun e f hef s hs t ht => ?_) hplaced
    have := of_part?_eq_some (Option.mem_def.1 hs)
    have := of_part?_eq_some (Option.mem_def.1 ht)
    omega

/-- Every part lies in an interval. -/
theorem exists_of_mem_parts (h : c.Cuts rs) {i : Int} {s : Interval} (hs : s ∈ c.parts i) :
    s.lower ≤ s.upper ∧ ∃ r ∈ rs, r.lower ≤ s.lower ∧ s.upper ≤ r.upper := by
  by_cases hi : i < 0 ∨ c.count ≤ i
  · rw [parts_of_not_hasChunk hi] at hs
    cases hs
  · obtain ⟨n, rfl⟩ := Int.eq_ofNat_of_zero_le (show 0 ≤ i by omega)
    rw [parts_eq h (by omega), List.mem_filterMap] at hs
    obtain ⟨e, he, hp⟩ := hs
    obtain ⟨hle, hin⟩ := of_part?_eq_some hp
    exact ⟨hle, e.2, mem_of_mem_place he, hin⟩

/-- The parts of chunks hold no points but those of the intervals. -/
theorem covers_of_covers_parts (h : c.Cuts rs) {i p : Int} (hp : Covers (c.parts i) p) : Covers rs p := by
  obtain ⟨s, hs, hps⟩ := hp
  obtain ⟨_, r, hr, hlower, hupper⟩ := exists_of_mem_parts h hs
  rw [Interval.mem_iff] at hps
  exact ⟨r, hr, Interval.mem_iff.2 (by omega)⟩

/-- The parts of a chunk are valid intervals, apart and in ascending order. -/
theorem parts_arranged (h : c.Cuts rs) (i : Int) : Interval.Arranged (c.parts i) where
  valid s hs := by
    obtain ⟨hle, r, hr, hin⟩ := exists_of_mem_parts h hs
    have := Interval.isValid_iff.1 (h.arranged.valid r hr)
    exact Interval.isValid_iff.2 (by omega)
  apart := parts_apart h i

private theorem part_unique (h : c.Cuts rs) {i : Int} {r s t : Interval} (hr : r ∈ rs) (hs : s ∈ c.parts i)
    (ht : t ∈ c.parts i) (hsr : r.lower ≤ s.lower ∧ s.upper ≤ r.upper)
    (htr : r.lower ≤ t.lower ∧ t.upper ≤ r.upper) : s = t := by
  by_cases hi : i < 0 ∨ c.count ≤ i
  · rw [parts_of_not_hasChunk hi] at hs
    cases hs
  · obtain ⟨n, rfl⟩ := Int.eq_ofNat_of_zero_le (show 0 ≤ i by omega)
    rw [parts_eq h (by omega), List.mem_filterMap] at hs ht
    obtain ⟨e, he, hes⟩ := hs
    obtain ⟨f, hf, hft⟩ := ht
    obtain ⟨hsv, hse⟩ := of_part?_eq_some hes
    obtain ⟨htv, htf⟩ := of_part?_eq_some hft
    have her : e.2 = r := h.arranged.eq_of_common (mem_of_mem_place he) hr (p := s.lower)
      (Interval.mem_iff.2 (by omega)) (Interval.mem_iff.2 (by omega))
    have hfr : f.2 = r := h.arranged.eq_of_common (mem_of_mem_place hf) hr (p := t.lower)
      (Interval.mem_iff.2 (by omega)) (Interval.mem_iff.2 (by omega))
    have hinj := List.inj_on_of_nodup_map (f := fun g : Nat × Interval => g.2) (l := place 0 rs)
      (by rw [map_place]; exact h.arranged.nodup)
    have hef : e = f := hinj he hf (her.trans hfr.symm)
    subst hef
    exact Option.some.inj (hes.symm.trans hft)

private theorem parts_ne_nil (h : c.Cuts rs) {i : Nat} (hi : i < c.count) : c.parts i ≠ [] := by
  intro hn
  have hlen := length_parts_points h hi
  obtain ⟨_, hlast, _⟩ := count_bounds h
  have hsize := h.size_pos
  have hle : i * c.size ≤ (c.count - 1) * c.size := Nat.mul_le_mul_right _ (by omega)
  rw [hn] at hlen
  simp only [List.flatMap_nil, List.length_nil] at hlen
  omega

private theorem lt_of_covers (h : c.Cuts rs) {i j : Nat} (hij : i < j) (hj : j < c.count) {p q : Int}
    (hp : Covers (c.parts i) p) (hq : Covers (c.parts j) q) : p < q := by
  rw [← mem_points_parts, parts_points h (by omega)] at hp
  rw [← mem_points_parts, parts_points h hj] at hq
  have hsplit := h.arranged.points_ascending
  rw [← List.take_append_drop ((i + 1) * c.size) (rs.flatMap Interval.points)] at hsplit
  refine (List.pairwise_append.1 hsplit).2.2 p ?_ q ?_
  · rw [Nat.succ_mul, List.take_add]
    exact List.mem_append_right _ hp
  · have hle : (i + 1) * c.size ≤ j * c.size := Nat.mul_le_mul_right _ hij
    obtain ⟨d, hd⟩ := Nat.exists_eq_add_of_le hle
    have hq := List.mem_of_mem_take hq
    rw [hd, ← List.drop_drop] at hq
    exact List.mem_of_mem_drop hq

/-- The parts of a cutter of arranged intervals divide their points. -/
theorem divides_of_cuts (h : c.Cuts rs) : Divides c.parts c.count rs c.size where
  count_eq := by
    rw [ncard_covers h, Nat.ceilDiv_eq_add_pred_div]
    rfl
  ascending := by
    rw [pointsOf, all_points h]
    exact h.arranged.points_ascending
  mem_points_iff p := by
    rw [pointsOf, all_points h]
    exact Interval.mem_flatMap_points
  full i hi := by
    obtain ⟨_, hlast, _⟩ := count_bounds h
    have hle : (i + 1) * c.size ≤ (c.count - 1) * c.size := Nat.mul_le_mul_right _ (by omega)
    rw [length_parts_points h (by omega)]
    rw [Nat.succ_mul] at hle
    omega
  last i hi := by
    obtain ⟨_, hlast, _⟩ := count_bounds h
    have hsize := h.size_pos
    rw [length_parts_points h (by omega)]
    rw [← hi, Nat.add_sub_cancel] at hlast
    omega
  part_valid i s hs := (exists_of_mem_parts h hs).1
  parts_apart := parts_apart h
  part_inside i s hs := (exists_of_mem_parts h hs).2
  part_unique i r hr hp := by
    obtain ⟨p, hpr, s, hs, hps⟩ := hp
    obtain ⟨_, q, hq, hsq⟩ := exists_of_mem_parts h hs
    rw [Interval.mem_iff] at hps
    have hqr : q = r := h.arranged.eq_of_common hq hr (p := p) (Interval.mem_iff.2 (by omega)) hpr
    subst hqr
    exact ⟨s, ⟨hs, hsq⟩, fun t ht => part_unique h hq ht.1 hs ht.2 hsq⟩
  hull_lower i hi := ((parts_arranged h i).covers_hullOf (parts_ne_nil h hi)).1
  hull_upper i hi := ((parts_arranged h i).covers_hullOf (parts_ne_nil h hi)).2
  mem_hull i _ := (parts_arranged h i).mem_hullOf
  hulls_apart i j hij hj := lt_of_covers h hij hj ((parts_arranged h i).covers_hullOf (parts_ne_nil h (by omega))).2
    ((parts_arranged h j).covers_hullOf (parts_ne_nil h hj)).1
  absent i hi := by
    have hs := parts_of_not_hasChunk hi
    refine ⟨hs, ?_⟩
    rw [hs]
    rfl

/-- Only the set of intervals matters, not the order in which they are given. -/
theorem Divides.perm {parts : Int → List Interval} {count size : Nat} {qs : List Interval}
    (h : Divides parts count qs size) (hp : qs.Perm rs) : Divides parts count rs size := by
  have hmem {r : Interval} : r ∈ qs ↔ r ∈ rs := hp.mem_iff
  have hcov := Interval.covers_of_perm hp
  refine { h with count_eq := ?_, mem_points_iff := ?_, part_inside := ?_, part_unique := ?_ }
  · simpa only [hcov] using h.count_eq
  · simpa only [hcov] using h.mem_points_iff
  · simpa only [hmem] using h.part_inside
  · simpa only [hmem] using h.part_unique

/-- Among points that have words, a part reaches the largest only in the last chunk of intervals that hold it. -/
theorem reaches_iff (h : c.Cuts rs) (hupper : ∀ r ∈ rs, r.upper ≤ maxPoint) (i : Int) :
    (∃ s ∈ c.parts i, maxPoint ≤ s.upper) ↔ i + 1 = c.count ∧ Covers rs maxPoint := by
  have hbound {p : Int} (hp : Covers rs p) : p ≤ maxPoint := by
    obtain ⟨r, hr, hpr⟩ := hp
    have := hupper r hr
    rw [Interval.mem_iff] at hpr
    omega
  -- after the chunk of the largest point no other can follow
  have hlast {j : Nat} (hj : j < c.count) (hp : Covers (c.parts j) maxPoint) : j + 1 = c.count := by
    by_contra hne
    have hnext := ((parts_arranged h (j + 1 : Nat)).covers_hullOf (parts_ne_nil h (by omega))).1
    have hlt := lt_of_covers h (Nat.lt_add_one j) (by omega) hp hnext
    have := hbound (covers_of_covers_parts h hnext)
    omega
  constructor
  · rintro ⟨s, hs, hle⟩
    have hsupper : Covers (c.parts i) s.upper :=
      ⟨s, hs, Interval.mem_iff.2 ⟨(exists_of_mem_parts h hs).1, Int.le_refl _⟩⟩
    have heq : s.upper = maxPoint := Int.le_antisymm (hbound (covers_of_covers_parts h hsupper)) hle
    rw [heq] at hsupper
    refine ⟨?_, covers_of_covers_parts h hsupper⟩
    by_cases hi : i < 0 ∨ c.count ≤ i
    · rw [parts_of_not_hasChunk hi] at hs
      cases hs
    · obtain ⟨n, rfl⟩ := Int.eq_ofNat_of_zero_le (show 0 ≤ i by omega)
      have := hlast (show n < c.count by omega) hsupper
      omega
  · rintro ⟨hi, hmax⟩
    rw [← Interval.mem_flatMap_points, ← all_points h] at hmax
    obtain ⟨j, hj, hmem⟩ := List.mem_flatMap.1 hmax
    have hp := mem_points_parts.1 hmem
    have := hlast (List.mem_range.1 hj) hp
    obtain rfl : i = j := by omega
    obtain ⟨s, hs, hps⟩ := hp
    exact ⟨s, hs, (Interval.mem_iff.1 hps).2⟩

/-- A cutter answers with the exact parts of a chunk, but for a last chunk with the largest point. -/
theorem segments_eq (h : c.Cuts rs) (hupper : ∀ r ∈ rs, r.upper ≤ maxPoint) (i : Int) :
    c.segments i = if i + 1 = c.count ∧ Covers rs maxPoint then none else some (c.parts i) := by
  split
  · rename_i hlast
    obtain ⟨s, hs, hle⟩ := (reaches_iff h hupper i).2 hlast
    exact segments_of_le hs hle
  · rename_i hlast
    exact segments_of_lt h fun s hs => Int.lt_of_not_ge fun hle => hlast ((reaches_iff h hupper i).1 ⟨s, hs, hle⟩)

/-- Pieces that a cutter answers with are the exact parts. -/
theorem eq_parts_of_segments (h : c.Cuts rs) (hupper : ∀ r ∈ rs, r.upper ≤ maxPoint) {i : Int}
    {pieces : List Interval} (hpieces : c.segments i = some pieces) : pieces = c.parts i := by
  rw [segments_eq h hupper] at hpieces
  split at hpieces
  · cases hpieces
  · exact (Option.some.inj hpieces).symm

/-- The only pieces without an answer are those of the last chunk of intervals with the largest point. -/
theorem segments_eq_none_iff (h : c.Cuts rs) (hupper : ∀ r ∈ rs, r.upper ≤ maxPoint) (i : Int) :
    c.segments i = none ↔ i + 1 = c.count ∧ Covers rs maxPoint := by
  rw [segments_eq h hupper]
  split
  · exact iff_of_true rfl ‹_›
  · exact iff_of_false (fun hnone => nomatch hnone) ‹_›

/-- A hull has an answer where the pieces have one. -/
theorem hull_eq (h : c.Cuts rs) (hupper : ∀ r ∈ rs, r.upper ≤ maxPoint) (i : Int) :
    c.hull i = if i + 1 = c.count ∧ Covers rs maxPoint then none else some (hullOf (c.parts i)) := by
  rw [hull, segments_eq h hupper]
  split <;> rfl

/-- Whatever intervals and size are given, a cutter that is made of them divides their points into chunks of that size.
It answers with the pieces and the hull of each chunk, but not of the last one where the intervals hold the largest
point of all. -/
theorem make_divides {rs : List Interval} {size : Int} {c : Cutter} (hupper : ∀ r ∈ rs, r.upper ≤ maxPoint)
    (h : make rs size = .ok c) : ∃ parts : Int → List Interval, Divides parts c.count rs size.toNat ∧
      ∀ i : Int, c.segments i = (if i + 1 = c.count ∧ Covers rs maxPoint then none else some (parts i)) ∧
        c.hull i = if i + 1 = c.count ∧ Covers rs maxPoint then none else some (hullOf (parts i)) := by
  obtain ⟨sorted, hcuts, hperm, hsize⟩ := cuts_of_make h
  have hsorted : ∀ r ∈ sorted, r.upper ≤ maxPoint := fun r hr => hupper r (hperm.mem_iff.1 hr)
  have hcov := Interval.covers_of_perm hperm maxPoint
  refine ⟨c.parts, ?_, fun i => ?_⟩
  · rw [← hsize]
    exact (divides_of_cuts hcuts).perm hperm
  · simp only [← hcov]
    exact ⟨segments_eq hcuts hsorted i, hull_eq hcuts hsorted i⟩

/-- Two intervals in descending order make nine points, and these three chunks of three, all of which have an answer. -/
theorem two_intervals_divided : ∃ c, make [⟨20, 24⟩, ⟨0, 3⟩] 3 = .ok c ∧
    ∃ parts : Int → List Interval, Divides parts 3 [⟨20, 24⟩, ⟨0, 3⟩] 3 ∧ ∀ i : Int, c.segments i = some (parts i) := by
  obtain ⟨parts, hdivides, hanswers⟩ := make_divides (by decide) make_acrossGap
  refine ⟨_, make_acrossGap, parts, hdivides, fun i => ?_⟩
  rw [(hanswers i).1, if_neg fun hlast => absurd hlast.2 (by decide)]

/-- All points in two chunks of the largest size: the second holds the largest point, and its pieces and its hull have
no answer. -/
theorem largest_point_unanswered : ∃ c, make [⟨0, maxPoint⟩] maxPoint = .ok c ∧ c.count = 2 ∧
    c.segments 1 = none ∧ c.hull 1 = none :=
  ⟨_, make_allPoints, by decide, by decide, by decide⟩

end GridSeries.Cutter
