import GridSeries.Proofs.Chunk.Partition

/-! The chunk of a point. A point that is covered has one position in the sequence of all points, and that position
divided by the size of chunks is the number of the one chunk that holds the point. The pieces of a chunk tell so wherever
they have an answer. -/
namespace GridSeries.Cutter
open GridSeries.Interval (Covers)

/-- The interval that is found for a covered point tells the position of the point in the sequence. -/
private theorem exists_find?_place {rs : List Interval} {p : Int} (hp : Covers rs p) (before : Nat) :
    ∃ e n, (place before rs).find? (fun e => decide (p ∈ e.2)) = some e ∧
      (rs.flatMap Interval.points)[n]? = some p ∧ e.1 + (p - e.2.lower).toNat = before + n := by
  induction rs generalizing before with
  | nil =>
    obtain ⟨r, hr, _⟩ := hp
    cases hr
  | cons r rest ih =>
    rw [place, List.find?_cons]
    by_cases hpr : p ∈ r
    · have hbounds := Interval.mem_iff.1 hpr
      have hlt : (p - r.lower).toNat < r.points.length := by
        rw [Interval.length_points, Interval.size]
        omega
      refine ⟨(before, r), (p - r.lower).toNat, by simp [hpr], ?_, rfl⟩
      rw [List.flatMap_cons, List.getElem?_append_left hlt, List.getElem?_eq_getElem hlt]
      simp only [Interval.points, List.getElem_map, List.getElem_range, Option.some.injEq]
      omega
    · have hrest : Covers rest p := by
        obtain ⟨s, hs, hps⟩ := hp
        rcases List.mem_cons.1 hs with rfl | hs
        · exact absurd hps hpr
        · exact ⟨s, hs, hps⟩
      obtain ⟨e, n, hfind, hpoint, hposition⟩ := ih hrest (before + r.size)
      refine ⟨e, r.size + n, by simpa [hpr] using hfind, ?_, by omega⟩
      rw [List.flatMap_cons, List.getElem?_append_right (by simp), Interval.length_points, Nat.add_sub_cancel_left]
      exact hpoint

/-- An entry of a list without repetitions lies in one of its stretches of equal length: the one that its position
falls into. -/
private theorem mem_stretch_iff {α : Type} {l : List α} (hl : l.Nodup) {a : α} {n size : Nat} (ha : l[n]? = some a)
    (hsize : 0 < size) (i : Nat) : a ∈ (l.drop (i * size)).take size ↔ n / size = i := by
  rw [Nat.div_eq_iff hsize]
  constructor
  · intro hmem
    obtain ⟨k, hk⟩ := List.mem_iff_getElem?.1 hmem
    rw [List.getElem?_take, List.getElem?_drop] at hk
    split at hk
    · have hkl : i * size + k < l.length := (List.getElem?_eq_some_iff.1 hk).1
      have hn := (List.getElem?_inj hkl hl).1 (hk.trans ha.symm)
      omega
    · cases hk
  · rintro ⟨hlower, hupper⟩
    refine List.mem_iff_getElem?.2 ⟨n - i * size, ?_⟩
    rw [List.getElem?_take, if_pos (by omega), List.getElem?_drop, Nat.add_sub_cancel' hlower, ha]

variable {c : Cutter} {rs : List Interval} {p q : Int}

/-- The chunk that is found for a point is the one that the point's position falls into. -/
private theorem exists_position (h : c.Cuts rs) (hp : Covers rs p) :
    ∃ n, (rs.flatMap Interval.points)[n]? = some p ∧ c.chunkOf p = n / c.size := by
  obtain ⟨⟨before, r⟩, n, hfind, hpoint, hposition⟩ := exists_find?_place hp 0
  refine ⟨n, hpoint, ?_⟩
  rw [chunkOf, h.placed_eq, hfind]
  dsimp only at hposition ⊢
  rw [hposition, Nat.zero_add]

private theorem chunkOf_lt_count (h : c.Cuts rs) (hp : Covers rs p) : c.chunkOf p < c.count := by
  obtain ⟨n, hpoint, hchunk⟩ := exists_position h hp
  obtain ⟨hlt, _⟩ := List.getElem?_eq_some_iff.1 hpoint
  obtain ⟨_, _, hcount⟩ := count_bounds h
  rw [hchunk, Nat.div_lt_iff_lt_mul h.size_pos]
  have htotal := h.total_eq
  omega

private theorem covers_parts_iff (h : c.Cuts rs) (hp : Covers rs p) (i : Int) :
    Covers (c.parts i) p ↔ i = c.chunkOf p := by
  have hlt := chunkOf_lt_count h hp
  by_cases hi : i < 0 ∨ c.count ≤ i
  · rw [parts_of_not_hasChunk hi]
    refine iff_of_false ?_ (by omega)
    rintro ⟨s, hs, _⟩
    cases hs
  · obtain ⟨k, rfl⟩ := Int.eq_ofNat_of_zero_le (show 0 ≤ i by omega)
    obtain ⟨n, hpoint, hchunk⟩ := exists_position h hp
    have hnodup : (rs.flatMap Interval.points).Nodup := h.arranged.points_ascending.imp fun hlt => ne_of_lt hlt
    rw [← mem_points_parts, parts_points h (by omega), mem_stretch_iff hnodup hpoint h.size_pos, hchunk]
    omega

private theorem chunkOf_of_not_covers (h : c.Cuts rs) (hp : ¬ Covers rs p) : c.chunkOf p = 0 := by
  have hnone : c.placed.find? (fun e => decide (p ∈ e.2)) = none := by
    rw [List.find?_eq_none, h.placed_eq]
    intro e he hpe
    exact hp ⟨e.2, mem_of_mem_place he, of_decide_eq_true hpe⟩
  rw [chunkOf, hnone]

/-- Positions grow with the points, and so do the chunks that they fall into. -/
theorem chunkOf_mono (h : c.Cuts rs) (hp : Covers rs p) (hq : Covers rs q) (hpq : p ≤ q) :
    c.chunkOf p ≤ c.chunkOf q := by
  obtain ⟨n, hn, hchunkp⟩ := exists_position h hp
  obtain ⟨k, hk, hchunkq⟩ := exists_position h hq
  obtain ⟨hnlt, hn⟩ := List.getElem?_eq_some_iff.1 hn
  obtain ⟨hklt, hk⟩ := List.getElem?_eq_some_iff.1 hk
  have hnk : n ≤ k := by
    by_contra hlt
    have hascending := List.pairwise_iff_getElem.1 h.arranged.points_ascending k n hklt hnlt (by omega)
    omega
  rw [hchunkp, hchunkq]
  exact Nat.div_le_div_right hnk

/-- Looking up the chunk of a point inverts taking the pieces of a chunk. -/
structure Locates (c : Cutter) (rs : List Interval) : Prop where
  /-- A covered point has a chunk, and of all pieces only those of that chunk hold the point. -/
  exists_chunk : ∀ p, Covers rs p → c.hasChunk (c.chunkOf p) = true
  covers_iff : ∀ p, Covers rs p → ∀ i pieces, c.segments i = some pieces → (Covers pieces p ↔ i = c.chunkOf p)
  /-- The last chunk of intervals with the largest point is the one whose pieces have no answer. -/
  eq_none_iff : ∀ i, c.segments i = none ↔ i + 1 = c.count ∧ Covers rs maxPoint
  /-- No chunk holds any other point, for which zero stands. -/
  not_covers : ∀ p, ¬ Covers rs p → ∀ i pieces, c.segments i = some pieces → ¬ Covers pieces p
  eq_zero : ∀ p, ¬ Covers rs p → c.chunkOf p = 0
  mono : ∀ p q, Covers rs p → Covers rs q → p ≤ q → c.chunkOf p ≤ c.chunkOf q

private theorem locates_of_cuts (h : c.Cuts rs) (hupper : ∀ r ∈ rs, r.upper ≤ maxPoint) : c.Locates rs where
  exists_chunk p hp := by
    have hlt := chunkOf_lt_count h hp
    simp only [hasChunk, Bool.and_eq_true, decide_eq_true_eq]
    omega
  covers_iff p hp i pieces hpieces := by
    rw [eq_parts_of_segments h hupper hpieces]
    exact covers_parts_iff h hp i
  eq_none_iff := segments_eq_none_iff h hupper
  not_covers p hp i pieces hpieces hmem := by
    rw [eq_parts_of_segments h hupper hpieces] at hmem
    exact hp (covers_of_covers_parts h hmem)
  eq_zero p := chunkOf_of_not_covers h
  mono p q := chunkOf_mono h

/-- Whatever intervals and size are given, a cutter that is made of them finds for every point of the intervals the one
chunk that holds it, later chunks for later points, and number zero for all other points. The pieces of the chunk hold
the point, unless it is the last chunk and the intervals hold the largest point of all: then it has no answer. -/
theorem make_locates {rs : List Interval} {size : Int} {c : Cutter} (hupper : ∀ r ∈ rs, r.upper ≤ maxPoint)
    (h : make rs size = .ok c) : c.Locates rs := by
  obtain ⟨sorted, hcuts, hperm, _⟩ := cuts_of_make h
  have hcov := Interval.covers_of_perm hperm
  have hsorted := locates_of_cuts hcuts fun r hr => hupper r (hperm.mem_iff.1 hr)
  refine { hsorted with
    exists_chunk := ?_, covers_iff := ?_, eq_none_iff := ?_, not_covers := ?_, eq_zero := ?_, mono := ?_ }
  · simpa only [hcov] using hsorted.exists_chunk
  · simpa only [hcov] using hsorted.covers_iff
  · simpa only [hcov] using hsorted.eq_none_iff
  · simpa only [hcov] using hsorted.not_covers
  · simpa only [hcov] using hsorted.eq_zero
  · simpa only [hcov] using hsorted.mono

/-- Chunks of three over a gap: the point 21 past it lies in the second chunk, and the point 10 within it in none. -/
theorem two_intervals_located : ∃ c, make [⟨20, 24⟩, ⟨0, 3⟩] 3 = .ok c ∧ c.chunkOf 21 = 1 ∧
    (∀ i pieces, c.segments i = some pieces → (Covers pieces 21 ↔ i = 1) ∧ ¬ Covers pieces 10) ∧
    ∀ i, c.segments i ≠ none := by
  have hlocates := make_locates (by decide) make_acrossGap
  refine ⟨_, make_acrossGap, by decide, fun i pieces hpieces => ⟨?_, ?_⟩, fun i hnone => ?_⟩
  · exact hlocates.covers_iff 21 ⟨⟨20, 24⟩, by decide, by decide⟩ i pieces hpieces
  · exact hlocates.not_covers 10 (by decide) i pieces hpieces
  · exact absurd ((hlocates.eq_none_iff i).1 hnone).2 (by decide)

/-- All points in two chunks of the largest size: the largest point is looked up in the second, whose pieces have no
answer. -/
theorem largest_point_in_unanswered_chunk : ∃ c, make [⟨0, maxPoint⟩] maxPoint = .ok c ∧ c.chunkOf maxPoint = 1 ∧
    c.segments 1 = none :=
  ⟨_, make_allPoints, by decide, by decide⟩

end GridSeries.Cutter
