import GridSeries.Chunk.Settings
import GridSeries.Proofs.Chunk.Records
import GridSeries.Proofs.Selection.Completion

/-! From the settings of a run to the values of a series: the chunks of the window that is asked for hold, one after
the other, the values of that window, as far as the data goes. A window without an end that begins past the data is kept
as it is, up to the largest point, and its last chunk has no answer. -/
namespace GridSeries
open GridSeries.Interval (Covers)
open GridSeries.Statistics (filterByIntervals filterByIntervals_of_arranged filterByIntervals_eq)

namespace Cutter

variable {c : Cutter} {rs : List Interval}

/-- Filtering chunk by chunk is filtering by all intervals at once. -/
theorem flatMap_filterByIntervals {α : Type} {xs : List α} (h : c.Cuts rs) (hupper : ∀ r ∈ rs, r.upper ≤ maxPoint)
    {chunks : List Chunk} (hchunks : c.chunks = some chunks) (hxs : (xs.length : Int) ≤ maxPoint) :
    (chunks.flatMap fun chunk => filterByIntervals xs chunk.segments) = filterByIntervals xs rs := by
  rw [chunks_eq h hupper] at hchunks
  split at hchunks
  · cases hchunks
  · obtain rfl := Option.some.inj hchunks
    have hchunk : ∀ i ∈ List.range c.count, filterByIntervals xs (c.parts i) =
        (((c.parts i).flatMap Interval.points).map Int.toNat).filterMap (xs[·]?) :=
      fun i _ => filterByIntervals_of_arranged hxs (parts_arranged h i)
    rw [List.flatMap_map]
    change ((List.range c.count).flatMap fun i : Nat => filterByIntervals xs (c.parts i)) = _
    rw [List.flatMap_congr hchunk, filterByIntervals_of_arranged hxs h.arranged, ← all_points h, List.map_flatMap,
      List.filterMap_flatMap]

/-- A chunk is selected as it is, at any versions. -/
theorem chunk_selection (h : c.Cuts rs) (hupper : ∀ r ∈ rs, r.upper ≤ maxPoint) {chunks : List Chunk}
    (hchunks : c.chunks = some chunks) {chunk : Chunk} (hc : chunk ∈ chunks) {versions : SortedSet Nat}
    (hv : ∀ v ∈ versions, 1 ≤ v) : chunk.selection versions = .ok ⟨versions, chunk.segments⟩ := by
  rw [chunks_eq h hupper] at hchunks
  split at hchunks
  · cases hchunks
  · obtain rfl := Option.some.inj hchunks
    obtain ⟨i, _, rfl⟩ := List.mem_map.1 hc
    have hzero : ¬ 0 ∈ versions.toList := fun hz => absurd (hv 0 hz) (by omega)
    have hset : SortedSet.ofList versions.toList = versions := SortedSet.eq_of_mem_iff fun a => SortedSet.mem_ofList
    have hmade := Selection.make_of_arranged hzero (parts_arranged h i)
    rwa [hset] at hmade

end Cutter

namespace RunSettings

variable {s : RunSettings} {sel : Selection}

/-- The part of a list of values that the settings ask for: from the first point on, up to a number of points. -/
def windowOf {α : Type} (s : RunSettings) (xs : List α) : List α :=
  let rest := xs.drop (s.firstPoint.getD 0).toNat
  match s.pointCount with
  | some count => rest.take count.toNat
  | none => rest

/-- The point belongs to the window that the settings ask for. -/
def Asks (s : RunSettings) (p : Int) : Prop :=
  s.firstPoint.getD 0 ≤ p ∧ ∀ n ∈ s.pointCount, p < s.firstPoint.getD 0 + n

/-- The window that the settings ask for begins past a number of points, and is not over at the largest point. -/
def OpenPast (s : RunSettings) (count : Nat) : Prop := (count : Int) ≤ s.firstPoint.getD 0 ∧ s.Asks maxPoint

/-- Settings that lead to a selection ask for all points, or for one valid interval. -/
theorem intervals_of_selection (h : s.selection = .ok sel) :
    (sel.intervals = [] ∧ s.firstPoint = none ∧ s.pointCount = none) ∨
      ∃ r, sel.intervals = [r] ∧ r.isValid = true ∧ r.lower = s.firstPoint.getD 0 ∧ r.upper ≤ maxPoint ∧
        ∀ p ≤ maxPoint, p ∈ r ↔ s.Asks p := by
  have hone {r : Interval} (hr : Selection.make s.versions [r] = .ok sel) :
      sel.intervals = [r] ∧ r.isValid = true := by
    obtain ⟨_, _, harranged, hperm⟩ := Selection.of_make_eq_ok hr
    have hr := List.perm_singleton.1 hperm
    exact ⟨hr, harranged.valid r (by rw [hr]; simp)⟩
  unfold selection at h
  split at h
  · rename_i hnone
    obtain ⟨_, _, _, hperm⟩ := Selection.of_make_eq_ok h
    exact .inl ⟨hperm.eq_nil, Option.isNone_iff_eq_none.1 hnone.1, Option.isNone_iff_eq_none.1 hnone.2⟩
  · right
    unfold Selection.window at h
    cases hn : s.pointCount with
    | none =>
      rw [hn] at h
      obtain ⟨hr, hv⟩ := hone h
      refine ⟨_, hr, hv, rfl, Int.le_refl _, fun p hp => ?_⟩
      simp only [Interval.mem_iff, Asks, hn, Option.mem_def, reduceCtorEq, false_implies, implies_true, and_true,
        Selection.windowEnd]
      omega
    | some n =>
      rw [hn] at h
      dsimp only at h
      split at h
      · cases h
      · obtain ⟨hr, hv⟩ := hone h
        have hmin : minPoint ≤ 0 := by decide
        have hmax : 0 ≤ maxPoint := by decide
        refine ⟨_, hr, hv, rfl, by simp only [Selection.windowEnd, clampPoint]; omega, fun p hp => ?_⟩
        have hvalid := Interval.isValid_iff.1 hv
        simp only [Interval.mem_iff, Asks, hn, Option.mem_def, Option.some.injEq, forall_eq', Selection.windowEnd,
          clampPoint] at *
        omega

/-- Among the points of a store, the settings lead to one interval with those that they ask for. It has the largest
point only if they ask for a window past the data that is open to it. -/
theorem within_of_selection {count : Nat} (h : s.selection = .ok sel) (hc : 1 ≤ count) (hw : (count : Int) ≤ maxPoint) :
    ∃ r, Selection.within count sel.intervals = [r] ∧ r.isValid = true ∧ r.upper ≤ maxPoint ∧
      (∀ p < (count : Int), 0 ≤ p → (p ∈ r ↔ s.Asks p)) ∧ (maxPoint ∈ r ↔ s.OpenPast count) := by
  rcases intervals_of_selection h with ⟨hnil, hfirst, hnumber⟩ | ⟨r, hr, hv, hlower, hupper, hasks⟩
  · refine ⟨⟨0, count - 1⟩, if_pos hnil, Interval.isValid_iff.2 (by simp only; omega), by simp only; omega,
      fun p hp h0 => ?_, ?_⟩
    · simp only [Interval.mem_iff, Asks, hfirst, hnumber, Option.getD_none, Option.mem_def, reduceCtorEq,
        false_implies, implies_true, and_true]
      omega
    · simp only [Interval.mem_iff, OpenPast, hfirst, Option.getD_none]
      omega
  · obtain ⟨hvalid, _, hle⟩ := Selection.clip_bounds ⟨0, count - 1⟩ hv
    refine ⟨Selection.clip ⟨0, count - 1⟩ r, ?_, hvalid, by omega, fun p hp _ => ?_, ?_⟩
    · rw [hr]
      rfl
    · rw [Selection.mem_clip hp]
      exact hasks p (by omega)
    · rw [Selection.mem_clip_past hw, hlower, hasks maxPoint (Int.le_refl _), OpenPast]

private theorem arranged_of_selection (h : s.selection = .ok sel) : Interval.Arranged sel.intervals := by
  rcases intervals_of_selection h with ⟨hnil, _⟩ | ⟨r, hr, hv, _⟩
  · rw [hnil]
    exact .nil
  · rw [hr]
    exact .singleton hv

private theorem first_nonneg (h : s.selection = .ok sel) : 0 ≤ s.firstPoint.getD 0 := by
  rcases intervals_of_selection h with ⟨_, hfirst, _⟩ | ⟨r, _, hv, hlower, _⟩
  · rw [hfirst]
    exact Int.le_refl 0
  · rw [← hlower]
    exact (Interval.isValid_iff.1 hv).1

/-- The window of a list is its filter by any interval with the points that are asked for. -/
theorem filterByIntervals_eq_windowOf {α : Type} {xs : List α} {r : Interval} (h : 0 ≤ s.firstPoint.getD 0)
    (hxs : (xs.length : Int) ≤ maxPoint) (hr : ∀ p < (xs.length : Int), 0 ≤ p → (p ∈ r ↔ s.Asks p)) :
    filterByIntervals xs [r] = s.windowOf xs := by
  have hslice : s.windowOf xs = Statistics.Span.slice xs ⟨(s.firstPoint.getD 0).toNat,
      match s.pointCount with
      | some n => (s.firstPoint.getD 0).toNat + n.toNat
      | none => xs.length⟩ := by
    rw [windowOf, Statistics.Span.slice]
    cases s.pointCount with
    | none => simp
    | some n => simp
  rw [hslice, Statistics.Span.slice_eq]
  refine filterByIntervals_eq hxs List.pairwise_lt_range' fun i hi => ?_
  have hcovers : Interval.Covers [r] i ↔ s.Asks i := by
    rw [← hr i (by omega) (by omega)]
    simp [Interval.Covers]
  rw [hcovers, Statistics.Span.positions, List.mem_range'_1, Asks]
  cases s.pointCount with
  | none =>
    simp only [Option.mem_def, reduceCtorEq, false_implies, implies_true, and_true]
    omega
  | some n =>
    simp only [Option.mem_def, Option.some.injEq, forall_eq']
    omega

/-- Whatever window the settings ask for, a store whose series are sampled alike completes the selection, and the
result can be cut into chunks. The cutter hands out the values of the window chunk by chunk, and each chunk selects
exactly its pieces. Only a window past the data that is open to the largest point has a last chunk without an answer. -/
theorem chunks_of_window {store : Store} {sampling : Sampling} (hsize : 1 ≤ s.chunkSize) (hsel : s.selection = .ok sel)
    (hmemory : store.InMemory) (hsampling : store.commonSampling store.ownNames.toList = .ok (some sampling))
    (hcount : 1 ≤ sampling.count) :
    ∃ completed c, Selection.complete (some sel) store = .ok completed ∧ s.cutter completed = .ok c ∧
      (∀ i, c.segments i = none ↔ i + 1 = c.count ∧ s.OpenPast sampling.count) ∧
      (s.OpenPast sampling.count → c.chunks = none) ∧
      (¬ s.OpenPast sampling.count → ∃ chunks, c.chunks = some chunks ∧ chunks.length = c.count ∧
        (∀ i : Nat, i < c.count → ∃ hull pieces, c.hull i = some hull ∧ c.segments i = some pieces ∧
          chunks[i]? = some ⟨i, hull, pieces⟩) ∧
        (∀ {α : Type} (xs : List α), xs.length = sampling.count →
          (chunks.flatMap fun chunk => filterByIntervals xs chunk.segments) = s.windowOf xs) ∧
        ∀ chunk ∈ chunks, ∀ versions : SortedSet Nat, (∀ v ∈ versions, 1 ≤ v) →
          chunk.selection versions = .ok ⟨versions, chunk.segments⟩) := by
  have hword := hmemory.count_le hsampling
  obtain ⟨r, hwithin, hvalid, hle, hpoints, hmax⟩ := within_of_selection hsel hcount hword
  obtain ⟨c, hmake, hcuts, _⟩ := Cutter.make_of_arranged (.singleton hvalid) (by simp) hsize
  have hcompleted := Selection.complete_of_sampling hsampling hcount hmemory (arranged_of_selection hsel)
  have hupper : ∀ q ∈ [r], q.upper ≤ maxPoint := fun q hq => List.mem_singleton.1 hq ▸ hle
  have hcovers : Covers [r] maxPoint ↔ s.OpenPast sampling.count := by
    rw [← hmax]
    simp [Covers]
  have hcutter : s.cutter ⟨Selection.versionsOr sel.versions store, Selection.within sampling.count sel.intervals⟩ =
      .ok c := by
    rw [hwithin]
    exact hmake
  refine ⟨_, c, hcompleted, hcutter, fun i => ?_, fun hopen => ?_, fun hopen => ?_⟩
  · rw [Cutter.segments_eq_none_iff hcuts hupper, hcovers]
  · rw [Cutter.chunks_eq hcuts hupper, if_pos (hcovers.2 hopen)]
  · have hchunks := Cutter.chunks_eq hcuts hupper
    rw [if_neg fun hcov => hopen (hcovers.1 hcov)] at hchunks
    -- from here on only what is said of the chunks counts, not how they are made
    generalize (List.range c.count).map c.exactChunk = chunks at hchunks
    refine ⟨chunks, hchunks, Cutter.length_chunks hcuts hupper hchunks,
      fun i => Cutter.getElem?_chunks hcuts hupper hchunks, fun xs hxs => ?_,
      fun chunk hchunk versions => Cutter.chunk_selection hcuts hupper hchunks hchunk⟩
    rw [Cutter.flatMap_filterByIntervals hcuts hupper hchunks (by omega)]
    exact filterByIntervals_eq_windowOf (first_nonneg hsel) (by omega) (by rwa [hxs])

/-- A store with one series of five hourly values. -/
def hourlyStore : Store :=
  { series := (∅ : SortedMap String StoredSeries).insert "load"
      ((StoredSeries.empty ⟨⟨0⟩, 3600000, 5⟩).insert 1 [1, 2, 3, 4, 5] rfl)
    formulas := ∅ }

private theorem hourlyStore_inMemory : hourlyStore.InMemory := by
  intro name s hs
  rw [hourlyStore, SortedMap.get?_insert] at hs
  split at hs
  · cases hs
    decide
  · cases hs

private theorem hourlyStore_sampling :
    hourlyStore.commonSampling hourlyStore.ownNames.toList = .ok (some ⟨⟨0⟩, 3600000, 5⟩) := rfl

/-- Chunks of two points over a window that reaches past the five points of a series. -/
theorem hourlyStore_chunks : ∃ completed c chunks,
    Selection.complete (some ⟨∅, [⟨1, 9⟩]⟩) hourlyStore = .ok completed ∧
      ({ standard with chunkSize := 2, firstPoint := some 1, pointCount := some 9 } : RunSettings).cutter completed =
        .ok c ∧
      c.chunks = some chunks ∧
      (chunks.flatMap fun chunk => filterByIntervals [10, 20, 30, 40, 50] chunk.segments) = [20, 30, 40, 50] := by
  have hsel : ({ standard with chunkSize := 2, firstPoint := some 1, pointCount := some 9 } : RunSettings).selection =
      .ok ⟨∅, [⟨1, 9⟩]⟩ := by
    change Selection.make [] [⟨1, 9⟩] = _
    exact Selection.make_of_arranged (by simp) (.singleton rfl)
  obtain ⟨completed, c, hcompleted, hcutter, _, _, hclosed⟩ :=
    chunks_of_window (by decide) hsel hourlyStore_inMemory hourlyStore_sampling (by decide)
  have hwithin : ¬ OpenPast { standard with chunkSize := 2, firstPoint := some 1, pointCount := some 9 } 5 :=
    fun hopen => absurd hopen.1 (by decide)
  obtain ⟨chunks, hchunks, _, _, hvalues, _⟩ := hclosed hwithin
  exact ⟨completed, c, chunks, hcompleted, hcutter, hchunks, hvalues [10, 20, 30, 40, 50] rfl⟩

/-- A window without an end that begins at point 10 of five, in chunks of the largest size: the selection is completed
and cut into one chunk, which has no answer. -/
theorem window_past_data_unanswered : ∃ sel completed c,
    ({ standard with chunkSize := maxPoint, firstPoint := some 10 } : RunSettings).selection = .ok sel ∧
      Selection.complete (some sel) hourlyStore = .ok completed ∧
      ({ standard with chunkSize := maxPoint, firstPoint := some 10 } : RunSettings).cutter completed = .ok c ∧
      c.count = 1 ∧ c.segments 0 = none ∧ c.chunks = none := by
  have hmade : Cutter.make [⟨10, maxPoint⟩] maxPoint =
      .ok { placed := [(0, ⟨10, maxPoint⟩)], total := 9223372036854775798, size := 9223372036854775807 } := by
    rw [Cutter.make, Interval.arrange_of_arranged (.singleton rfl)]
    rfl
  have hsel : ({ standard with chunkSize := maxPoint, firstPoint := some 10 } : RunSettings).selection =
      .ok ⟨∅, [⟨10, maxPoint⟩]⟩ := by
    change Selection.make [] [⟨10, maxPoint⟩] = _
    exact Selection.make_of_arranged (by simp) (.singleton rfl)
  have hcompleted := Selection.complete_of_sampling hourlyStore_sampling (by decide) hourlyStore_inMemory
    (arranged_of_selection hsel)
  exact ⟨_, _, _, hsel, hcompleted, hmade, by decide, by decide, by decide⟩

end RunSettings
end GridSeries
