import GridSeries.Chunk.Cutter
import GridSeries.Proofs.Interval.Points
import GridSeries.Proofs.Outcome
import Mathlib.Data.List.Basic

/-! The pieces of chunks, seen as points: the points of all intervals form one sequence, and the exact parts of a chunk
hold the stretch of it that the chunk's number selects. They are the answer of a cutter, unless one of them ends in the
largest point. -/
namespace GridSeries.Cutter
open GridSeries.Interval (points)

/-- Cuts arranged intervals, at least one, into chunks of some points each. -/
structure Cuts (c : Cutter) (rs : List Interval) : Prop where
  arranged : Interval.Arranged rs
  nonempty : rs ≠ []
  placed_eq : c.placed = place 0 rs
  total_eq : c.total = (rs.flatMap points).length
  size_pos : 0 < c.size

/-- A cutter is made of the given intervals only, arranged, and of the size asked for. -/
theorem cuts_of_make {rs : List Interval} {size : Int} {c : Cutter} (h : make rs size = .ok c) :
    ∃ sorted, c.Cuts sorted ∧ sorted.Perm rs ∧ c.size = size.toNat := by
  unfold make at h
  by_cases hs : size < 1
  · rw [if_pos hs] at h
    cases h
  · rw [if_neg hs] at h
    by_cases he : rs.isEmpty = true
    · rw [if_pos he] at h
      cases h
    · rw [if_neg he] at h
      obtain ⟨sorted, ha, hc⟩ := Outcome.bind_eq_ok_iff.1 h
      obtain ⟨harr, hperm⟩ := Interval.arrange_spec ha
      cases hc
      refine ⟨sorted, ⟨harr, fun hn => he ?_, rfl, (Interval.length_flatMap_points sorted).symm, by simp; omega⟩,
        hperm, rfl⟩
      rw [hn] at hperm
      simp [hperm.nil_eq]

/-- Arranged intervals are cut without complaint. -/
theorem make_of_arranged {rs : List Interval} {size : Int} (h : Interval.Arranged rs) (hne : rs ≠ [])
    (hs : 1 ≤ size) : ∃ c, make rs size = .ok c ∧ c.Cuts rs ∧ c.size = size.toNat := by
  refine ⟨{ placed := place 0 rs, total := Interval.totalSize rs, size := size.toNat }, ?_,
    ⟨h, hne, rfl, (Interval.length_flatMap_points rs).symm, by simp; omega⟩, rfl⟩
  rw [make, if_neg (by omega), if_neg (by simpa using hne), Interval.arrange_of_arranged h]
  rfl

/-- Two intervals with a gap between them, in chunks of three points. -/
def acrossGap : Cutter := { placed := [(0, ⟨0, 3⟩), (4, ⟨20, 24⟩)], total := 9, size := 3 }

/-- The intervals may be given in any order. -/
theorem make_acrossGap : make [⟨20, 24⟩, ⟨0, 3⟩] 3 = .ok acrossGap := by
  have harranged : Interval.arrange [⟨20, 24⟩, ⟨0, 3⟩] = .ok [⟨0, 3⟩, ⟨20, 24⟩] := by
    simp [Interval.arrange, Interval.isValid, Interval.firstMeeting?, Interval.meets, List.mergeSort]
  rw [make, harranged]
  rfl

/-- All points there are, in chunks of the largest size. -/
def allPoints : Cutter :=
  { placed := [(0, ⟨0, maxPoint⟩)], total := 9223372036854775808, size := 9223372036854775807 }

/-- Both bounds of the interval and the size are words with a sign, but the number of points is not. -/
theorem make_allPoints : make [⟨0, maxPoint⟩] maxPoint = .ok allPoints := by
  rw [make, Interval.arrange_of_arranged (.singleton rfl)]
  rfl

/-- The part of an interval whose positions lie from `start` on, before `stop`, in numbers of any size. -/
def part? (start stop : Nat) (e : Nat × Interval) : Option Interval :=
  let low := max start e.1 - e.1
  let high := min stop (e.1 + e.2.size) - e.1
  if low < high then some ⟨e.2.lower + low, e.2.lower + high - 1⟩ else none

/-- A part lies inside its interval and is not empty. -/
theorem of_part?_eq_some {start stop : Nat} {e : Nat × Interval} {s : Interval}
    (h : part? start stop e = some s) : s.lower ≤ s.upper ∧ e.2.lower ≤ s.lower ∧ s.upper ≤ e.2.upper := by
  unfold part? at h
  dsimp only at h
  split at h
  · cases h
    simp only [Interval.size] at *
    omega
  · cases h

private theorem part?_eq_none_of_before {start stop : Nat} {e : Nat × Interval} (h : e.1 + e.2.size ≤ start) :
    part? start stop e = none := by
  rw [part?]
  exact if_neg (by omega)

private theorem part?_eq_none_of_after {start stop : Nat} {e : Nat × Interval} (h : stop ≤ e.1) :
    part? start stop e = none := by
  rw [part?]
  exact if_neg (by omega)

/-- The points of a part are those of its interval from one position on, up to another. -/
private theorem part?_points (start stop before : Nat) (r : Interval) :
    (part? start stop (before, r)).toList.flatMap points =
      (r.points.drop (start - before)).take (stop - max start before) := by
  rw [part?]
  dsimp only
  split
  · rename_i h
    have hl : max start before - before = start - before := by omega
    rw [Option.toList_some, List.flatMap_singleton, Interval.points_part h (by omega), hl]
    apply List.ext_getElem
    · simp only [List.length_take, List.length_drop, Interval.length_points]
      omega
    · intro n _ _
      simp
  · rename_i h
    rw [Option.toList_none, List.flatMap_nil, eq_comm, List.eq_nil_iff_length_eq_zero]
    simp only [List.length_take, List.length_drop, Interval.length_points]
    omega

private theorem piece?_of_lt {start stop : Nat} {e : Nat × Interval} (hlower : 0 ≤ e.2.lower)
    (h : ∀ r, part? start stop e = some r → r.upper < maxPoint) : piece? start stop e = some (part? start stop e) := by
  have hmin := Word.minSigned_eq
  unfold piece?
  unfold part? at h ⊢
  dsimp only at h ⊢
  split
  · rename_i hlt
    have hupper := h _ (if_pos hlt)
    rw [maxPoint] at hupper
    dsimp only at hupper
    rw [Word.signed?_of_fits (by omega) (by omega)]
    rfl
  · rfl

private theorem piece?_of_le {start stop : Nat} {e : Nat × Interval} {r : Interval} (h : part? start stop e = some r)
    (hupper : maxPoint ≤ r.upper) : piece? start stop e = none := by
  unfold part? at h
  unfold piece?
  dsimp only at h ⊢
  split at h
  · rename_i hlt
    cases h
    rw [maxPoint] at hupper
    dsimp only at hupper
    rw [if_pos hlt, Word.signed?_of_lt (by omega)]
    rfl
  · cases h

private theorem le_of_mem_place {before : Nat} {rs : List Interval} {e : Nat × Interval} (h : e ∈ place before rs) :
    before ≤ e.1 := by
  induction rs generalizing before with
  | nil => cases h
  | cons r rest ih =>
    rcases List.mem_cons.1 h with rfl | h
    · exact Nat.le_refl _
    · have := ih h
      omega

private theorem place_ascending (before : Nat) (rs : List Interval) :
    (place before rs).Pairwise fun e f => e.1 ≤ f.1 := by
  induction rs generalizing before with
  | nil => exact .nil
  | cons r rest ih =>
    refine List.pairwise_cons.2 ⟨fun f hf => ?_, ih _⟩
    have := le_of_mem_place hf
    omega

/-- Placing intervals leaves them as they are. -/
@[simp]
theorem map_place (before : Nat) (rs : List Interval) : (place before rs).map (·.2) = rs := by
  induction rs generalizing before with
  | nil => rfl
  | cons r rest ih => simp [place, ih]

/-- A placed interval is one of the intervals. -/
theorem mem_of_mem_place {before : Nat} {rs : List Interval} {e : Nat × Interval} (h : e ∈ place before rs) :
    e.2 ∈ rs := by
  rw [← map_place before rs]
  exact List.mem_map_of_mem h

/-- Skipping to the last interval that begins in time loses no piece. -/
private theorem filterMap_drop_place (start stop before : Nat) (rs : List Interval) :
    ((place before rs).drop ((place before rs).countP (fun e => decide (e.1 ≤ start)) - 1)).filterMap
        (part? start stop) = (place before rs).filterMap (part? start stop) := by
  induction rs generalizing before with
  | nil => rfl
  | cons r rest ih =>
    rw [place, List.countP_cons]
    cases ht : (place (before + r.size) rest).countP fun e => decide (e.1 ≤ start) with
    | zero =>
      split <;> rfl
    | succ n =>
      obtain ⟨e, he, hle⟩ := List.countP_pos_iff.1 (Nat.lt_of_lt_of_eq (Nat.succ_pos n) ht.symm)
      have hbefore := le_of_mem_place he
      have hle := of_decide_eq_true hle
      have hnone : part? start stop (before, r) = none := part?_eq_none_of_before (by simp only; omega)
      have hih := ih (before + r.size)
      rw [ht, Nat.add_sub_cancel] at hih
      rw [if_pos (decide_eq_true (by omega)), Nat.add_sub_cancel, List.drop_succ_cons,
        List.filterMap_cons_none hnone, hih]

/-- Stopping at the first interval that begins too late loses no piece. -/
private theorem filterMap_takeWhile {start stop : Nat} {l : List (Nat × Interval)}
    (h : l.Pairwise fun e f => e.1 ≤ f.1) :
    (l.takeWhile fun e => decide (e.1 < stop)).filterMap (part? start stop) = l.filterMap (part? start stop) := by
  induction l with
  | nil => rfl
  | cons e rest ih =>
    have he := List.pairwise_cons.1 h
    by_cases hlt : e.1 < stop
    · rw [List.takeWhile_cons, if_pos (decide_eq_true hlt), List.filterMap_cons, List.filterMap_cons, ih he.2]
    · rw [List.takeWhile_cons, if_neg (by simpa using hlt), List.filterMap_nil, eq_comm, List.filterMap_eq_nil_iff]
      intro f hf
      apply part?_eq_none_of_after
      rcases List.mem_cons.1 hf with rfl | hf
      · omega
      · have := he.1 f hf
        omega

private theorem pieces_points (start stop before : Nat) (rs : List Interval) :
    ((place before rs).filterMap (part? start stop)).flatMap points =
      ((rs.flatMap points).drop (start - before)).take (stop - max start before) := by
  induction rs generalizing before with
  | nil => simp [place]
  | cons r rest ih =>
    have hsplit : ((place before (r :: rest)).filterMap (part? start stop)).flatMap points =
        (part? start stop (before, r)).toList.flatMap points ++
          ((place (before + r.size) rest).filterMap (part? start stop)).flatMap points := by
      rw [place, List.filterMap_cons]
      cases part? start stop (before, r) with
      | none => rfl
      | some s => simp
    rw [hsplit, part?_points, ih, List.flatMap_cons, List.drop_append, List.take_append]
    simp only [List.length_drop, Interval.length_points]
    congr 2
    · omega
    · congr 1
      omega

/-- The exact parts of a chunk. -/
def parts (c : Cutter) (index : Int) : List Interval :=
  if c.hasChunk index then
    let (start, stop) := c.bounds index.toNat
    (c.touched start stop).filterMap (part? start stop)
  else []

variable {c : Cutter} {rs : List Interval}

private theorem Cuts.mem_of_mem_touched (h : c.Cuts rs) {start stop : Nat} {e : Nat × Interval}
    (he : e ∈ c.touched start stop) :
    e.2 ∈ rs := by
  have hplaced : e ∈ place 0 rs := h.placed_eq ▸ List.mem_of_mem_drop ((List.takeWhile_sublist _).subset he)
  exact mem_of_mem_place hplaced

/-- The parts of a chunk are those of all intervals: the ones that are skipped have none. -/
theorem parts_eq (h : c.Cuts rs) {i : Nat} (hi : i < c.count) :
    c.parts i = (place 0 rs).filterMap (part? (i * c.size) (min (i * c.size + c.size) c.total)) := by
  have hchunk : c.hasChunk i = true := by
    simp only [hasChunk, Bool.and_eq_true, decide_eq_true_eq]
    omega
  have hkept (start stop : Nat) :
      (c.touched start stop).filterMap (part? start stop) = (place 0 rs).filterMap (part? start stop) := by
    rw [touched, firstTouched, h.placed_eq, filterMap_takeWhile ((place_ascending 0 rs).drop), filterMap_drop_place]
  rw [parts, if_pos hchunk]
  exact hkept _ _

/-- A chunk that does not exist has no parts. -/
theorem parts_of_not_hasChunk {i : Int} (h : i < 0 ∨ c.count ≤ i) : c.parts i = [] := by
  have hchunk : ¬ c.hasChunk i = true := by
    simp only [hasChunk, Bool.and_eq_true, decide_eq_true_eq]
    omega
  rw [parts, if_neg hchunk]

/-- The parts of a chunk hold its stretch of the sequence of points. -/
theorem parts_points (h : c.Cuts rs) {i : Nat} (hi : i < c.count) :
    (c.parts i).flatMap points = ((rs.flatMap points).drop (i * c.size)).take c.size := by
  rw [parts_eq h hi, pieces_points, h.total_eq]
  apply List.ext_getElem
  · simp only [List.length_take, List.length_drop]
    omega
  · intro n _ _
    simp

/-- The pieces of a chunk are its exact parts, unless one of those ends in the largest point. -/
theorem segments_of_lt (h : c.Cuts rs) {i : Int} (hparts : ∀ s ∈ c.parts i, s.upper < maxPoint) :
    c.segments i = some (c.parts i) := by
  rw [parts] at hparts ⊢
  rw [segments]
  split
  · rename_i hchunk
    rw [if_pos hchunk] at hparts
    dsimp only at hparts ⊢
    have hpieces : ∀ e ∈ c.touched (c.bounds i.toNat).1 (c.bounds i.toNat).2,
        piece? (c.bounds i.toNat).1 (c.bounds i.toNat).2 e =
          some (part? (c.bounds i.toNat).1 (c.bounds i.toNat).2 e) := fun e he => by
      have hvalid := Interval.isValid_iff.1 (h.arranged.valid e.2 (h.mem_of_mem_touched he))
      exact piece?_of_lt hvalid.1 fun r hr => hparts r (List.mem_filterMap.2 ⟨e, he, hr⟩)
    rw [Outcome.mapM_eq_some hpieces]
    exact congrArg some List.filterMap_map
  · rfl

/-- A part that ends in the largest point leaves its chunk without an answer. -/
theorem segments_of_le {i : Int} {s : Interval} (hs : s ∈ c.parts i) (hupper : maxPoint ≤ s.upper) :
    c.segments i = none := by
  rw [parts] at hs
  rw [segments]
  split at hs
  · rename_i hchunk
    dsimp only at hs
    obtain ⟨e, he, hpart⟩ := List.mem_filterMap.1 hs
    rw [if_pos hchunk]
    dsimp only
    rw [Outcome.mapM_eq_none he (piece?_of_le hpart hupper)]
    rfl
  · cases hs

private theorem flatMap_stretches {α : Type} (l : List α) (size n : Nat) :
    ((List.range n).flatMap fun i => (l.drop (i * size)).take size) = l.take (n * size) := by
  induction n with
  | zero => simp
  | succ n ih =>
    rw [List.range_succ, List.flatMap_append, ih, List.flatMap_singleton, Nat.succ_mul,
      ← List.take_append_drop (n * size) (l.take (n * size + size)), List.take_take, List.drop_take]
    congr 2 <;> omega

/-- All chunks together hold exactly the points of the intervals, in the order of the intervals. -/
theorem all_points (h : c.Cuts rs) :
    ((List.range c.count).flatMap fun i : Nat => (c.parts i).flatMap points) = rs.flatMap points := by
  have hchunk : ∀ i ∈ List.range c.count,
      (c.parts i).flatMap points = ((rs.flatMap points).drop (i * c.size)).take c.size :=
    fun i hi => parts_points h (List.mem_range.1 hi)
  rw [List.flatMap_congr hchunk, flatMap_stretches, List.take_of_length_le]
  rw [← h.total_eq, count]
  have hdiv := Nat.div_add_mod (c.total + c.size - 1) c.size
  have hmod := Nat.mod_lt (c.total + c.size - 1) h.size_pos
  rw [Nat.mul_comm] at hdiv
  omega

end GridSeries.Cutter
