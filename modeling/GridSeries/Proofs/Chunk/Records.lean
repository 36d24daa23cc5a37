import GridSeries.Chunk.Run
import GridSeries.Proofs.Chunk.Partition
import Mathlib.Algebra.Ring.Nat
import Mathlib.Data.List.Nodup

/-! The records of a run. There is one for each chunk, in the place of the chunk, and the points they tell of are all the
points of the cutter. A cutter of which one chunk has no answer has no chunks to run over. -/
namespace GridSeries
open GridSeries.Interval (Covers hullOf)

variable {α : Type} {c : Cutter} {rs : List Interval} {job : Chunk → Except String α} {elapsed : Chunk → Int}

namespace Cutter

def exactChunk (c : Cutter) (index : Nat) : Chunk := ⟨index, hullOf (c.parts index), c.parts index⟩

private theorem chunk_eq (h : c.Cuts rs) (hupper : ∀ r ∈ rs, r.upper ≤ maxPoint) (i : Nat) :
    c.chunk i = if (i : Int) + 1 = c.count ∧ Covers rs maxPoint then none else some (c.exactChunk i) := by
  rw [chunk, hull_eq h hupper, segments_eq h hupper]
  split <;> rfl

/-- A cutter hands out its exact chunks, unless one of them holds the largest point. -/
theorem chunks_eq (h : c.Cuts rs) (hupper : ∀ r ∈ rs, r.upper ≤ maxPoint) :
    c.chunks = if Covers rs maxPoint then none else some ((List.range c.count).map c.exactChunk) := by
  rw [chunks]
  split
  · rename_i hmax
    obtain ⟨hcount, _⟩ := count_bounds h
    have hlast : c.chunk (c.count - 1) = none := by
      rw [chunk_eq h hupper, if_pos ⟨by omega, hmax⟩]
    exact Outcome.mapM_eq_none (List.mem_range.2 (by omega)) hlast
  · rename_i hmax
    refine Outcome.mapM_eq_some fun i _ => ?_
    rw [chunk_eq h hupper, if_neg fun hlast => hmax hlast.2]

/-- The chunk in each place has that number, and the pieces and the hull that the cutter gives for it. -/
theorem getElem?_chunks (h : c.Cuts rs) (hupper : ∀ r ∈ rs, r.upper ≤ maxPoint) {chunks : List Chunk}
    (hchunks : c.chunks = some chunks) {i : Nat} (hi : i < c.count) :
    ∃ hull pieces, c.hull i = some hull ∧ c.segments i = some pieces ∧ chunks[i]? = some ⟨i, hull, pieces⟩ := by
  rw [chunks_eq h hupper] at hchunks
  split at hchunks
  · cases hchunks
  · rename_i hmax
    obtain rfl := Option.some.inj hchunks
    have hanswered : ¬ ((i : Int) + 1 = c.count ∧ Covers rs maxPoint) := fun hlast => hmax hlast.2
    refine ⟨hullOf (c.parts i), c.parts i, ?_, ?_, ?_⟩
    · rw [hull_eq h hupper, if_neg hanswered]
    · rw [segments_eq h hupper, if_neg hanswered]
    · rw [List.getElem?_map, List.getElem?_range hi]
      rfl

/-- There are as many chunks as are counted. -/
theorem length_chunks (h : c.Cuts rs) (hupper : ∀ r ∈ rs, r.upper ≤ maxPoint) {chunks : List Chunk}
    (hchunks : c.chunks = some chunks) : chunks.length = c.count := by
  rw [chunks_eq h hupper] at hchunks
  split at hchunks
  · cases hchunks
  · obtain rfl := Option.some.inj hchunks
    simp

/-- The points of the chunks are as many as the cutter has. -/
theorem sum_pointCount (h : c.Cuts rs) (hupper : ∀ r ∈ rs, r.upper ≤ maxPoint) {chunks : List Chunk}
    (hchunks : c.chunks = some chunks) : (chunks.map Chunk.pointCount).sum = c.total := by
  rw [chunks_eq h hupper] at hchunks
  split at hchunks
  · cases hchunks
  · obtain rfl := Option.some.inj hchunks
    have hcounts : ((List.range c.count).map c.exactChunk).map Chunk.pointCount =
        (List.range c.count).map fun i : Nat => ((c.parts i).flatMap Interval.points).length := by
      rw [List.map_map]
      exact List.map_congr_left fun i _ => (Interval.length_flatMap_points (c.parts i)).symm
    rw [hcounts, ← List.length_flatMap, all_points h, h.total_eq]

end Cutter

namespace ChunkRecord

/-- A record tells what became of a chunk: which one it is, how far it reaches, how many points it has, and whether its
job succeeded or else with what text it failed. -/
structure Tells (r : ChunkRecord) (told : Chunk) (outcome : Except String α) : Prop where
  chunk : r.chunk = told.index
  lower : r.lower = told.hull.lower
  upper : r.upper = told.hull.upper
  points : r.points = (told.segments.flatMap Interval.points).length
  succeeded : ∀ a, outcome = .ok a → r.status = "ok" ∧ r.error = none
  failed : ∀ text, outcome = .error text → r.status = "error" ∧ r.error = some text

private theorem tells_ofOutcome (chunk : Chunk) (outcome : Except String α) (elapsed : Int) :
    (ofOutcome chunk outcome elapsed).Tells chunk outcome where
  chunk := rfl
  lower := rfl
  upper := rfl
  points := (Interval.length_flatMap_points chunk.segments).symm
  succeeded a h := by
    subst h
    exact ⟨rfl, rfl⟩
  failed text h := by
    subst h
    exact ⟨rfl, rfl⟩

/-- The record without the time its job took. -/
def untimed (r : ChunkRecord) : ChunkRecord := { r with elapsed := 0 }

/-- Two records of a chunk with the same outcome differ in the time at most. -/
theorem Tells.untimed_eq {r s : ChunkRecord} {chunk : Chunk} {outcome : Except String α} (hr : r.Tells chunk outcome)
    (hs : s.Tells chunk outcome) : r.untimed = s.untimed := by
  have hend : r.status = s.status ∧ r.error = s.error := by
    cases outcome with
    | ok a =>
      obtain ⟨hrs, hre⟩ := hr.succeeded a rfl
      obtain ⟨hss, hse⟩ := hs.succeeded a rfl
      exact ⟨hrs.trans hss.symm, hre.trans hse.symm⟩
    | error text =>
      obtain ⟨hrs, hre⟩ := hr.failed text rfl
      obtain ⟨hss, hse⟩ := hs.failed text rfl
      exact ⟨hrs.trans hss.symm, hre.trans hse.symm⟩
  unfold untimed
  rw [hr.chunk, hr.lower, hr.upper, hr.points, hend.1, hend.2, hs.chunk, hs.lower, hs.upper, hs.points]

end ChunkRecord

namespace RunSummary

/-- The summary of a run that did a job for every chunk of a cutter. -/
structure Accounts (s : RunSummary) (c : Cutter) (job : Chunk → Except String α) : Prop where
  length : s.records.length = c.count
  record : ∀ i : Nat, i < c.count → ∃ hull pieces r, c.hull i = some hull ∧ c.segments i = some pieces ∧
    s.records[i]? = some r ∧ r.Tells ⟨i, hull, pieces⟩ (job ⟨i, hull, pieces⟩)
  success : s.success = (s.records.filter fun r => decide (r.status = "ok")).length
  count : s.success + s.failure = c.count
  points : (s.records.map (·.points)).sum = c.total

/-- Whatever becomes of other chunks, the record of a chunk depends on its own outcome only. -/
theorem Accounts.untimed_eq {s t : RunSummary} {other : Chunk → Except String α} (hs : s.Accounts c job)
    (ht : t.Accounts c other) {i : Nat} (hi : i < c.count)
    (hsame : ∀ chunk, c.chunk i = some chunk → other chunk = job chunk) :
    s.records[i]?.map ChunkRecord.untimed = t.records[i]?.map ChunkRecord.untimed := by
  obtain ⟨hull, pieces, r, hhull, hpieces, hr, htells⟩ := hs.record i hi
  obtain ⟨hull', pieces', r', hhull', hpieces', hr', htells'⟩ := ht.record i hi
  rw [hhull] at hhull'
  rw [hpieces] at hpieces'
  cases hhull'
  cases hpieces'
  have hchunk : c.chunk i = some ⟨i, hull, pieces⟩ := by
    rw [Cutter.chunk, hhull, hpieces]
    rfl
  rw [hsame _ hchunk] at htells'
  rw [hr, hr', Option.map_some, Option.map_some]
  exact congrArg some (htells.untimed_eq htells')

end RunSummary

namespace Run

/-- Every chunk has one record, made of the outcome of its own job. -/
theorem records_eq (chunks : List Chunk) (job : Chunk → Except String α) (elapsed : Chunk → Int) :
    records chunks job elapsed = chunks.map fun chunk => ChunkRecord.ofOutcome chunk (job chunk) (elapsed chunk) := by
  rw [records, outcomes, List.map_map]
  rfl

/-- A run over the chunks of a cutter accounts for all of them, wherever the cutter has chunks to run over. -/
theorem accounts_ofRecords (h : c.Cuts rs) (hupper : ∀ r ∈ rs, r.upper ≤ maxPoint) {chunks : List Chunk}
    (hchunks : c.chunks = some chunks) (job : Chunk → Except String α) (elapsed : Chunk → Int) :
    (RunSummary.ofRecords (records chunks job elapsed)).Accounts c job := by
  have hlength : (records chunks job elapsed).length = c.count := by
    rw [records_eq, List.length_map, Cutter.length_chunks h hupper hchunks]
  constructor
  · exact hlength
  · intro i hi
    obtain ⟨hull, pieces, hhull, hpieces, hchunk⟩ := Cutter.getElem?_chunks h hupper hchunks hi
    refine ⟨hull, pieces, _, hhull, hpieces, ?_, ChunkRecord.tells_ofOutcome _ _ (elapsed ⟨i, hull, pieces⟩)⟩
    rw [RunSummary.ofRecords, records_eq, List.getElem?_map, hchunk]
    rfl
  · exact List.countP_eq_length_filter
  · exact (Nat.add_sub_cancel' List.countP_le_length).trans hlength
  · rw [← Cutter.sum_pointCount h hupper hchunks, RunSummary.ofRecords, records_eq, List.map_map]
    rfl

end Run
end GridSeries
