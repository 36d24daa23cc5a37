import GridSeries.Chunk.Manifest
import GridSeries.Proofs.Chunk.Records

/-! Runs by several workers. Each worker that is free takes any of the chunks that wait, and the jobs end in any order;
a record is kept in the place that its chunk has among all chunks. Every chunk is handed out once all the same, no run
gets stuck, and its summary is that of the chunks taken in order. -/
namespace GridSeries.Run
open GridSeries.Interval (Covers)

/-- Where a run stands: the chunks that wait, those handed to a job so far, and those whose job has not ended yet, each
with its place among all chunks; and the places themselves, which are filled as jobs end. -/
structure Progress where
  waiting : List (Chunk × Nat)
  handed : List (Chunk × Nat)
  working : List (Chunk × Nat)
  places : List (Option ChunkRecord)

namespace Progress

def start (chunks : List Chunk) : Progress := ⟨chunks.zipIdx, [], [], chunks.map fun _ => none⟩

def IsOver (p : Progress) : Prop := p.waiting = [] ∧ p.working = []

/-- The records so far, as they stand in their places. -/
def summary (p : Progress) : RunSummary := .ofRecords (p.places.filterMap id)

end Progress

variable {α : Type}

/-- A worker that is free takes a chunk, whichever it is, or one of the jobs ends. -/
inductive Step (workers : Nat) (job : Chunk → Except String α) : Progress → Progress → Prop
  | take (task : Chunk × Nat) (before after handed working : List (Chunk × Nat)) (places : List (Option ChunkRecord))
      (free : working.length < workers) :
      Step workers job ⟨before ++ task :: after, handed, working, places⟩
        ⟨before ++ after, handed ++ [task], working ++ [task], places⟩
  | finish (task : Chunk × Nat) (waiting handed before after : List (Chunk × Nat))
      (places : List (Option ChunkRecord)) (elapsed : Int) :
      Step workers job ⟨waiting, handed, before ++ task :: after, places⟩
        ⟨waiting, handed, before ++ after, places.set task.2 (some (.ofOutcome task.1 (job task.1) elapsed))⟩

/-- A run over some chunks can stand so after a number of steps. -/
inductive Reaches (workers : Nat) (chunks : List Chunk) (job : Chunk → Except String α) : Nat → Progress → Prop
  | start : Reaches workers chunks job 0 (.start chunks)
  | step {n : Nat} {p q : Progress} :
      Reaches workers chunks job n p → Step workers job p q → Reaches workers chunks job (n + 1) q

/-- The number of workers of a run: the one that its settings give, or else that of the machine. -/
def workers (settings : RunSettings) (machine : Nat) : Nat := settings.workers?.getD machine

private theorem workers_pos (settings : RunSettings) {machine : Nat} (h : 0 < machine) :
    0 < workers settings machine := by
  rw [workers, RunSettings.workers?]
  split
  · exact h
  · rename_i hthreads
    exact Nat.pos_of_ne_zero hthreads

variable {pool n : Nat} {chunks : List Chunk} {job : Chunk → Except String α} {p q : Progress}

/-- No chunk is lost or doubled: each waits or was handed out, and those handed out are worked on or have a record in
their place. -/
structure Consistent (chunks : List Chunk) (job : Chunk → Except String α) (n : Nat) (p : Progress) : Prop where
  tasks : (p.handed ++ p.waiting).Perm chunks.zipIdx
  length : p.places.length = chunks.length
  ended : ∃ done, (p.working ++ done).Perm p.handed ∧
    ∀ task ∈ done, ∃ elapsed, p.places[task.2]? = some (some (.ofOutcome task.1 (job task.1) elapsed))
  /-- A chunk that waits is two steps from its record, one that is worked on a single step. -/
  steps : n + 2 * p.waiting.length + p.working.length = 2 * chunks.length

private theorem consistent_start (chunks : List Chunk) (job : Chunk → Except String α) :
    Consistent chunks job 0 (.start chunks) where
  tasks := .refl _
  length := List.length_map _
  ended := ⟨[], .nil, fun task htask => absurd htask List.not_mem_nil⟩
  steps := by simp [Progress.start]

private theorem Consistent.nodup_places (h : Consistent chunks job n p) : (p.handed.map (·.2)).Nodup := by
  have hall : ((p.handed ++ p.waiting).map (·.2)).Nodup := by
    rw [(h.tasks.map _).nodup_iff, List.zipIdx_map_snd]
    exact List.nodup_range'
  rw [List.map_append] at hall
  exact (List.nodup_append.1 hall).1

/-- What a worker does keeps a run consistent. -/
theorem Consistent.step (h : Consistent chunks job n p) (hstep : Step pool job p q) :
    Consistent chunks job (n + 1) q := by
  have hplaces := h.nodup_places
  obtain ⟨htasks, hlength, ⟨done, hdone, hrecords⟩, hsteps⟩ := h
  cases hstep with
  | take task before after handed working places free =>
    -- the chunk leaves those that wait, and joins those handed out and those worked on
    have hmoved : (handed ++ [task] ++ (before ++ after)).Perm (handed ++ (before ++ task :: after)) := by
      rw [List.append_assoc, List.singleton_append]
      exact List.perm_middle.symm.append_left handed
    have htaken : (working ++ [task] ++ done).Perm (handed ++ [task]) := by
      rw [List.append_assoc, List.singleton_append]
      exact (List.perm_middle.trans (hdone.cons task)).trans (List.perm_append_singleton task handed).symm
    refine ⟨hmoved.trans htasks, hlength, ⟨done, htaken, hrecords⟩, ?_⟩
    simp only [List.length_append, List.length_cons, List.length_nil] at hsteps ⊢
    omega
  | finish task waiting handed before after places elapsed =>
    -- the chunk leaves those worked on, and joins those with a record
    have hended : (task :: (before ++ after ++ done)).Perm handed := by
      refine List.Perm.trans ?_ hdone
      rw [List.append_assoc, List.append_assoc]
      exact List.perm_middle.symm
    have hinside : task.2 < places.length := by
      have hmem : task ∈ chunks.zipIdx :=
        htasks.mem_iff.1 (List.mem_append_left _ (hended.mem_iff.1 List.mem_cons_self))
      rw [hlength]
      exact (List.getElem?_eq_some_iff.1 (List.mem_zipIdx_iff_getElem?.1 hmem)).1
    -- no other record stands in its place
    have hother : ∀ other ∈ done, task.2 ≠ other.2 := fun other hmem heq => by
      rw [← (hended.map (·.2)).nodup_iff, List.map_cons, List.nodup_cons] at hplaces
      exact hplaces.1 (heq ▸ List.mem_map_of_mem (List.mem_append_right _ hmem))
    refine ⟨htasks, by rw [List.length_set]; exact hlength, ⟨done ++ [task], ?_, fun other hmem => ?_⟩, ?_⟩
    · rw [← List.append_assoc]
      exact (List.perm_append_singleton task _).trans hended
    · rcases List.mem_append.1 hmem with hold | hnew
      · obtain ⟨time, hrecord⟩ := hrecords other hold
        exact ⟨time, by rw [List.getElem?_set_ne (hother other hold)]; exact hrecord⟩
      · obtain rfl := List.mem_singleton.1 hnew
        exact ⟨elapsed, List.getElem?_set_self hinside⟩
    · simp only [List.length_append, List.length_cons] at hsteps ⊢
      omega

/-- However a run goes, it stays consistent. -/
theorem Reaches.consistent (h : Reaches pool chunks job n p) : Consistent chunks job n p := by
  induction h with
  | start => exact consistent_start chunks job
  | step _ hstep ih => exact ih.step hstep

/-- A run is over after two steps for each chunk, and not before. -/
theorem Consistent.isOver_iff (h : Consistent chunks job n p) : p.IsOver ↔ n = 2 * chunks.length := by
  have hsteps := h.steps
  rw [Progress.IsOver, List.eq_nil_iff_length_eq_zero, List.eq_nil_iff_length_eq_zero]
  omega

/-- A run that is not over can go on: a job ends, or all workers are free for the chunks that wait. -/
theorem exists_step (hpool : 0 < pool) (job : Chunk → Except String α) (h : ¬ p.IsOver) :
    ∃ q, Step pool job p q := by
  obtain ⟨waiting, handed, working, places⟩ := p
  cases working with
  | cons task rest => exact ⟨_, .finish task waiting handed [] rest places 0⟩
  | nil =>
    cases waiting with
    | cons task rest => exact ⟨_, .take task [] rest handed [] places hpool⟩
    | nil => exact absurd ⟨rfl, rfl⟩ h

/-- Some run reaches its end. -/
theorem exists_reaches (hpool : 0 < pool) (chunks : List Chunk) (job : Chunk → Except String α) :
    ∃ p, Reaches pool chunks job (2 * chunks.length) p := by
  have upTo (n : Nat) (hn : n ≤ 2 * chunks.length) : ∃ p, Reaches pool chunks job n p := by
    induction n with
    | zero => exact ⟨_, .start⟩
    | succ n ih =>
      obtain ⟨p, hp⟩ := ih (Nat.le_of_succ_le hn)
      have hopen : ¬ p.IsOver := fun hover => Nat.ne_of_lt hn (hp.consistent.isOver_iff.1 hover)
      obtain ⟨q, hq⟩ := exists_step hpool job hopen
      exact ⟨q, hp.step hq⟩
  exact upTo _ (Nat.le_refl _)

/-- All chunks have been handed out when a run is over. -/
theorem Consistent.handed_perm (h : Consistent chunks job n p) (hover : p.IsOver) :
    (p.handed.map (·.1)).Perm chunks := by
  have htasks := h.tasks
  rw [hover.1, List.append_nil] at htasks
  have hchunks := htasks.map (·.1)
  rwa [List.zipIdx_map_fst] at hchunks

private theorem Consistent.place_filled (h : Consistent chunks job n p) (hover : p.IsOver) {i : Nat} {chunk : Chunk}
    (hi : chunks[i]? = some chunk) :
    ∃ elapsed, p.places[i]? = some (some (.ofOutcome chunk (job chunk) elapsed)) := by
  obtain ⟨htasks, _, ⟨done, hdone, hrecords⟩, _⟩ := h
  rw [hover.1, List.append_nil] at htasks
  rw [hover.2, List.nil_append] at hdone
  exact hrecords (chunk, i) ((hdone.trans htasks).mem_iff.2 (List.mem_zipIdx_iff_getElem?.2 hi))

/-- Where every chunk tells its place by its number, the summary of a run that is over is the one of the chunks taken in
order. -/
theorem Consistent.exists_ofRecords (h : Consistent chunks job n p) (hover : p.IsOver)
    (hindex : ∀ (i : Nat) (chunk : Chunk), chunks[i]? = some chunk → chunk.index = i) :
    ∃ elapsed, p.summary = .ofRecords (records chunks job elapsed) := by
  let elapsed (chunk : Chunk) : Int := ((p.places[chunk.index]?.bind id).map (·.elapsed)).getD 0
  have hplaces : p.places = (records chunks job elapsed).map some := by
    refine List.ext_getElem? fun i => ?_
    rw [records_eq chunks job elapsed, List.map_map, List.getElem?_map]
    cases hi : chunks[i]? with
    | none =>
      rw [List.getElem?_eq_none_iff] at hi
      exact List.getElem?_eq_none (h.length ▸ hi)
    | some chunk =>
      obtain ⟨time, hplace⟩ := h.place_filled hover hi
      have htime : elapsed chunk = time := by
        simp only [elapsed, hindex i chunk hi, hplace, Option.bind_some, id_eq, Option.map_some, Option.getD_some]
        rfl
      rw [hplace, ← htime]
      rfl
  refine ⟨elapsed, ?_⟩
  rw [Progress.summary, hplaces, List.filterMap_map]
  exact congrArg RunSummary.ofRecords List.filterMap_some

variable {c : Cutter} {rs : List Interval}

/-- However the jobs ended, one after the other or several at once, the summary accounts for all chunks of a cutter, and
is the one of its chunks taken in order. -/
theorem Reaches.accounts (hcuts : c.Cuts rs) (hupper : ∀ r ∈ rs, r.upper ≤ maxPoint)
    (hchunks : c.chunks = some chunks) (h : Reaches pool chunks job n p) (hover : p.IsOver) :
    p.summary.Accounts c job ∧ ∃ elapsed, summarize c job elapsed = some p.summary := by
  have hindex : ∀ (i : Nat) (chunk : Chunk), chunks[i]? = some chunk → chunk.index = i := fun i chunk hi => by
    have hlt := (List.getElem?_eq_some_iff.1 hi).1
    rw [Cutter.length_chunks hcuts hupper hchunks] at hlt
    obtain ⟨hull, pieces, _, _, hplace⟩ := Cutter.getElem?_chunks hcuts hupper hchunks hlt
    rw [hi] at hplace
    cases hplace
    rfl
  obtain ⟨elapsed, hsummary⟩ := h.consistent.exists_ofRecords hover hindex
  rw [hsummary]
  refine ⟨accounts_ofRecords hcuts hupper hchunks job elapsed, elapsed, ?_⟩
  rw [summarize, hchunks]
  rfl

/-- Whatever job is done for the chunks of a cutter, by however many workers: a run never gets stuck and is over after
two steps for each chunk, when every chunk has been handed out once, with its hull and its pieces. In whatever order the
jobs ended, the summary accounts for all chunks, the record of each depends on its own outcome alone, and a manifest
says the same as the summary. Intervals with the largest point of all have no run: a chunk of theirs has no answer. -/
theorem every_chunk_once {intervals : List Interval} {size : Int} {c : Cutter}
    (hupper : ∀ r ∈ intervals, r.upper ≤ maxPoint) (hmade : Cutter.make intervals size = .ok c)
    (settings : RunSettings) {machine : Nat} (hmachine : 0 < machine) (job : Chunk → Except String α) :
    (Covers intervals maxPoint → c.chunks = none ∧ ∀ elapsed, summarize c job elapsed = none) ∧
    (¬ Covers intervals maxPoint → ∃ chunks, c.chunks = some chunks ∧ chunks.length = c.count ∧
      (∀ i : Nat, i < c.count → ∃ hull pieces, c.hull i = some hull ∧ c.segments i = some pieces ∧
        chunks[i]? = some ⟨i, hull, pieces⟩) ∧
      (∃ p, Reaches (workers settings machine) chunks job (2 * c.count) p) ∧
      (∀ n p, Reaches (workers settings machine) chunks job n p →
        (p.handed ++ p.waiting).Perm chunks.zipIdx ∧ (p.IsOver ↔ n = 2 * c.count) ∧
          (¬ p.IsOver → ∃ q, Step (workers settings machine) job p q)) ∧
      ∀ n p, Reaches (workers settings machine) chunks job n p → p.IsOver →
        (p.handed.map (·.1)).Perm chunks ∧ p.summary.Accounts c job ∧
        (∃ elapsed, summarize c job elapsed = some p.summary) ∧
        (∀ (other : Chunk → Except String α) (m : Nat) (q : Progress),
          Reaches (workers settings machine) chunks other m q → q.IsOver →
          ∀ i < c.count, (∀ chunk, c.chunk i = some chunk → other chunk = job chunk) →
            q.summary.records[i]?.map ChunkRecord.untimed = p.summary.records[i]?.map ChunkRecord.untimed) ∧
        ∀ createdAt, Manifest.kept? settings createdAt c p.summary = settings.manifestPath.map fun path =>
          (path, ⟨createdAt, c.size, c.count, p.summary.success, p.summary.failure, p.summary.records⟩)) := by
  have hworkers := workers_pos settings hmachine
  obtain ⟨sorted, hcuts, hperm, _⟩ := Cutter.cuts_of_make hmade
  have hsorted : ∀ r ∈ sorted, r.upper ≤ maxPoint := fun r hr => hupper r (hperm.mem_iff.1 hr)
  rw [← Interval.covers_of_perm hperm]
  have hchunks := Cutter.chunks_eq hcuts hsorted
  refine ⟨fun hmax => ?_, fun hmax => ?_⟩
  · rw [if_pos hmax] at hchunks
    refine ⟨hchunks, fun elapsed => ?_⟩
    rw [summarize, hchunks]
    rfl
  · rw [if_neg hmax] at hchunks
    generalize (List.range c.count).map c.exactChunk = chunks at hchunks
    have hlength := Cutter.length_chunks hcuts hsorted hchunks
    refine ⟨chunks, hchunks, hlength, fun i => Cutter.getElem?_chunks hcuts hsorted hchunks, ?_, fun n p hp => ?_,
      fun n p hp hover => ?_⟩
    · rw [← hlength]
      exact exists_reaches hworkers chunks job
    · have hover := hp.consistent.isOver_iff
      rw [hlength] at hover
      exact ⟨hp.consistent.tasks, hover, exists_step hworkers job⟩
    · obtain ⟨haccounts, hsummary⟩ := hp.accounts hcuts hsorted hchunks hover
      refine ⟨hp.consistent.handed_perm hover, haccounts, hsummary, fun other m q hq hq' i hi hsame => ?_,
        fun createdAt => ?_⟩
      · exact (haccounts.untimed_eq (hq.accounts hcuts hsorted hchunks hq').1 hi hsame).symm
      · rw [Manifest.kept?]
        unfold Manifest.ofRun
        rw [haccounts.length]

/-- Five points in chunks of two. -/
def fivePoints : Cutter := { placed := [(0, ⟨0, 4⟩)], total := 5, size := 2 }

/-- A job that fails on the second chunk. -/
def failsOnSecond (chunk : Chunk) : Except String Unit := if chunk.index = 1 then .error "diverged" else .ok ()

/-- Two workers, of whom the one that took the first chunk is the last to end. -/
theorem fivePoints_accounted : ∃ chunks p, fivePoints.chunks = some chunks ∧
    Reaches 2 chunks failsOnSecond 6 p ∧ p.summary.Accounts fivePoints failsOnSecond := by
  have hmade : Cutter.make [⟨0, 4⟩] 2 = .ok fivePoints := by
    rw [Cutter.make, Interval.arrange_of_arranged (.singleton rfl)]
    rfl
  obtain ⟨chunks, hchunks, _, _, _, _, hruns⟩ := (every_chunk_once (by decide) hmade
    { RunSettings.standard with threads := 2 } Nat.one_pos failsOnSecond).2 (by decide)
  let a : Chunk := ⟨0, ⟨0, 1⟩, [⟨0, 1⟩]⟩
  let b : Chunk := ⟨1, ⟨2, 3⟩, [⟨2, 3⟩]⟩
  let d : Chunk := ⟨2, ⟨4, 4⟩, [⟨4, 4⟩]⟩
  obtain rfl : chunks = [a, b, d] := Option.some.inj (hchunks.symm.trans (by decide))
  have hstart : Reaches 2 [a, b, d] failsOnSecond 0 ⟨[(a, 0), (b, 1), (d, 2)], [], [], [none, none, none]⟩ := .start
  have hfirst := hstart.step (.take (a, 0) [] [(b, 1), (d, 2)] [] [] _ (by decide))
  have hsecond := hfirst.step (.take (b, 1) [] [(d, 2)] [(a, 0)] [(a, 0)] _ (by decide))
  have hfailed := hsecond.step (.finish (b, 1) [(d, 2)] [(a, 0), (b, 1)] [(a, 0)] [] _ 7)
  have hlast := hfailed.step (.take (d, 2) [] [] [(a, 0), (b, 1)] [(a, 0)] _ (by decide))
  have hended := hlast.step (.finish (d, 2) [] [(a, 0), (b, 1), (d, 2)] [(a, 0)] [] _ 2)
  have hend := hended.step (.finish (a, 0) [] [(a, 0), (b, 1), (d, 2)] [] [] _ 30)
  exact ⟨_, _, hchunks, hend, (hruns 6 _ hend ⟨rfl, rfl⟩).2.1⟩

/-- All points in two chunks of the largest size: the second holds the largest point, so no chunk is handed out, not even
the first. -/
theorem largest_point_has_no_run : ∃ c, Cutter.make [⟨0, maxPoint⟩] maxPoint = .ok c ∧ c.count = 2 ∧
    c.segments 0 = some [⟨0, maxPoint - 1⟩] ∧ c.chunks = none :=
  ⟨_, Cutter.make_allPoints, by decide, by decide, by decide⟩

end GridSeries.Run
