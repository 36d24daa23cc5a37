import GridSeries.Chunk.Cutter
import GridSeries.Json.Basic

/-! Runs over chunks: a job is done for every chunk, and a record kept of each, whether or not its job succeeds. -/
namespace GridSeries

/-- A chunk as it is handed to a job. -/
structure Chunk where
  index : Nat
  hull : Interval
  segments : List Interval
deriving DecidableEq, Repr

namespace Chunk

def pointCount (c : Chunk) : Nat := Interval.totalSize c.segments

def selection (c : Chunk) (versions : SortedSet Nat) : Except Fault Selection :=
  Selection.make versions.toList c.segments

end Chunk

/-- The chunk with a number, if its pieces have an answer. -/
def Cutter.chunk (c : Cutter) (index : Nat) : Option Chunk := do
  some ⟨index, ← c.hull index, ← c.segments index⟩

/-- All chunks, in order. If one of them has no answer, there are none to hand to a job. -/
def Cutter.chunks (c : Cutter) : Option (List Chunk) := (List.range c.count).mapM c.chunk

/-- What became of a chunk. -/
structure ChunkRecord where
  chunk : Nat
  lower : Int
  upper : Int
  points : Nat
  status : String
  error : Option String
  /-- How long the job took, in milliseconds. -/
  elapsed : Int
deriving DecidableEq, Repr

namespace ChunkRecord

def succeeded : String := "ok"

def failed : String := "error"

def ofOutcome {α : Type} (c : Chunk) (outcome : Except String α) (elapsed : Int) : ChunkRecord :=
  { chunk := c.index, lower := c.hull.lower, upper := c.hull.upper, points := c.pointCount
    status := match outcome with
      | .ok _ => succeeded
      | .error _ => failed
    error := match outcome with
      | .ok _ => none
      | .error text => some text
    elapsed }

def isSuccess (r : ChunkRecord) : Bool := r.status == succeeded

def toJson (r : ChunkRecord) : Json :=
  .object [("chunk", .ofNat r.chunk), ("lower", .ofInt r.lower), ("upper", .ofInt r.upper),
    ("points", .ofNat r.points), ("status", .string r.status), ("error", .ofOption .string r.error),
    ("elapsed_ms", .ofInt r.elapsed)]

end ChunkRecord

/-- The records of a run, and how many of its jobs succeeded and failed. -/
structure RunSummary where
  success : Nat
  failure : Nat
  records : List ChunkRecord
deriving DecidableEq, Repr

namespace RunSummary

/-- Counts the records of a run, which stand in the order of its chunks. -/
def ofRecords (records : List ChunkRecord) : RunSummary :=
  let success := records.countP (·.isSuccess)
  { success, failure := records.length - success, records }

end RunSummary

namespace Run

def outcomes {α : Type} (chunks : List Chunk) (job : Chunk → Except String α) : List (Chunk × Except String α) :=
  chunks.map fun chunk => (chunk, job chunk)

/-- The record of every chunk, in order; `elapsed` tells how long its job took. -/
def records {α : Type} (chunks : List Chunk) (job : Chunk → Except String α) (elapsed : Chunk → Int) :
    List ChunkRecord :=
  (outcomes chunks job).map fun e => ChunkRecord.ofOutcome e.1 e.2 (elapsed e.1)

/-- Does a job for every chunk of a cutter. All chunks are cut before the first of them is handed to a job. -/
def summarize {α : Type} (c : Cutter) (job : Chunk → Except String α) (elapsed : Chunk → Int) : Option RunSummary := do
  some (.ofRecords (records (← c.chunks) job elapsed))

end Run
end GridSeries
