import GridSeries.Calendar.Reader
import GridSeries.Chunk.Run
import GridSeries.Chunk.Settings
import GridSeries.Json.Printer
import GridSeries.Json.Reader

/-! Manifests: the outcome of a run, as it is kept. A manifest is read leniently: fields it does not know are skipped
whatever they hold, and records may be arrays of their values in order. -/
namespace GridSeries

/-- The outcome of a run. -/
structure Manifest where
  createdAt : Instant
  chunkSize : Nat
  chunkCount : Nat
  success : Nat
  failure : Nat
  records : List ChunkRecord
deriving DecidableEq, Repr

namespace Manifest

def ofRun (createdAt : Instant) (c : Cutter) (run : RunSummary) : Manifest :=
  { createdAt, chunkSize := c.size, chunkCount := run.records.length, success := run.success
    failure := run.failure, records := run.records }

/-- What a run keeps: its manifest, and the path for it, where the settings give one. -/
def kept? (settings : RunSettings) (createdAt : Instant) (c : Cutter) (run : RunSummary) : Option (String × Manifest) :=
  settings.manifestPath.map fun path => (path, ofRun createdAt c run)

def toJson (m : Manifest) : Json :=
  .object [("created_at", .string m.createdAt.render), ("chunk_size", .ofNat m.chunkSize),
    ("num_chunks", .ofNat m.chunkCount), ("success", .ofNat m.success), ("failure", .ofNat m.failure),
    ("chunks", .array (m.records.map ChunkRecord.toJson))]

def render (m : Manifest) : String := m.toJson.pretty

/-- The value of a field, if the object has it; a known field may not be there twice. -/
def fieldValue? (fields : List (String × Json.Raw)) (name : String) : Option (Option Json.Raw) :=
  match fields.filter fun f => f.1 == name with
  | [] => some none
  | [(_, v)] => some (some v)
  | _ => none

/-- The keys of an object must be readable, its values need not be. -/
def readableFields? (fields : List (Option String × Json.Raw)) : Option (List (String × Json.Raw)) :=
  fields.mapM fun f => f.1.map fun k => (k, f.2)

/-- The values of named fields, in order: those of an object, or the elements of an array of just that length. -/
def valuesOf? (names : List String) : Json.Raw → Option (List (Option Json.Raw))
  | .object fields => do
    let fields ← readableFields? fields
    names.mapM (fieldValue? fields)
  | .array items => if items.length = names.length then some (items.map some) else none
  | _ => none

def wholeIn? (least most : Int) : Option Json.Raw → Option Int
  | some (.number (some (.whole n))) => if least ≤ n ∧ n ≤ most then some n else none
  | _ => none

/-- A count of at most 64 bits. -/
def count? (v : Option Json.Raw) : Option Nat := (wholeIn? 0 Word.maxUnsigned v).map Int.toNat

def signed? (v : Option Json.Raw) : Option Int := wholeIn? Word.minSigned Word.maxSigned v

def text? : Option Json.Raw → Option String
  | some (.string s) => s
  | _ => none

/-- A text that may be null or absent. -/
def textOrNone? : Option Json.Raw → Option (Option String)
  | none => some none
  | some .null => some none
  | some (.string (some s)) => some (some s)
  | _ => none

def recordFields : List String := ["chunk", "lower", "upper", "points", "status", "error", "elapsed_ms"]

def readRecord? (v : Json.Raw) : Option ChunkRecord := do
  match ← valuesOf? recordFields v with
  | [chunk, lower, upper, points, status, error, elapsed] =>
    pure { chunk := ← count? chunk, lower := ← signed? lower, upper := ← signed? upper
           points := ← count? points, status := ← text? status, error := ← textOrNone? error
           elapsed := ← signed? elapsed }
  | _ => none

def readRecords? : Option Json.Raw → Option (List ChunkRecord)
  | some (.array items) => items.mapM readRecord?
  | _ => none

def fields : List String := ["created_at", "chunk_size", "num_chunks", "success", "failure", "chunks"]

def read? (v : Json.Raw) : Option Manifest := do
  match ← valuesOf? fields v with
  | [createdAt, chunkSize, chunkCount, success, failure, records] =>
    pure { createdAt := ← Instant.parse? (← text? createdAt), chunkSize := ← count? chunkSize
           chunkCount := ← count? chunkCount, success := ← count? success, failure := ← count? failure
           records := ← readRecords? records }
  | _ => none

def parse? (text : String) : Option Manifest := do read? (← Json.Raw.read? text)

end Manifest
end GridSeries
