import GridSeries.Chunk.Settings
import GridSeries.Toml.Reader
import GridSeries.Toml.Writer

/-! The settings of a run as TOML text. What a text does not name keeps its standard value, and names that are no
settings are skipped. -/
namespace GridSeries.RunSettings

def chunkSizeKey : String := "chunk_size"

def threadsKey : String := "threads"

def versionsKey : String := "versions"

def firstPointKey : String := "first_variant"

def pointCountKey : String := "variant_count"

def manifestPathKey : String := "manifest_path"

def setting {α : Type} (entries : List (String × Toml.Value)) (key : String) (standard : α)
    (read : Toml.Value → Option α) : Option α :=
  match Toml.entry? key entries with
  | none => some standard
  | some v => read v

def signed? : Toml.Value → Option Int
  | .whole n => some n
  | _ => none

def count? : Toml.Value → Option Nat
  | .whole n => if 0 ≤ n then some n.toNat else none
  | _ => none

def maxVersion : Nat := 4294967295

def version? (v : Toml.Value) : Option Nat := do
  let n ← count? v
  if n ≤ maxVersion then some n else none

def versions? : Toml.Value → Option (List Nat)
  | .array items => items.mapM version?
  | _ => none

def text? : Toml.Value → Option String
  | .text s => some s
  | _ => none

def ofEntries? (entries : List (String × Toml.Value)) : Option RunSettings := do
  pure {
    chunkSize := ← setting entries chunkSizeKey standard.chunkSize signed?
    threads := ← setting entries threadsKey standard.threads count?
    versions := ← setting entries versionsKey standard.versions versions?
    firstPoint := ← setting entries firstPointKey none fun v => (signed? v).map some
    pointCount := ← setting entries pointCountKey none fun v => (signed? v).map some
    manifestPath := ← setting entries manifestPathKey none fun v => (text? v).map some }

def parse (text : String) : Except Fault RunSettings :=
  match (Toml.read? text).bind ofEntries? with
  | some s => .ok s
  | none => .error (.document .unreadable)

/-- The text of the settings; what is not set is left out. -/
def render (s : RunSettings) : String :=
  let line? (key : String) (value : Option String) : String := (value.map (Toml.line key)).getD ""
  Toml.line chunkSizeKey (toString s.chunkSize) ++
  Toml.line threadsKey (toString s.threads) ++
  Toml.line versionsKey (Toml.numbers s.versions) ++
  line? firstPointKey (s.firstPoint.map toString) ++
  line? pointCountKey (s.pointCount.map toString) ++
  line? manifestPathKey (s.manifestPath.map Toml.quote)

end GridSeries.RunSettings
