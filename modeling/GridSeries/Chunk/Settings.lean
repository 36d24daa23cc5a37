import GridSeries.Chunk.Cutter

/-! The settings of a run over chunks. -/
namespace GridSeries

/-- How a run is cut into chunks and carried out. -/
structure RunSettings where
  /-- Points to the chunk. -/
  chunkSize : Int
  /-- Workers; zero leaves their number to the machine. -/
  threads : Nat
  /-- Versions to work on; none stands for all of the store. -/
  versions : List Nat
  /-- The first point of the window; by default the first of the data. -/
  firstPoint : Option Int
  /-- The number of points of the window; by default all to the end of the data. -/
  pointCount : Option Int
  /-- Where the manifest of the run is kept, if anywhere. -/
  manifestPath : Option String
deriving DecidableEq, Repr

namespace RunSettings

def standard : RunSettings :=
  { chunkSize := 96, threads := 0, versions := [], firstPoint := none, pointCount := none, manifestPath := none }

instance : Inhabited RunSettings := ⟨standard⟩

def workers? (s : RunSettings) : Option Nat := if s.threads = 0 then none else some s.threads

/-- The selection asked for, before it is completed from a store. -/
def selection (s : RunSettings) : Except Fault Selection :=
  if s.firstPoint.isNone ∧ s.pointCount.isNone then Selection.make s.versions []
  else Selection.window s.versions s.firstPoint s.pointCount

def cutter (s : RunSettings) (selection : Selection) : Except Fault Cutter :=
  Cutter.make selection.intervals s.chunkSize

end RunSettings
end GridSeries
