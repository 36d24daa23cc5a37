import GridSeries.Formula.Reach
import GridSeries.Store.Sampling
import GridSeries.Update

/-! The store of time series: stored values in numbered versions, and series calculated from others. -/
namespace GridSeries

/-- The stored values of a series: one array for each version, all of the length of the sampling. -/
structure StoredSeries where
  sampling : Sampling
  versions : SortedMap Nat (List Float)
  lengths : ∀ e ∈ versions.entries, e.2.length = sampling.count
deriving DecidableEq

namespace StoredSeries

def empty (sampling : Sampling) : StoredSeries := ⟨sampling, ∅, fun _ h => by cases h⟩

/-- Stores the values of a version, in place of those it had. -/
def insert (s : StoredSeries) (version : Nat) (values : List Float) (h : values.length = s.sampling.count) :
    StoredSeries :=
  { s with
    versions := s.versions.insert version values
    lengths := fun e he => by
      rcases SortedMap.of_mem_place he with rfl | he
      · exact h
      · exact s.lengths e he }

end StoredSeries

/-- Stored series and calculated series, by name. One name may be both. -/
structure Store where
  series : SortedMap String StoredSeries
  formulas : Definitions
deriving DecidableEq

namespace Store

def empty : Store := ⟨∅, ∅⟩

instance : Inhabited Store := ⟨empty⟩

/-- Stores the values of one version of a series. There is one value for each point, and every version of a series
has the same sampling. -/
def insert (name : String) (sampling : Sampling) (version : Nat) (values : List Float) : Update Store Unit := do
  if h : values.length = sampling.count then
    let store ← get
    match store.series.get? name with
    | none =>
      set { store with series := store.series.insert name ((StoredSeries.empty sampling).insert version values h) }
    | some s =>
      if hs : s.sampling = sampling then
        set { store with series := store.series.insert name (s.insert version values (hs ▸ h)) }
      else throw (.sampling (.otherSampling name))
  else throw (.sampling (.wrongCount name values.length sampling.count))

def insertFormula (store : Store) (name : String) (f : Formula) : Store :=
  { store with formulas := store.formulas.insert name f }

def ownNames (store : Store) : SortedSet String := store.series.keys.union store.formulas.keys

/-- The names of series, and the names that calculated series refer to. -/
def allNames (store : Store) : SortedSet String :=
  store.ownNames.insertAll (Definitions.references store.formulas.entries)

def contains (store : Store) (name : String) : Bool :=
  store.series.contains name || store.formulas.contains name

def versionsOf (store : Store) (name : String) : SortedSet Nat :=
  ((store.series.get? name).map fun s => s.versions.keys).getD ∅

def versions (store : Store) : SortedSet Nat :=
  SortedSet.ofList (store.series.values.flatMap fun s => s.versions.keys.toList)

def samplingOf? (store : Store) (name : String) : Option Sampling := (store.series.get? name).map (·.sampling)

def values (store : Store) (name : String) (version : Nat) : Except Fault (List Float) :=
  match store.series.get? name with
  | none => .error (.unknownSeries name)
  | some s =>
    match s.versions.get? version with
    | none => .error (.missingVersions name [version])
    | some values => .ok values

/-- What some names read from the store in the end, calculated series being followed to what they refer to. -/
def storedNames (store : Store) (names : List String) : SortedSet String :=
  store.formulas.leaves (SortedSet.ofList names)

/-- The samplings of the series that some names read, each with the name of its series. -/
def samplings (store : Store) (names : List String) : List (String × Sampling) :=
  (store.storedNames names).toList.filterMap fun name => (store.samplingOf? name).map fun s => (name, s)

/-- The one sampling of all series that some names read; none if they read no stored series. -/
def commonSampling (store : Store) (names : List String) : Except Fault (Option Sampling) :=
  match store.samplings names with
  | [] => .ok none
  | (first, sampling) :: rest =>
    match rest.find? fun e => decide (e.2 ≠ sampling) with
    | none => .ok (some sampling)
    | some (other, _) => .error (.sampling (.differ first other))

/-- What keeps a series from being read at every one of some versions. -/
def versionFault? (store : Store) (versions : SortedSet Nat) (name : String) : Option Fault :=
  if !store.contains name then some (.unknownSeries name)
  else
    let missing := versions.diff (store.versionsOf name)
    if missing.isEmpty then none else some (.missingVersions name missing.toList)

/-- Every series that some names read has all of some versions. -/
def checkVersions (store : Store) (versions : SortedSet Nat) (names : List String) : Except Fault Unit :=
  match (store.storedNames names).toList.findSome? (store.versionFault? versions) with
  | none => .ok ()
  | some fault => .error fault

end Store
end GridSeries
