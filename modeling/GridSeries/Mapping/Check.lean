import GridSeries.Mapping.Basic

/-! What must hold of a mapping before a run, and what of it is missing. -/
namespace GridSeries.Mapping

/-- The two directions agree in every category. -/
def checkIndex (m : Mapping) : Except Fault Unit :=
  match Category.all.findSome? fun c => (m.category c).indexFault? c with
  | none => .ok ()
  | some cause => .error (.index cause)

/-- A load that is bound on a total and on one of its parts; that of the smallest id. -/
def loadContradiction? (m : Mapping) : Option Fault :=
  let loads := m.category .load
  loads.boundKeys.findSome? fun k =>
    (loads.contradiction? k).map fun (total, part) => .contradiction k.id total.name part.name

/-- Equipment of a category that may stay without a series and is not without one. -/
def unmappedContradiction? (m : Mapping) (c : Category) : Option Fault :=
  let b := m.category c
  (b.reverse.entries.find? fun e =>
    decide (e.1.id ∈ b.ignoredUnmapped) && !decide (e.1.id ∈ b.unmapped)).map
    fun e => .unmappedButBound e.1.id (e.2.head?.getD "")

/-- No load is bound on a total and on a part, and no bound equipment was excused from being bound, unless it
counts as unmapped. -/
def checkBound (m : Mapping) : Except Fault Unit :=
  match m.loadContradiction?.or (Category.all.findSome? m.unmappedContradiction?) with
  | none => .ok ()
  | some fault => .error fault

/-- The index agrees with itself and the bindings with one another. -/
def check (m : Mapping) : Except Fault Unit := do
  m.checkIndex
  m.checkBound

def idsOf (b : Bindings) : SortedSet String :=
  ((SortedSet.ofList (b.boundKeys.map (·.id))).insertAll (b.declared.toList.map (·.id))).union
    (b.unmapped.union b.ignoredUnmapped)

/-- Every id that the mapping names is in the catalog, in the same category. -/
def checkIds (m : Mapping) (catalog : Catalog) : Except Fault Unit :=
  let unknown? := Category.all.findSome? fun c =>
    ((idsOf (m.category c)).toList.find? fun id => !catalog.contains c id).map fun id => (c, id)
  match unknown? with
  | none => .ok ()
  | some (c, id) => .error (.unknownEquipment c id)

def mappedCount (m : Mapping) (c : Category) : Nat :=
  (SortedSet.ofList ((m.category c).boundKeys.map (·.id))).size

def mappedCountOn? (m : Mapping) (c : Category) (v : Variable) : Option Nat :=
  if v.fits c then some ((m.category c).boundKeys.countP fun k => decide (k.driven = v)) else none

/-- The number of keys with more than one candidate series. -/
def multiMappedCount (m : Mapping) (c : Category) : Nat :=
  (m.category c).reverse.entries.countP fun e => decide (1 < e.2.length)

def unmappedCount (m : Mapping) (c : Category) : Nat := (m.category c).missing.size

def isComplete (m : Mapping) : Bool := Category.all.all fun c => m.unmappedCount c == 0

end GridSeries.Mapping
