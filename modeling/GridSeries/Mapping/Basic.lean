import GridSeries.Formula.Reach
import GridSeries.Mapping.Bindings

/-! The mapping of time series to equipment: the bindings of every category, the weights of keys, the formulas of
derived series, and the names that a run needs. -/
namespace GridSeries

/-- A mapping of time series to equipment. -/
structure Mapping where
  categories : PerCategory Bindings
  /-- The weights that were given; other keys weigh the same. -/
  weights : SortedMap Key Weight
  /-- Derived series. -/
  formulas : Definitions
  /-- Every series that was bound. -/
  boundSeries : SortedSet String
  /-- Series that may leave the limits of their equipment. -/
  ignoreLimits : SortedSet String
  /-- Series of planned outages, and the equipment each concerns. -/
  outages : SortedMap String (SortedSet String)
deriving DecidableEq

namespace Mapping

def empty : Mapping := ⟨.replicate .empty, ∅, ∅, ∅, ∅, ∅⟩

instance : Inhabited Mapping := ⟨empty⟩

def category (m : Mapping) (c : Category) : Bindings := m.categories.get c

def modifyCategory (m : Mapping) (c : Category) (f : Bindings → Bindings) : Mapping :=
  { m with categories := m.categories.modify c f }

/-- The mapping of a network in which nothing is bound yet, given the equipment of every category. -/
def ofEquipment (equipment : Category → List (String × Connection)) : Mapping :=
  Category.all.foldl
    (fun m c => m.modifyCategory c fun b => (equipment c).foldl (fun b e => b.file e.1 e.2) b)
    empty

def ofCatalog (catalog : Catalog) : Mapping := ofEquipment catalog.equipment

def weight (m : Mapping) (k : Key) : Weight := m.weights.getD k .uniform

/-- The names a run reads: bound series, series of outages, and series of weights. -/
def usedNames (m : Mapping) : SortedSet String :=
  (m.boundSeries.union m.outages.keys).insertAll (m.weights.values.filterMap Weight.seriesName?)

/-- The names a run loads: those it reads, with formulas followed down to what they read. -/
def namesToLoad (m : Mapping) : SortedSet String := m.formulas.leaves m.usedNames

/-- The categories with declared keys that are not bound, and those keys. -/
def declaredUnbound (m : Mapping) : List (Category × List Key) :=
  (Category.all.map fun c => (c, (m.category c).declaredUnbound)).filter fun e => !e.2.isEmpty

end Mapping
end GridSeries
