import GridSeries.Network.Category
import GridSeries.Sorted.Map

/-! The catalog of a network: which equipment exists in each category, and how it is connected. -/
namespace GridSeries

/-- How a piece of equipment is connected. -/
inductive Connection where
  | main
  | outsideMain
  | disconnected
deriving DecidableEq, Repr

/-- The equipment of a network, listed in each category by id. -/
structure Catalog where
  items : PerCategory (SortedMap String Connection)
deriving DecidableEq

namespace Catalog

def empty : Catalog := ⟨.replicate ∅⟩

instance : Inhabited Catalog := ⟨empty⟩

/-- Lists equipment; an id already listed in the category takes the new connection. -/
def add (c : Catalog) (category : Category) (id : String) (connection : Connection) : Catalog :=
  ⟨c.items.modify category (·.insert id connection)⟩

def equipment (c : Catalog) (category : Category) : List (String × Connection) :=
  (c.items.get category).entries

def contains (c : Catalog) (category : Category) (id : String) : Bool :=
  (c.items.get category).contains id

def size (c : Catalog) : Nat :=
  Category.all.foldl (fun n category => n + (c.items.get category).size) 0

end Catalog
end GridSeries
