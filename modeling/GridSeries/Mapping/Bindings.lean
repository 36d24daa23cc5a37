import GridSeries.Fault
import GridSeries.Network.Catalog

/-! The bindings of one category, kept in both directions, and what is known of its equipment besides. -/
namespace GridSeries

/-- The index of one category: from series to keys, and from keys to series in the order of binding. -/
structure Bindings where
  forward : SortedMap String (SortedSet Key)
  reverse : SortedMap Key (List String)
  /-- Keys for which a series is said to exist. -/
  declared : SortedSet Key
  /-- Equipment that still has no series. -/
  unmapped : SortedSet String
  /-- Equipment that may stay without a series. -/
  ignoredUnmapped : SortedSet String
  disconnected : SortedSet String
  outsideMain : SortedSet String
deriving DecidableEq

namespace Bindings

def empty : Bindings := ⟨∅, ∅, ∅, ∅, ∅, ∅, ∅⟩

instance : Inhabited Bindings := ⟨empty⟩

/-- The keys that a series feeds, if it feeds any. -/
def keysFor? (b : Bindings) (series : String) : Option (SortedSet Key) := b.forward.get? series

/-- The series bound to a key, the first one bound first. -/
def seriesFor (b : Bindings) (k : Key) : List String := b.reverse.getD k []

/-- The series that a key takes its values from. -/
def primarySeries? (b : Bindings) (k : Key) : Option String := (b.seriesFor k).head?

def isBound (b : Bindings) (k : Key) : Bool := b.reverse.contains k

def hasBinding (b : Bindings) (id : String) : Bool := b.reverse.entries.any fun e => e.1.id == id

def boundKeys (b : Bindings) : List Key := b.reverse.keys.toList

def declaredBound (b : Bindings) : List Key := b.declared.toList.filter b.isBound

def declaredUnbound (b : Bindings) : List Key := b.declared.toList.filter fun k => !b.isBound k

/-- Equipment that should have a series and has none. -/
def missing (b : Bindings) : SortedSet String := b.unmapped.diff b.ignoredUnmapped

/-- Files a piece of equipment by its connection: on the main network it awaits a series. -/
def file (b : Bindings) (id : String) : Connection → Bindings
  | .main => { b with unmapped := b.unmapped.insert id }
  | .outsideMain => { b with outsideMain := b.outsideMain.insert id }
  | .disconnected => { b with disconnected := b.disconnected.insert id }

/-- Binds a series to a key, in both directions; a pair already bound stays where it is. -/
def link (b : Bindings) (series : String) (k : Key) : Bindings :=
  if series ∈ b.seriesFor k then b
  else
    { b with
      forward := b.forward.insert series (((b.keysFor? series).getD ∅).insert k)
      reverse := b.reverse.insert k (b.seriesFor k ++ [series]) }

def reverseFault? (c : Category) (b : Bindings) (k : Key) (series : List String) : Option IndexFault :=
  if series.isEmpty then some (.noSeries c k)
  else (series.find? fun s => !decide (k ∈ (b.keysFor? s).getD ∅)).map (.oneSidedKey c k)

def forwardFault? (c : Category) (b : Bindings) (series : String) (keys : SortedSet Key) : Option IndexFault :=
  (keys.toList.find? fun k => !decide (series ∈ b.seriesFor k)).map fun k => .oneSidedSeries c k series

/-- The first disagreement of the two directions. -/
def indexFault? (c : Category) (b : Bindings) : Option IndexFault :=
  (b.reverse.entries.findSome? fun e => reverseFault? c b e.1 e.2).or
    (b.forward.entries.findSome? fun e => forwardFault? c b e.1 e.2)

/-- The first total quantity of the equipment of `k` that is bound beside one of its parts, and that part. -/
def contradiction? (b : Bindings) (k : Key) : Option (Quantity × Quantity) :=
  [Quantity.p0, Quantity.q0].findSome? fun total =>
    if b.isBound (k.withQuantity total) then
      (total.components.find? fun part => b.isBound (k.withQuantity part)).map fun part => (total, part)
    else none

end Bindings
end GridSeries
