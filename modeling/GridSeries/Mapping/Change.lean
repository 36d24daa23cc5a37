import GridSeries.Mapping.Edit

/-! The changes a mapping admits, as data: each names what is done and to what, and a list of them is the history of a
mapping. -/
namespace GridSeries.Mapping

inductive Change where
  | bind (category : Category) (series : String) (key : Key) (weight : Option Weight)
  | markUnmapped (category : Category) (id : String)
  | markIgnoredUnmapped (category : Category) (id : String)
  | markDisconnected (category : Category) (id : String)
  | markOutsideMain (category : Category) (id : String)
  | declare (category : Category) (id : String) (named : List Variable)
  | addFormula (name : String) (formula : Formula)
  | addOutages (series : String) (ids : List String)
  | addIgnoreLimits (series : String)
deriving DecidableEq, Repr

namespace Change

/-- Carries out a change; marks and additions of names are never refused. -/
def update : Change → Update Mapping Unit
  | bind c series k weight => Mapping.bind c series k weight
  | markUnmapped c id => modify fun m => m.markUnmapped c id
  | markIgnoredUnmapped c id => modify fun m => m.markIgnoredUnmapped c id
  | markDisconnected c id => modify fun m => m.markDisconnected c id
  | markOutsideMain c id => modify fun m => m.markOutsideMain c id
  | declare c id named => Mapping.declare c id named
  | addFormula name f => Mapping.addFormula name f
  | addOutages series ids => modify fun m => m.addOutages series ids
  | addIgnoreLimits series => modify fun m => m.addIgnoreLimits series

end Change

/-- What a change leaves of a mapping, refused or not. -/
def after (m : Mapping) (c : Change) : Mapping := c.update.after m

def afterAll (m : Mapping) (history : List Change) : Mapping := history.foldl after m

@[simp]
theorem afterAll_nil (m : Mapping) : m.afterAll [] = m := rfl

/-- A history is its first change and then the rest. -/
@[simp]
theorem afterAll_cons (m : Mapping) (c : Change) (history : List Change) :
    m.afterAll (c :: history) = (m.after c).afterAll history := rfl

end GridSeries.Mapping
