import GridSeries.Mapping.Basic
import GridSeries.Update

/-! The changes a mapping admits. -/
namespace GridSeries.Mapping

def boundRival? (m : Mapping) (c : Category) (k : Key) (q : Quantity) : Option Quantity :=
  q.rivals.find? fun r => (m.category c).isBound (k.withQuantity r)

/-- Refuses a key whose equipment is bound on the total of its quantity or on one of its parts. -/
def checkRivals (m : Mapping) (c : Category) (k : Key) : Except Fault Unit :=
  match k.driven.quantity? with
  | none => .ok ()
  | some q =>
    match m.boundRival? c k q with
    | none => .ok ()
    | some r => .error (.contradiction k.id r.name q.name)

def checkBind (m : Mapping) (c : Category) (series : String) (k : Key) (weight : Option Weight) :
    Except Fault Unit := do
  if series = "" then throw (.key (.unnamedSeries k))
  if !k.driven.fits c then throw (.incompatible c k.driven)
  m.checkRivals c k
  match weight with
  | none => pure ()
  | some w => w.check.mapError fun cause => .config (.weight cause)

def isPrimaryKey (c : Category) (k : Key) : Bool := k.driven.quantity?.any fun q => q.isPrimary c

/-- Binds a series to a key: the equipment of a newly bound primary quantity no longer counts as unmapped. -/
def linkIn (c : Category) (series : String) (k : Key) (b : Bindings) : Bindings :=
  if series ∈ b.seriesFor k then b
  else
    let b := b.link series k
    if isPrimaryKey c k then { b with unmapped := b.unmapped.erase k.id } else b

/-- Records a binding that was found admissible. -/
def bound (m : Mapping) (c : Category) (series : String) (k : Key) (weight : Option Weight) : Mapping :=
  { m.modifyCategory c (linkIn c series k) with
    weights := match weight with
      | none => m.weights
      | some w => m.weights.insert k w
    boundSeries := m.boundSeries.insert series }

/-- Binds a series to a key of a category. A further series for the key ranks after those it has; a weight replaces
the one the key had. -/
def bind (c : Category) (series : String) (k : Key) (weight : Option Weight) : Update Mapping Unit := do
  let m ← get
  Update.ofExcept (m.checkBind c series k weight)
  set (m.bound c series k weight)

def markUnmapped (m : Mapping) (c : Category) (id : String) : Mapping :=
  m.modifyCategory c fun b => { b with unmapped := b.unmapped.insert id }

def markIgnoredUnmapped (m : Mapping) (c : Category) (id : String) : Mapping :=
  m.modifyCategory c fun b => { b with ignoredUnmapped := b.ignoredUnmapped.insert id }

def markDisconnected (m : Mapping) (c : Category) (id : String) : Mapping :=
  m.modifyCategory c fun b => { b with disconnected := b.disconnected.insert id }

def markOutsideMain (m : Mapping) (c : Category) (id : String) : Mapping :=
  m.modifyCategory c fun b => { b with outsideMain := b.outsideMain.insert id }

def declareOne (c : Category) (id : String) (v : Variable) : Update Mapping Unit := do
  if !v.fits c then throw (.incompatible c v)
  let k ← Update.ofExcept ((Key.make v id).mapError .key)
  modify fun m => m.modifyCategory c fun b => { b with declared := b.declared.insert k }

/-- Declares that a series exists for variables of a piece of equipment; no variable stands for the primary ones of
the category. The variables are taken in turn, and those before a refused one stay declared. -/
def declare (c : Category) (id : String) (named : List Variable) : Update Mapping Unit := do
  let all := if named.isEmpty then (Quantity.primary c).map .builtin else named
  if all.isEmpty then throw (.config (.noDefaultVariable c id))
  all.forM (declareOne c id)

/-- Defines a derived series, unless it would depend on itself. -/
def addFormula (name : String) (f : Formula) : Update Mapping Unit := do
  let m ← get
  if m.formulas.wouldCycle name f then throw (.cycle name)
  set { m with formulas := m.formulas.insert name f }

def addOutages (m : Mapping) (series : String) (ids : List String) : Mapping :=
  { m with outages := m.outages.insert series ((m.outages.getD series ∅).insertAll ids) }

def addIgnoreLimits (m : Mapping) (series : String) : Mapping :=
  { m with ignoreLimits := m.ignoreLimits.insert series }

end GridSeries.Mapping
