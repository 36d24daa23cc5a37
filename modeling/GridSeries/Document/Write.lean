import GridSeries.Document.Names
import GridSeries.Formula.Json
import GridSeries.Json.Normal
import GridSeries.Key.Json
import GridSeries.Mapping.Basic

/-! The document of a mapping. Sections that would be empty are left out, keys are listed in order, and the series of
a key in the order of binding. -/
namespace GridSeries.Document

/-- A section that holds a list, unless the list is empty. -/
def listSection (name : String) (items : List Json) : List (String × Json) :=
  if items.isEmpty then [] else [(name, .array items)]

def namesSection (name : String) (s : SortedSet String) : List (String × Json) :=
  listSection name (s.toList.map .string)

def keysJson (s : SortedSet Key) : Json := .array (s.toList.map Key.toJson)

def forwardEntry (e : String × SortedSet Key) : Json :=
  .object [(seriesField, .string e.1), (keysField, keysJson e.2)]

def reverseEntry (e : Key × List String) : Json :=
  .object [(keyField, e.1.toJson), (seriesListField, .strings e.2)]

def weightEntry (e : Key × Weight) : Json :=
  .object [(keyField, e.1.toJson), (weightField, e.2.toJson)]

def outagesEntry (e : String × SortedSet String) : Json :=
  .object [(seriesField, .string e.1), (outageIdsField, .strings e.2.toList)]

def categorySections (c : Category) (b : Bindings) : List (String × Json) :=
  let names := sections c
  listSection names.forward (b.forward.entries.map forwardEntry) ++
  listSection names.reverse (b.reverse.entries.map reverseEntry) ++
  listSection names.declared (b.declared.toList.map Key.toJson) ++
  namesSection names.unmapped b.unmapped ++
  namesSection names.ignoredUnmapped b.ignoredUnmapped ++
  namesSection names.disconnected b.disconnected ++
  namesSection names.outsideMain b.outsideMain

def formulasSection (defs : Definitions) : List (String × Json) :=
  if defs.isEmpty then [] else [(formulasField, .object (defs.entries.map fun e => (e.1, e.2.toJson)))]

/-- The sections of a mapping, before they are sorted. -/
def allSections (m : Mapping) : List (String × Json) :=
  (versionField, .ofNat DocumentFault.supportedVersion) ::
    (Category.all.flatMap (fun c => categorySections c (m.category c)) ++
      listSection weightsField (m.weights.entries.map weightEntry) ++
      formulasSection m.formulas ++
      namesSection boundSeriesField m.boundSeries ++
      namesSection ignoreLimitsField m.ignoreLimits ++
      listSection outagesField (m.outages.entries.map outagesEntry))

/-- The document of a mapping: every object sorted by key. -/
def write (m : Mapping) : Json := (Json.object (allSections m)).normalize

end GridSeries.Document
