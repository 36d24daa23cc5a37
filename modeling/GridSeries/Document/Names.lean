import GridSeries.Network.Category

/-! The field names of documents. They are part of the stored format: a category reserves seven of them, and the rest
belong to the mapping as a whole. -/
namespace GridSeries.Document

structure Sections where
  forward : String
  reverse : String
  declared : String
  unmapped : String
  ignoredUnmapped : String
  disconnected : String
  outsideMain : String
deriving DecidableEq, Repr

def sections (c : Category) : Sections :=
  { forward := "timeSeriesTo" ++ c.plural ++ "Mapping"
    reverse := c.singular ++ "ToTimeSeriesMapping"
    declared := c.singular ++ "TimeSeries"
    unmapped := "unmapped" ++ c.plural
    ignoredUnmapped := "ignoredUnmapped" ++ c.plural
    disconnected := "disconnected" ++ c.plural
    outsideMain := "outOfMainCc" ++ c.plural }

def Sections.toList (s : Sections) : List String :=
  [s.forward, s.reverse, s.declared, s.unmapped, s.ignoredUnmapped, s.disconnected, s.outsideMain]

def versionField : String := "version"

def weightsField : String := "distributionKeys"

def formulasField : String := "timeSeriesNodes"

def boundSeriesField : String := "mappedTimeSeriesNames"

def ignoreLimitsField : String := "ignoreLimitsTimeSeriesNames"

def outagesField : String := "timeSeriesToPlannedOutagesMapping"

def fieldNames : List String :=
  [versionField, weightsField, formulasField, boundSeriesField, ignoreLimitsField, outagesField] ++
    Category.all.flatMap fun c => (sections c).toList

/-- No name serves twice. -/
theorem fieldNames_nodup : fieldNames.Nodup := by decide +kernel

def seriesField : String := "timeSeriesName"

def keyField : String := "mappingKey"

def keysField : String := "mappingKeys"

def seriesListField : String := "mappingList"

def weightField : String := "distributionKey"

def outageIdsField : String := "outages"

end GridSeries.Document
