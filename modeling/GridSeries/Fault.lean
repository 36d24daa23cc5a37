import GridSeries.Formula.Basic
import GridSeries.Interval
import GridSeries.Key.Basic
import GridSeries.Key.Weight

/-! Everything that can go wrong, by cause, and the wording of each cause. -/
namespace GridSeries

/-- Why a document cannot be read. -/
inductive DocumentFault where
  /-- The text is no JSON text, or a value in it has another shape than its place asks for. -/
  | unreadable
  | notObject (place : String)
  | notArray (place : String)
  | notText (place : String)
  | unexpectedField (name : String)
  | unexpectedEntryField (name place : String)
  | missingEntryField (name place : String)
  | version (found : Option Nat)
  | repeatedKey (place : String) (key : Key)
  | weight (key : Key) (cause : WeightFault)
deriving DecidableEq, Repr

/-- How the two directions of an index disagree. -/
inductive IndexFault where
  | noSeries (category : Category) (key : Key)
  | oneSidedKey (category : Category) (key : Key) (series : String)
  | oneSidedSeries (category : Category) (key : Key) (series : String)
deriving DecidableEq, Repr

/-- How two samplings, or two arrays, disagree. -/
inductive SamplingFault where
  | wrongCount (name : String) (values points : Nat)
  | otherSampling (name : String)
  | differ (first second : String)
  | lengths (left right : Nat) (formula : Formula)
deriving DecidableEq, Repr

/-- What is wrong with settings or arguments. -/
inductive ConfigFault where
  | weight (cause : WeightFault)
  | noDefaultVariable (category : Category) (id : String)
  | versionZero
  | noInterval
deriving DecidableEq, Repr

inductive Fault where
  | document (cause : DocumentFault)
  | family (name : String)
  | unknownVariable (family name : String)
  | key (cause : KeyFault)
  | incompatible (category : Category) (driven : Variable)
  | contradiction (id existing requested : String)
  | unmappedButBound (id series : String)
  | index (cause : IndexFault)
  | overlap (first second : Interval)
  | badInterval (r : Interval)
  | chunkSize (size : Int)
  | sampling (cause : SamplingFault)
  | noSampling
  | unknownSeries (name : String)
  | missingVersions (name : String) (versions : List Nat)
  | unknownEquipment (category : Category) (id : String)
  | cycle (name : String)
  | notFinite (name : String) (point : Nat) (value : Float)
  | config (cause : ConfigFault)

namespace DocumentFault

def supportedVersion : Nat := 1

private def showVersion : Option Nat → String
  | none => "None"
  | some n => "Some(" ++ toString n ++ ")"

def message : DocumentFault → String
  | unreadable => "not a document"
  | notObject place => place ++ " must be an object"
  | notArray place => place ++ " must be an array"
  | notText place => place ++ " must be a string"
  | unexpectedField name => "unexpected field '" ++ name ++ "'"
  | unexpectedEntryField name place => "unexpected field '" ++ name ++ "' in " ++ place
  | missingEntryField name place => "missing field '" ++ name ++ "' in " ++ place
  | version found =>
    "unsupported document version " ++ showVersion found ++ ", expected " ++ toString supportedVersion
  | repeatedKey place key => "duplicate " ++ place ++ " entry for " ++ key.render
  | weight key cause =>
    "distributionKeys entry for " ++ key.render ++ ": Configuration error: " ++ cause.message

end DocumentFault

namespace IndexFault

def message : IndexFault → String
  | noSeries category key => category.label ++ " key " ++ key.render ++ " has an empty time series list"
  | oneSidedKey category key series =>
    category.label ++ " key " ++ key.render ++ " lists '" ++ series ++ "' but '" ++ series ++ "' does not feed it"
  | oneSidedSeries category key series =>
    "'" ++ series ++ "' feeds " ++ category.label ++ " key " ++ key.render ++ " but the key does not list it"

end IndexFault

namespace SamplingFault

def message : SamplingFault → String
  | wrongCount name values points =>
    "'" ++ name ++ "' has " ++ toString values ++ " values for an index of " ++ toString points ++ " points"
  | otherSampling name => "'" ++ name ++ "' already stored with another index"
  | differ first second => "'" ++ first ++ "' and '" ++ second ++ "' differ"
  | lengths left right formula =>
    "cannot combine " ++ toString left ++ " and " ++ toString right ++ " points in " ++ formula.render

end SamplingFault

namespace ConfigFault

def message : ConfigFault → String
  | weight cause => cause.message
  | noDefaultVariable category id =>
    category.label ++ " has no default variable, name one to declare '" ++ id ++ "'"
  | versionZero => "data versions must be positive"
  | noInterval => "at least one point range is needed to cut chunks"

end ConfigFault

namespace Fault

private def showVersions (versions : List Nat) : String :=
  "[" ++ String.intercalate ", " (versions.map toString) ++ "]"

def message : Fault → String
  | document cause => "Parse error: " ++ cause.message
  | family name => "ambiguous or missing variable provider for field name '" ++ name ++ "'"
  | unknownVariable fam name => "unknown variable '" ++ name ++ "' for field name '" ++ fam ++ "'"
  | key cause => "malformed mapping key: " ++ cause.message
  | incompatible category driven =>
    "variable '" ++ driven.label ++ "' is not compatible with " ++ category.label ++ " equipment"
  | contradiction id existing requested =>
    "contradictory mapping for '" ++ id ++ "': mapped on '" ++ existing ++ "' and on '" ++ requested ++ "'"
  | unmappedButBound id series =>
    "Equipment '" ++ id ++ "' is declared unmapped but mapped on time series '" ++ series ++ "'"
  | index cause => "mapping index integrity violated: " ++ cause.message
  | overlap first second => first.render ++ " overlaps with range " ++ second.render
  | badInterval r => "malformed range " ++ r.render ++ ": bounds must satisfy 0 <= lower <= upper"
  | chunkSize size => "Chunk size (" ++ toString size ++ ") has to be greater or equals to one"
  | sampling cause => "Time series involved in the mapping must have the same index: " ++ cause.message
  | noSampling =>
    "no time series index available: cannot default the point range of an empty store"
  | unknownSeries name => "unknown time series '" ++ name ++ "'"
  | missingVersions name versions =>
    "The time series store does not contain values for ts " ++ name ++ " and version(s) " ++ showVersions versions
  | unknownEquipment category id => "unknown " ++ category.label ++ " equipment '" ++ id ++ "'"
  | cycle name => "cyclic formula definition involving '" ++ name ++ "'"
  | notFinite name point value =>
    "Impossible to scale down " ++ showFloat value ++ " of ts " ++ name ++ " at point " ++ toString point
  | config cause => "Configuration error: " ++ cause.message

end Fault
end GridSeries
