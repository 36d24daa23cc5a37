import GridSeries.Document.Write
import GridSeries.Json.Reader
import GridSeries.Mapping.Check
import GridSeries.Mapping.Edit

/-! Reading documents. Nothing is skipped: a field that the format does not have, an incomplete entry, a key that no
family knows, a formula that depends on itself or an index whose directions disagree make the document invalid. -/
namespace GridSeries.Document

def fieldsOf (place : String) : Json → Except Fault (List (String × Json))
  | .object fields => .ok fields
  | _ => .error (.document (.notObject place))

def itemsOf (place : String) : Json → Except Fault (List Json)
  | .array items => .ok items
  | _ => .error (.document (.notArray place))

def textOf (place : String) : Json → Except Fault String
  | .string s => .ok s
  | _ => .error (.document (.notText place))

/-- The values of the two fields that an entry of a section must have, and no others. -/
def entryOf (place first second : String) (v : Json) : Except Fault (Json × Json) := do
  let fields ← fieldsOf place v
  match fields.find? fun f => f.1 != first && f.1 != second with
  | some (name, _) => throw (.document (.unexpectedEntryField name place))
  | none =>
    match Json.field? first fields, Json.field? second fields with
    | none, _ => throw (.document (.missingEntryField first place))
    | _, none => throw (.document (.missingEntryField second place))
    | some a, some b => pure (a, b)

def textsOf (place : String) (v : Json) : Except Fault (List String) := do
  (← itemsOf place v).mapM (textOf place)

def nameSetOf (place : String) (v : Json) : Except Fault (SortedSet String) := do
  pure (SortedSet.ofList (← textsOf place v))

def keySetOf (r : Registry) (place : String) (v : Json) : Except Fault (SortedSet Key) := do
  pure (SortedSet.ofList (← (← itemsOf place v).mapM (Key.ofJson r)))

/-- Reads a section if the document has it; an absent one stands for `missing`. -/
def optional {α : Type} (fields : List (String × Json)) (name : String) (missing : α)
    (read : Json → Except Fault α) : Except Fault α :=
  match Json.field? name fields with
  | none => .ok missing
  | some v => read v

/-- Adds one entry of a forward section; of two entries for a series the later stands. -/
def readForwardEntry (r : Registry) (place : String) (forward : SortedMap String (SortedSet Key)) (v : Json) :
    Except Fault (SortedMap String (SortedSet Key)) := do
  let (series, keys) ← entryOf place seriesField keysField v
  let series ← textOf seriesField series
  let keys ← keySetOf r keysField keys
  pure (forward.insert series keys)

/-- Adds one entry of a reverse section, which has at most one for each key. -/
def readReverseEntry (r : Registry) (place : String) (reverse : SortedMap Key (List String)) (v : Json) :
    Except Fault (SortedMap Key (List String)) := do
  let (key, series) ← entryOf place keyField seriesListField v
  let key ← Key.ofJson r key
  let series ← textsOf seriesListField series
  if reverse.contains key then throw (.document (.repeatedKey place key))
  pure (reverse.insert key series)

def readCategory (r : Registry) (fields : List (String × Json)) (c : Category) : Except Fault Bindings := do
  let names := sections c
  let forward ← optional fields names.forward ∅ fun v => do
    (← itemsOf names.forward v).foldlM (readForwardEntry r names.forward) ∅
  let reverse ← optional fields names.reverse ∅ fun v => do
    (← itemsOf names.reverse v).foldlM (readReverseEntry r names.reverse) ∅
  let declared ← optional fields names.declared ∅ (keySetOf r names.declared)
  let unmapped ← optional fields names.unmapped ∅ (nameSetOf names.unmapped)
  let ignoredUnmapped ← optional fields names.ignoredUnmapped ∅ (nameSetOf names.ignoredUnmapped)
  let disconnected ← optional fields names.disconnected ∅ (nameSetOf names.disconnected)
  let outsideMain ← optional fields names.outsideMain ∅ (nameSetOf names.outsideMain)
  pure { forward, reverse, declared, unmapped, ignoredUnmapped, disconnected, outsideMain }

/-- Adds one weight; of two entries for a key the later stands. -/
def readWeightEntry (r : Registry) (weights : SortedMap Key Weight) (v : Json) :
    Except Fault (SortedMap Key Weight) := do
  let (key, weight) ← entryOf weightsField keyField weightField v
  let key ← Key.ofJson r key
  match Weight.ofJson? weight with
  | none => throw (.document .unreadable)
  | some w =>
    w.check.mapError fun cause => .document (.weight key cause)
    pure (weights.insert key w)

def readFormula (e : String × Json) : Except Fault (String × Formula) :=
  match Formula.ofJson? e.2 with
  | some f => .ok (e.1, f)
  | none => .error (.document .unreadable)

def define (defs : Definitions) (e : String × Formula) : Except Fault Definitions :=
  if defs.wouldCycle e.1 e.2 then .error (.cycle e.1) else .ok (defs.insert e.1 e.2)

/-- Reads all formulas, then defines them in the order of their names. -/
def readFormulas (v : Json) : Except Fault Definitions := do
  let formulas ← (← fieldsOf formulasField v).mapM readFormula
  (SortedMap.ofList formulas).entries.foldlM define ∅

def readOutagesEntry (outages : SortedMap String (SortedSet String)) (v : Json) :
    Except Fault (SortedMap String (SortedSet String)) := do
  let (series, ids) ← entryOf outagesField seriesField outageIdsField v
  let series ← textOf seriesField series
  let ids ← nameSetOf outageIdsField ids
  pure (outages.insert series ((outages.getD series ∅).union ids))

/-- The version a document carries, if it is a whole number that is not negative. -/
def versionOf? (fields : List (String × Json)) : Option Nat :=
  match Json.field? versionField fields with
  | some (.number (.whole n)) => if 0 ≤ n then some n.toNat else none
  | _ => none

/-- Refuses fields that the format does not have, and other versions of it. -/
def checkFields (fields : List (String × Json)) : Except Fault Unit :=
  match fields.find? fun f => !fieldNames.contains f.1 with
  | some (name, _) => .error (.document (.unexpectedField name))
  | none =>
    if versionOf? fields = some DocumentFault.supportedVersion then .ok ()
    else .error (.document (.version (versionOf? fields)))

def readCategories (r : Registry) (fields : List (String × Json)) : Except Fault (PerCategory Bindings) :=
  Category.all.foldlM (fun table c => do pure (table.set c (← readCategory r fields c))) (.replicate .empty)

/-- The mapping that a document holds. The document is in normal form. -/
def read (r : Registry) (v : Json) : Except Fault Mapping := do
  let fields ← fieldsOf "mapping document" v
  checkFields fields
  let categories ← readCategories r fields
  let weights ← optional fields weightsField ∅ fun v => do
    (← itemsOf weightsField v).foldlM (readWeightEntry r) ∅
  let formulas ← optional fields formulasField ∅ readFormulas
  let boundSeries ← optional fields boundSeriesField ∅ (nameSetOf boundSeriesField)
  let ignoreLimits ← optional fields ignoreLimitsField ∅ (nameSetOf ignoreLimitsField)
  let outages ← optional fields outagesField ∅ fun v => do
    (← itemsOf outagesField v).foldlM readOutagesEntry ∅
  let m : Mapping := { categories, weights, formulas, boundSeries, ignoreLimits, outages }
  m.checkIndex
  pure m

def parse (r : Registry) (text : String) : Except Fault Mapping :=
  match Json.read? text with
  | none => .error (.document .unreadable)
  | some v => read r v.normalize

end GridSeries.Document
