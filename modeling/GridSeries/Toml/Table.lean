import GridSeries.Toml.Value

/-! How the lines of a document make up its tables. A table is opened by its header, implied by the header of a table
inside it, or made by a key of several parts; only some of these may be added to, and no key is given twice. -/
namespace GridSeries.Toml

/-- How a table came to be. -/
inductive Origin where
  | named
  | implied
  | dotted
deriving DecidableEq, Repr

/-- What stands under a key: a value, a table that may still grow, or the tables of a repeated header, the last of
them first. -/
inductive Item where
  | value (v : Value)
  | table (origin : Origin) (entries : List (String × Item))
  | tables (elements : List (List (String × Item)))

/-- The entries of a table, in the order in which they were made. -/
abbrev Entries := List (String × Item)

def Entries.find? (key : String) : Entries → Option Item
  | [] => none
  | (k, item) :: rest => if k = key then some item else find? key rest

/-- Puts an item under a key, in place of the one there. -/
def Entries.put (key : String) (item : Item) : Entries → Entries
  | [] => [(key, item)]
  | (k, old) :: rest => if k = key then (key, item) :: rest else (k, old) :: put key item rest

/-- Changes the table that a header of tables leads to: tables on the way are made if they are missing. -/
def Entries.within (change : Entries → Option Entries) : List String → Entries → Option Entries
  | [], entries => change entries
  | key :: path, entries =>
    match entries.find? key with
    | none => (within change path []).map fun inner => entries.put key (.table .implied inner)
    | some (.table origin inner) => (within change path inner).map fun inner => entries.put key (.table origin inner)
    | some (.tables (last :: others)) =>
      (within change path last).map fun last => entries.put key (.tables (last :: others))
    | some _ => none

/-- Opens the table of a header: it may have been implied before, but not opened or made by a key. -/
def Entries.openTable (key : String) (entries : Entries) : Option Entries :=
  match entries.find? key with
  | none => some (entries.put key (.table .named []))
  | some (.table .implied inner) => some (entries.put key (.table .named inner))
  | some _ => none

/-- Begins a further table under a repeated header. -/
def Entries.openElement (key : String) (entries : Entries) : Option Entries :=
  match entries.find? key with
  | none => some (entries.put key (.tables [[]]))
  | some (.tables elements) => some (entries.put key (.tables ([] :: elements)))
  | some _ => none

/-- Gives a key of several parts its value. The last table on the way must have been made by such keys only. -/
def Entries.assign (v : Value) : (inside : Option Origin) → List String → Entries → Option Entries
  | _, [], _ => none
  | inside, [key], entries =>
    if inside = none ∨ inside = some .dotted then
      match entries.find? key with
      | none => some (entries.put key (.value v))
      | some _ => none
    else none
  | _, key :: path, entries =>
    match entries.find? key with
    | none => (assign v (some .dotted) path []).map fun inner => entries.put key (.table .dotted inner)
    | some (.table .named _) => none
    | some (.table origin inner) =>
      (assign v (some origin) path inner).map fun inner => entries.put key (.table origin inner)
    | some (.tables (last :: others)) =>
      (assign v (some .named) path last).map fun last => entries.put key (.tables (last :: others))
    | some _ => none

mutual

def Item.toValue : Item → Value
  | .value v => v
  | .table _ entries => .table (entriesToValues entries)
  | .tables elements => .array (elementsToValues elements).reverse

def entriesToValues : List (String × Item) → List (String × Value)
  | [] => []
  | (k, item) :: rest => (k, item.toValue) :: entriesToValues rest

def elementsToValues : List (List (String × Item)) → List Value
  | [] => []
  | entries :: rest => .table (entriesToValues entries) :: elementsToValues rest

end

def tableOfPairs? (pairs : List (List String × Value)) : Option Value := do
  let entries ← pairs.foldlM (fun entries (path, v) => Entries.assign v none path entries) ([] : Entries)
  pure (.table (entriesToValues entries))

end GridSeries.Toml
