/-! Categories of grid equipment, the names that documents and messages give them, and tables with one entry for each
category. -/
namespace GridSeries

inductive Category where
  | generator
  | load
  | danglingLine
  | hvdcLine
  | phaseTapChanger
  | breaker
  | transformer
  | line
  | ratioTapChanger
  | lccConverterStation
  | vscConverterStation
deriving DecidableEq, Repr

namespace Category

def all : List Category :=
  [generator, load, danglingLine, hvdcLine, phaseTapChanger, breaker, transformer, line, ratioTapChanger,
    lccConverterStation, vscConverterStation]

/-- The list of categories leaves none out. -/
theorem mem_all (c : Category) : c ∈ all := by cases c <;> decide

/-- The place of a category in `all`. -/
def index : Category → Fin 11
  | generator => 0
  | load => 1
  | danglingLine => 2
  | hvdcLine => 3
  | phaseTapChanger => 4
  | breaker => 5
  | transformer => 6
  | line => 7
  | ratioTapChanger => 8
  | lccConverterStation => 9
  | vscConverterStation => 10

private theorem index_injective {c d : Category} (h : c.index = d.index) : c = d := by
  revert h
  cases c <;> cases d <;> decide

private theorem exists_index : ∀ i : Fin 11, ∃ c ∈ all, c.index = i := by decide

def label : Category → String
  | generator => "generator"
  | load => "load"
  | danglingLine => "dangling line"
  | hvdcLine => "HVDC line"
  | phaseTapChanger => "phase tap changer"
  | breaker => "breaker"
  | transformer => "transformer"
  | line => "line"
  | ratioTapChanger => "ratio tap changer"
  | lccConverterStation => "LCC converter station"
  | vscConverterStation => "VSC converter station"

/-- The category as field names and reports begin with it. -/
def singular : Category → String
  | generator => "generator"
  | load => "load"
  | danglingLine => "danglingLine"
  | hvdcLine => "hvdcLine"
  | phaseTapChanger => "phaseTapChanger"
  | breaker => "breaker"
  | transformer => "transformer"
  | line => "line"
  | ratioTapChanger => "ratioTapChanger"
  | lccConverterStation => "lccConverterStation"
  | vscConverterStation => "vscConverterStation"

/-- The category as field names end with it. -/
def plural : Category → String
  | generator => "Generators"
  | load => "Loads"
  | danglingLine => "DanglingLines"
  | hvdcLine => "HvdcLines"
  | phaseTapChanger => "PhaseTapChangers"
  | breaker => "Breakers"
  | transformer => "Transformers"
  | line => "Lines"
  | ratioTapChanger => "RatioTapChangers"
  | lccConverterStation => "LccConverterStations"
  | vscConverterStation => "VscConverterStations"

end Category

/-- One entry for each category. -/
structure PerCategory (α : Type) where
  table : Vector α 11
deriving DecidableEq

namespace PerCategory

variable {α : Type}

def replicate (a : α) : PerCategory α := ⟨Vector.replicate 11 a⟩

instance [Inhabited α] : Inhabited (PerCategory α) := ⟨replicate default⟩

def get (t : PerCategory α) (c : Category) : α := t.table[c.index]

def set (t : PerCategory α) (c : Category) (a : α) : PerCategory α := ⟨t.table.set c.index a⟩

def modify (t : PerCategory α) (c : Category) (f : α → α) : PerCategory α := t.set c (f (t.get c))

@[simp]
theorem get_replicate (a : α) (c : Category) : (replicate a).get c = a := by simp [replicate, get]

/-- Setting the entry of a category leaves those of the others. -/
@[simp]
theorem get_set (t : PerCategory α) (c d : Category) (a : α) :
    (t.set c a).get d = if d = c then a else t.get d := by
  simp only [get, set, Fin.getElem_fin, Vector.getElem_set]
  by_cases h : d = c
  · simp [h]
  · have : ¬ c.index.val = d.index.val := fun e => h (Category.index_injective (Fin.ext e)).symm
    simp [h, this]

/-- So does changing it. -/
@[simp]
theorem get_modify (t : PerCategory α) (c d : Category) (f : α → α) :
    (t.modify c f).get d = if d = c then f (t.get d) else t.get d := by
  unfold modify
  rw [get_set]
  split <;> simp_all

/-- Tables are determined by their entries. -/
theorem eq_of_get_eq {t u : PerCategory α} (h : ∀ c, t.get c = u.get c) : t = u := by
  obtain ⟨t⟩ := t
  obtain ⟨u⟩ := u
  congr 1
  apply Vector.ext
  intro i hi
  obtain ⟨c, _, hc⟩ := Category.exists_index ⟨i, hi⟩
  have := h c
  simpa [get, hc] using this

end PerCategory
end GridSeries
