import GridSeries.Document.Read
import GridSeries.Proofs.Json.Normal
import Mathlib.Data.List.Nodup

/-! The sections of a written document in one table: every name that the format has stands in it once, with the value
of its section or without one when the section is left out. -/
namespace GridSeries.Document
open Json (normalFields field?_normalFields name_mem_of_mem_normalFields)

/-- The value of a section, unless it is left out. -/
def valueUnless (absent : Bool) (v : Json) : Option Json := if absent then none else some v

/-- A list that is left out when it is empty. -/
def listValue (items : List Json) : Option Json := valueUnless items.isEmpty (.array items)

def namesValue (s : SortedSet String) : Option Json := listValue (s.toList.map .string)

/-- The sections of a category under their names. -/
def categoryTable (c : Category) (b : Bindings) : List (String × Option Json) :=
  let names := sections c
  [(names.forward, listValue (b.forward.entries.map forwardEntry)),
    (names.reverse, listValue (b.reverse.entries.map reverseEntry)),
    (names.declared, listValue (b.declared.toList.map Key.toJson)),
    (names.unmapped, namesValue b.unmapped), (names.ignoredUnmapped, namesValue b.ignoredUnmapped),
    (names.disconnected, namesValue b.disconnected), (names.outsideMain, namesValue b.outsideMain)]

/-- The sections that belong to no category. -/
def globalTable (m : Mapping) : List (String × Option Json) :=
  [(weightsField, listValue (m.weights.entries.map weightEntry)),
    (formulasField, valueUnless m.formulas.isEmpty (.object (m.formulas.entries.map fun e => (e.1, e.2.toJson)))),
    (boundSeriesField, namesValue m.boundSeries), (ignoreLimitsField, namesValue m.ignoreLimits),
    (outagesField, listValue (m.outages.entries.map outagesEntry))]

/-- All sections under their names. -/
def table (m : Mapping) : List (String × Option Json) :=
  (versionField, some (.ofNat DocumentFault.supportedVersion)) ::
    (Category.all.flatMap (fun c => categoryTable c (m.category c)) ++ globalTable m)

/-- The fields of the sections that are not left out. -/
def present (t : List (String × Option Json)) : List (String × Json) := t.filterMap fun e => e.2.map fun v => (e.1, v)

private theorem present_append (t u : List (String × Option Json)) : present (t ++ u) = present t ++ present u :=
  List.filterMap_append

private theorem listSection_eq (name : String) (items : List Json) :
    listSection name items = present [(name, listValue items)] := by
  rw [listSection, listValue, valueUnless]
  cases items.isEmpty <;> rfl

private theorem categorySections_eq (c : Category) (b : Bindings) :
    categorySections c b = present (categoryTable c b) := by
  simp only [categorySections, namesSection, listSection_eq, ← present_append]
  rfl

/-- What is written is what is present of one table of sections. -/
theorem allSections_eq (m : Mapping) : allSections m = present (table m) := by
  have hcategories : Category.all.flatMap (fun c => categorySections c (m.category c)) =
      present (Category.all.flatMap fun c => categoryTable c (m.category c)) := by
    simp only [categorySections_eq, present, List.filterMap_flatMap]
  have hformulas : formulasSection m.formulas = present [(formulasField,
      valueUnless m.formulas.isEmpty (.object (m.formulas.entries.map fun e => (e.1, e.2.toJson))))] := by
    rw [formulasSection, valueUnless]
    cases m.formulas.isEmpty <;> rfl
  simp only [allSections, namesSection, listSection_eq, hcategories, hformulas, List.append_assoc, ← present_append]
  rfl

private theorem table_names_perm (m : Mapping) : ((table m).map (·.1)).Perm fieldNames := by
  have hnames : (table m).map (·.1) = versionField :: ((Category.all.flatMap fun c => (sections c).toList) ++
      [weightsField, formulasField, boundSeriesField, ignoreLimitsField, outagesField]) := by
    simp only [table, List.map_cons, List.map_append, List.map_flatMap]
    rfl
  rw [hnames]
  exact List.perm_append_comm.cons versionField

private theorem table_nodup (m : Mapping) : ((table m).map (·.1)).Nodup :=
  (table_names_perm m).nodup_iff.2 fieldNames_nodup

private theorem present_names_sublist (t : List (String × Option Json)) :
    ((present t).map (·.1)).Sublist (t.map (·.1)) := by
  induction t with
  | nil => exact .slnil
  | cons e t ih =>
    obtain ⟨name, o⟩ := e
    cases o with
    | none => exact ih.cons name
    | some v => exact ih.cons_cons name

/-- A section is found under its name, if it is not left out. -/
theorem field?_present {t : List (String × Option Json)} (ht : (t.map (·.1)).Nodup) {name : String} {o : Option Json}
    (h : (name, o) ∈ t) : Json.field? name (present t) = o := by
  have hnodup := (present_names_sublist t).nodup ht
  apply Option.ext
  intro v
  rw [Json.field?_eq_some_iff hnodup, present, List.mem_filterMap]
  constructor
  · rintro ⟨⟨k, p⟩, hmem, hv⟩
    obtain ⟨w, rfl, heq⟩ := Option.map_eq_some_iff.1 hv
    cases heq
    have hsame := List.inj_on_of_nodup_map ht hmem h rfl
    cases hsame
    rfl
  · rintro rfl
    exact ⟨(name, some v), h, rfl⟩

def writtenFields (m : Mapping) : List (String × Json) := normalFields (allSections m)

/-- The written tree is an object in order. -/
theorem write_eq (m : Mapping) : write m = .object (writtenFields m) := Json.normalize_object _

private theorem allSections_nodup (m : Mapping) : ((allSections m).map (·.1)).Nodup := by
  rw [allSections_eq]
  exact (present_names_sublist _).nodup (table_nodup m)

/-- Every section is written under its name, in normal form. -/
theorem field?_writtenFields {m : Mapping} {name : String} {o : Option Json} (h : (name, o) ∈ table m) :
    Json.field? name (writtenFields m) = o.map Json.normalize := by
  rw [writtenFields, field?_normalFields (allSections_nodup m), allSections_eq, field?_present (table_nodup m) h]

/-- A written document has no other fields, and the version that is supported. -/
theorem checkFields_writtenFields (m : Mapping) : checkFields (writtenFields m) = .ok () := by
  have hfind : (writtenFields m).find? (fun f => !fieldNames.contains f.1) = none := by
    rw [List.find?_eq_none]
    intro f hf
    have hname := name_mem_of_mem_normalFields hf
    rw [allSections_eq] at hname
    have hmem := (table_names_perm m).mem_iff.1 ((present_names_sublist _).subset hname)
    simpa using hmem
  have hversion : versionOf? (writtenFields m) = some DocumentFault.supportedVersion := by
    rw [versionOf?, field?_writtenFields (List.mem_cons_self)]
    rfl
  rw [checkFields, hfind]
  dsimp only
  rw [if_pos hversion]

/-- The sections of every category are in the table. -/
theorem mem_table_of_category {m : Mapping} (c : Category) {e : String × Option Json}
    (h : e ∈ categoryTable c (m.category c)) : e ∈ table m :=
  List.mem_cons_of_mem _ (List.mem_append_left _ (List.mem_flatMap.2 ⟨c, Category.mem_all c, h⟩))

/-- The sections that belong to no category are in the table. -/
theorem mem_table_of_global {m : Mapping} {e : String × Option Json} (h : e ∈ globalTable m) : e ∈ table m :=
  List.mem_cons_of_mem _ (List.mem_append_right _ h)

end GridSeries.Document
