import GridSeries.Document.Read
import GridSeries.Proofs.Outcome

/-! When a document is accepted: every section on its own holds the part of the mapping it stands for, and the index
of the mapping passes its check. -/
namespace GridSeries.Document

/-- The fields of a document hold a mapping, part by part. -/
structure Holds (r : Registry) (fields : List (String × Json)) (m : Mapping) : Prop where
  names : checkFields fields = .ok ()
  categories : readCategories r fields = .ok m.categories
  weights : (optional fields weightsField ∅ fun v => do
    (← itemsOf weightsField v).foldlM (readWeightEntry r) ∅) = .ok m.weights
  formulas : optional fields formulasField ∅ readFormulas = .ok m.formulas
  boundSeries : optional fields boundSeriesField ∅ (nameSetOf boundSeriesField) = .ok m.boundSeries
  ignoreLimits : optional fields ignoreLimitsField ∅ (nameSetOf ignoreLimitsField) = .ok m.ignoreLimits
  outages : (optional fields outagesField ∅ fun v => do
    (← itemsOf outagesField v).foldlM readOutagesEntry ∅) = .ok m.outages
  index : m.checkIndex = .ok ()

/-- A tree is read as a mapping exactly when it is an object whose fields hold that mapping. -/
theorem read_eq_ok_iff {r : Registry} {v : Json} {m : Mapping} :
    read r v = .ok m ↔ ∃ fields, fieldsOf "mapping document" v = .ok fields ∧ Holds r fields m := by
  constructor
  · intro h
    unfold read at h
    obtain ⟨fields, hfields, h⟩ := Outcome.bind_eq_ok_iff.1 h
    obtain ⟨_, hnames, h⟩ := Outcome.bind_eq_ok_iff.1 h
    obtain ⟨categories, hcategories, h⟩ := Outcome.bind_eq_ok_iff.1 h
    obtain ⟨weights, hweights, h⟩ := Outcome.bind_eq_ok_iff.1 h
    obtain ⟨formulas, hformulas, h⟩ := Outcome.bind_eq_ok_iff.1 h
    obtain ⟨boundSeries, hbound, h⟩ := Outcome.bind_eq_ok_iff.1 h
    obtain ⟨ignoreLimits, hignore, h⟩ := Outcome.bind_eq_ok_iff.1 h
    obtain ⟨outages, houtages, h⟩ := Outcome.bind_eq_ok_iff.1 h
    obtain ⟨_, hindex, h⟩ := Outcome.bind_eq_ok_iff.1 h
    cases h
    exact ⟨fields, hfields, hnames, hcategories, hweights, hformulas, hbound, hignore, houtages, hindex⟩
  · rintro ⟨fields, hfields, h⟩
    rw [read, hfields]
    refine Outcome.bind_eq_ok_iff.2 ⟨_, rfl, Outcome.bind_eq_ok_iff.2 ⟨_, h.names, ?_⟩⟩
    refine Outcome.bind_eq_ok_iff.2 ⟨_, h.categories, Outcome.bind_eq_ok_iff.2 ⟨_, h.weights, ?_⟩⟩
    refine Outcome.bind_eq_ok_iff.2 ⟨_, h.formulas, Outcome.bind_eq_ok_iff.2 ⟨_, h.boundSeries, ?_⟩⟩
    refine Outcome.bind_eq_ok_iff.2 ⟨_, h.ignoreLimits, Outcome.bind_eq_ok_iff.2 ⟨_, h.outages, ?_⟩⟩
    exact Outcome.bind_eq_ok_iff.2 ⟨_, h.index, rfl⟩

/-- A text is accepted exactly when it holds a tree and the tree's normal form a mapping. -/
theorem parse_eq_ok_iff {r : Registry} {text : String} {m : Mapping} :
    parse r text = .ok m ↔ ∃ v, Json.read? text = some v ∧ read r v.normalize = .ok m := by
  rw [parse]
  cases Json.read? text with
  | none => simp
  | some v => simp

/-- An accepted text holds its mapping part by part. -/
theorem exists_holds_of_parse {r : Registry} {text : String} {m : Mapping} (h : parse r text = .ok m) :
    ∃ fields, Holds r fields m := by
  obtain ⟨v, _, hread⟩ := parse_eq_ok_iff.1 h
  obtain ⟨fields, _, hholds⟩ := read_eq_ok_iff.1 hread
  exact ⟨fields, hholds⟩

/-- What is read of an optional section is the value of its absence, or read from the section. -/
theorem optional_eq_ok {α : Type} {fields : List (String × Json)} {name : String} {missing a : α}
    {read : Json → Except Fault α} (h : optional fields name missing read = .ok a) :
    a = missing ∨ ∃ v, read v = .ok a := by
  unfold optional at h
  split at h
  · cases h
    exact .inl rfl
  · rename_i v _
    exact .inr ⟨v, h⟩

/-- Only an object has fields. -/
theorem eq_object_of_fieldsOf {place : String} {e : Json} {fields : List (String × Json)}
    (h : fieldsOf place e = .ok fields) : e = .object fields := by
  unfold fieldsOf at h
  split at h
  · cases h
    rfl
  · cases h

/-- Only an array has items. -/
theorem eq_array_of_itemsOf {place : String} {e : Json} {items : List Json} (h : itemsOf place e = .ok items) :
    e = .array items := by
  unfold itemsOf at h
  split at h
  · cases h
    rfl
  · cases h

/-- Reading all categories reads each of them. -/
theorem readCategory_of_readCategories {r : Registry} {fields : List (String × Json)} {table : PerCategory Bindings}
    (h : readCategories r fields = .ok table) (c : Category) : readCategory r fields c = .ok (table.get c) := by
  have hall (l : List Category) (start : PerCategory Bindings)
      (hl : l.foldlM (fun table c => do pure (table.set c (← readCategory r fields c))) start = .ok table) :
      (c ∈ l → readCategory r fields c = .ok (table.get c)) ∧ (¬ c ∈ l → table.get c = start.get c) := by
    induction l generalizing start with
    | nil =>
      cases hl
      exact ⟨fun hc => absurd hc List.not_mem_nil, fun _ => rfl⟩
    | cons d rest ih =>
      rw [List.foldlM_cons] at hl
      obtain ⟨next, hnext, hl⟩ := Outcome.bind_eq_ok_iff.1 hl
      obtain ⟨b, hb, hnext⟩ := Outcome.bind_eq_ok_iff.1 hnext
      cases hnext
      obtain ⟨hread, hkept⟩ := ih (start.set d b) hl
      rw [PerCategory.get_set] at hkept
      by_cases hrest : c ∈ rest
      · exact ⟨fun _ => hread hrest, fun hc => absurd (List.mem_cons_of_mem d hrest) hc⟩
      · by_cases hd : c = d
        · refine ⟨fun _ => ?_, fun hc => absurd (hd ▸ List.mem_cons_self) hc⟩
          rw [hkept hrest, if_pos hd, hd, hb]
        · refine ⟨fun hc => absurd hc (List.not_mem_cons_of_ne_of_not_mem hd hrest), fun _ => ?_⟩
          rw [hkept hrest, if_neg hd]
  exact (hall Category.all _ h).1 (Category.mem_all c)

end GridSeries.Document
