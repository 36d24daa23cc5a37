import GridSeries.Json.Normal
import GridSeries.Proofs.Json.Tree
import GridSeries.Proofs.Sorted

/-! Trees in normal form: bringing a tree into normal form once is enough, adds nothing to it, and keeps the value of
every field whose name occurs once. -/
namespace GridSeries.Json

private theorem normalizeItems_eq (items : List Json) : normalizeItems items = items.map normalize := by
  induction items with
  | nil => rfl
  | cons v rest ih => simp [normalizeItems, ih]

private theorem normalizeFields_eq (fields : List (String × Json)) :
    normalizeFields fields = fields.map fun f => (f.1, f.2.normalize) := by
  induction fields with
  | nil => rfl
  | cons f rest ih => simp [normalizeFields, ih]

/-- Items are brought to normal form one by one. -/
theorem normalize_array (items : List Json) : (array items).normalize = .array (items.map normalize) := by
  rw [normalize, normalizeItems_eq]

/-- The fields of an object in normal form: sorted, and each value in normal form. -/
def normalFields (fields : List (String × Json)) : List (String × Json) :=
  (sortFields fields).map fun f => (f.1, f.2.normalize)

/-- Fields are brought to normal form one by one and put in order. -/
theorem normalize_object (fields : List (String × Json)) :
    (object fields).normalize = .object (normalFields fields) := by
  rw [normalize, normalizeFields_eq, sortFields, SortedMap.entries_ofList_map]
  rfl

private theorem sortFields_sortFields (fields : List (String × Json)) :
    sortFields (sortFields fields) = sortFields fields := by
  unfold sortFields
  rw [SortedMap.ofList_entries]

private theorem mem_of_mem_sortFields {fields : List (String × Json)} {f : String × Json} (h : f ∈ sortFields fields) :
    f ∈ fields := SortedMap.mem_of_mem_ofList h

/-- A tree in normal form stays as it is. -/
theorem normalize_normalize (v : Json) : v.normalize.normalize = v.normalize := by
  induction v using treeInduction with
  | null => rfl
  | bool b => rfl
  | number n => rfl
  | string s => rfl
  | array items ih =>
    rw [normalize_array, normalize_array, List.map_map]
    exact congrArg array (List.map_congr_left ih)
  | object fields ih =>
    have hsorted : sortFields (normalFields fields) = normalFields fields := by
      rw [sortFields, normalFields, SortedMap.entries_ofList_map]
      exact congrArg (List.map _) (sortFields_sortFields fields)
    rw [normalize_object, normalize_object, normalFields, hsorted, normalFields, List.map_map]
    refine congrArg object (List.map_congr_left fun f hf => ?_)
    exact congrArg (Prod.mk f.1) (ih f (mem_of_mem_sortFields hf))

/-- Normal forms have no numbers of their own, and nest no deeper. -/
theorem numbers_normalize {v : Json} {n : Number} (h : n ∈ numbers v.normalize) : n ∈ numbers v := by
  induction v using treeInduction with
  | null => exact h
  | bool b => exact h
  | number m => exact h
  | string s => exact h
  | array items ih =>
    rw [normalize_array, numbers, itemsNumbers_eq, List.flatMap_map, List.mem_flatMap] at h
    obtain ⟨v, hv, hn⟩ := h
    rw [numbers, itemsNumbers_eq]
    exact List.mem_flatMap.2 ⟨v, hv, ih v hv hn⟩
  | object fields ih =>
    rw [normalize_object, numbers, fieldsNumbers_eq, normalFields, List.flatMap_map, List.mem_flatMap] at h
    obtain ⟨f, hf, hn⟩ := h
    have hf := mem_of_mem_sortFields hf
    rw [numbers, fieldsNumbers_eq]
    exact List.mem_flatMap.2 ⟨f, hf, ih f hf hn⟩

private theorem depth_normalize_le (v : Json) : v.normalize.depth ≤ v.depth := by
  induction v using treeInduction with
  | null => exact Nat.le_refl _
  | bool b => exact Nat.le_refl _
  | number m => exact Nat.le_refl _
  | string s => exact Nat.le_refl _
  | array items ih =>
    rw [normalize_array, depth, depth]
    refine Nat.succ_le_succ (itemsDepth_le_iff.2 fun w hw => ?_)
    obtain ⟨v, hv, rfl⟩ := List.mem_map.1 hw
    exact Nat.le_trans (ih v hv) (itemsDepth_le_iff.1 (Nat.le_refl _) v hv)
  | object fields ih =>
    rw [normalize_object, depth, depth]
    refine Nat.succ_le_succ (fieldsDepth_le_iff.2 fun g hg => ?_)
    obtain ⟨f, hf, rfl⟩ := List.mem_map.1 hg
    have hf := mem_of_mem_sortFields hf
    exact Nat.le_trans (ih f hf) (fieldsDepth_le_iff.1 (Nat.le_refl _) f hf)

/-- A normal form stays within the limits of its tree. -/
theorem Within.normalize {P : Number → Prop} {d : Nat} {v : Json} (h : Within P d v) : Within P d v.normalize :=
  ⟨Nat.le_trans (depth_normalize_le v) h.1, fun n hn => h.2 n (numbers_normalize hn)⟩

/-- Normal fields have names that were there before. -/
theorem name_mem_of_mem_normalFields {fields : List (String × Json)} {f : String × Json} (h : f ∈ normalFields fields) :
    f.1 ∈ fields.map (·.1) := by
  obtain ⟨g, hg, rfl⟩ := List.mem_map.1 h
  exact List.mem_map.2 ⟨g, mem_of_mem_sortFields hg, rfl⟩

/-- Where names do not repeat, a field is found just when it is there. -/
theorem field?_eq_some_iff {fields : List (String × Json)} (h : (fields.map (·.1)).Nodup) {name : String} {v : Json} :
    field? name fields = some v ↔ (name, v) ∈ fields := by
  induction fields with
  | nil => simp [field?]
  | cons f rest ih =>
    obtain ⟨hfirst, hrest⟩ := List.nodup_cons.1 h
    rw [field?, List.mem_cons]
    split
    · rename_i heq
      constructor
      · intro hv
        exact .inl (by rw [← heq, ← Option.some.inj hv])
      · rintro (rfl | hmem)
        · rfl
        · exact absurd (List.mem_map.2 ⟨_, hmem, heq.symm⟩) hfirst
    · rename_i hne
      rw [ih hrest]
      constructor
      · exact .inr
      · rintro (rfl | hmem)
        · exact absurd rfl hne
        · exact hmem

/-- Fields are found in a normal form as in the object it comes from, when no name repeats. -/
theorem field?_normalFields {fields : List (String × Json)} (h : (fields.map (·.1)).Nodup) (name : String) :
    field? name (normalFields fields) = (field? name fields).map normalize := by
  have hkeys : ((normalFields fields).map (·.1)).Nodup := by
    rw [normalFields, List.map_map]
    exact (SortedMap.ofList fields).nodup_keys
  apply Option.ext
  intro v
  rw [field?_eq_some_iff hkeys, normalFields, List.mem_map, Option.map_eq_some_iff]
  constructor
  · rintro ⟨f, hf, heq⟩
    cases heq
    exact ⟨f.2, (field?_eq_some_iff h).2 ((SortedMap.mem_entries_ofList h).1 hf), rfl⟩
  · rintro ⟨w, hw, rfl⟩
    exact ⟨(name, w), (SortedMap.mem_entries_ofList h).2 ((field?_eq_some_iff h).1 hw), rfl⟩

end GridSeries.Json
