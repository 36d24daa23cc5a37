import GridSeries.Proofs.Formula.Acyclic
import GridSeries.Proofs.Sorted
import GridSeries.Store.Basic

/-! What a store holds under a name at a version, and what its two checks say of all that some names read: the series
are sampled alike, and none lacks a version. -/
namespace GridSeries.Store

variable {store : Store} {names : List String} {versions : SortedSet Nat} {name : String} {version : Nat}

/-- A store answers with the values that it holds for a name at a version. -/
theorem values_eq_ok_iff {xs : List Float} :
    store.values name version = .ok xs ↔
      ∃ s, store.series.get? name = some s ∧ s.versions.get? version = some xs := by
  unfold values
  cases store.series.get? name with
  | none => simp
  | some s => cases hv : s.versions.get? version <;> simp [hv]

/-- Every version of a series has one value for each point of its sampling. -/
theorem length_of_values {xs : List Float} (h : store.values name version = .ok xs) {s : StoredSeries}
    (hs : store.series.get? name = some s) : xs.length = s.sampling.count := by
  obtain ⟨t, ht, hxs⟩ := values_eq_ok_iff.1 h
  cases hs.symm.trans ht
  exact s.lengths _ (SortedMap.mem_entries_of_get? hxs)

/-- The versions of a name are those at which it has values. -/
theorem mem_versionsOf_iff : version ∈ store.versionsOf name ↔ ∃ xs, store.values name version = .ok xs := by
  simp only [values_eq_ok_iff, versionsOf]
  cases store.series.get? name with
  | none => simp
  | some s => simp [SortedMap.mem_keys_iff]

/-- The common sampling of series is the sampling of one of them. -/
theorem of_commonSampling_eq_some {sampling : Sampling}
    (h : store.commonSampling names = .ok (some sampling)) :
    ∃ name s, store.series.get? name = some s ∧ s.sampling = sampling := by
  unfold commonSampling at h
  cases hs : store.samplings names with
  | nil =>
    rw [hs] at h
    cases h
  | cons first rest =>
    have hmem : first ∈ store.samplings names := by simp [hs]
    rw [hs] at h
    dsimp only at h
    split at h
    · cases h
      obtain ⟨name, _, hname⟩ := List.mem_filterMap.1 hmem
      obtain ⟨sampling, hsampling, rfl⟩ := Option.map_eq_some_iff.1 hname
      obtain ⟨s, hget, rfl⟩ := Option.map_eq_some_iff.1 hsampling
      exact ⟨name, s, hget, rfl⟩
    · cases h

/-- Series with a common sampling all have it. -/
theorem sampling_of_commonSampling {sampling : Option Sampling} (h : store.commonSampling names = .ok sampling)
    (hname : name ∈ store.storedNames names) {s : StoredSeries} (hs : store.series.get? name = some s) :
    sampling = some s.sampling := by
  have hmem : (name, s.sampling) ∈ store.samplings names := by
    refine List.mem_filterMap.2 ⟨name, hname, ?_⟩
    rw [samplingOf?, hs]
    rfl
  unfold commonSampling at h
  cases hall : store.samplings names with
  | nil =>
    rw [hall] at hmem
    cases hmem
  | cons first rest =>
    rw [hall] at h hmem
    dsimp only at h
    split at h
    · rename_i hnone
      cases h
      rcases List.mem_cons.1 hmem with heq | hrest
      · rw [← heq]
      · have hsame : ¬ s.sampling ≠ first.2 := fun hne =>
          List.find?_eq_none.1 hnone (name, s.sampling) hrest (decide_eq_true hne)
        rw [Decidable.of_not_not hsame]
    · cases h

/-- Nothing keeps a series from being read when the store has it, with values at every version. -/
private theorem versionFault?_eq_none_iff :
    store.versionFault? versions name = none ↔
      store.contains name = true ∧ ∀ v ∈ versions, ∃ xs, store.values name v = .ok xs := by
  have hmissing : (versions.diff (store.versionsOf name)).isEmpty = true ↔
      ∀ v ∈ versions, ∃ xs, store.values name v = .ok xs := by
    simp only [SortedSet.isEmpty_iff, SortedSet.mem_diff, ← mem_versionsOf_iff]
    exact ⟨fun h v hv => by_contra fun hn => h v ⟨hv, hn⟩, fun h v hv => hv.2 (h v hv.1)⟩
  rw [← hmissing, versionFault?]
  cases store.contains name with
  | false => simp
  | true =>
    cases hnone : (versions.diff (store.versionsOf name)).isEmpty <;> simp [hnone]

/-- The check passes exactly when all that the names read is there, with values at every version. -/
theorem checkVersions_eq_ok_iff :
    store.checkVersions versions names = .ok () ↔
      ∀ name ∈ store.storedNames names,
        store.contains name = true ∧ ∀ v ∈ versions, ∃ xs, store.values name v = .ok xs := by
  have hall : (store.storedNames names).toList.findSome? (store.versionFault? versions) = none ↔
      ∀ name ∈ store.storedNames names,
        store.contains name = true ∧ ∀ v ∈ versions, ∃ xs, store.values name v = .ok xs := by
    simp only [List.findSome?_eq_none_iff, versionFault?_eq_none_iff, SortedSet.mem_def]
  rw [← hall, checkVersions]
  cases (store.storedNames names).toList.findSome? (store.versionFault? versions) with
  | none => simp
  | some fault => simp

/-- Names that pass the check of their versions are those of stored series, with values at every one of them. -/
theorem values_of_checkVersions (h : store.checkVersions versions names = .ok ())
    (hname : name ∈ store.storedNames names) :
    ∃ s, store.series.get? name = some s ∧
      ∀ v ∈ versions, ∃ xs, store.values name v = .ok xs ∧ xs.length = s.sampling.count := by
  obtain ⟨hcontains, hvalues⟩ := checkVersions_eq_ok_iff.1 h name hname
  have hformula := (Definitions.mem_leaves_iff.1 hname).2
  cases hs : store.series.get? name with
  | none => simp [contains, SortedMap.contains, hs, hformula] at hcontains
  | some s =>
    refine ⟨s, rfl, fun v hv => ?_⟩
    obtain ⟨xs, hxs⟩ := hvalues v hv
    exact ⟨xs, hxs, length_of_values hxs hs⟩

end GridSeries.Store
