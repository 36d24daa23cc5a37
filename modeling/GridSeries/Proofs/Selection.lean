import GridSeries.Proofs.Interval.Points
import GridSeries.Proofs.Outcome
import GridSeries.Proofs.Store.Reading

/-! What a selection holds once it is made, and how a store with a common sampling completes it. -/
namespace GridSeries
open GridSeries.Interval (Arranged)

namespace Store

/-- The arrays of a store lie in memory, so none has more values than there are point numbers. -/
def InMemory (store : Store) : Prop :=
  ∀ name s, store.series.get? name = some s → (s.sampling.count : Int) ≤ maxPoint

/-- The series of a store in memory have no more points than point numbers. -/
theorem InMemory.count_le {store : Store} (hm : store.InMemory) {names : List String} {sampling : Sampling}
    (h : store.commonSampling names = .ok (some sampling)) : (sampling.count : Int) ≤ maxPoint := by
  obtain ⟨name, s, hget, rfl⟩ := of_commonSampling_eq_some h
  exact hm name s hget

end Store

namespace Selection

/-- A selection holds the versions and the intervals it is made of, the intervals arranged. -/
theorem of_make_eq_ok {versions : List Nat} {rs : List Interval} {sel : Selection}
    (h : make versions rs = .ok sel) :
    ¬ 0 ∈ versions ∧ sel.versions = SortedSet.ofList versions ∧ Arranged sel.intervals ∧ sel.intervals.Perm rs := by
  unfold make at h
  split at h
  · cases h
  · rename_i hzero
    obtain ⟨sorted, hsorted, hsel⟩ := Outcome.bind_eq_ok_iff.1 h
    cases hsel
    obtain ⟨harranged, hperm⟩ := Interval.arrange_spec hsorted
    exact ⟨hzero, rfl, harranged, hperm⟩

/-- Arranged intervals are selected as they are. -/
theorem make_of_arranged {versions : List Nat} {rs : List Interval} (hv : ¬ 0 ∈ versions) (h : Arranged rs) :
    make versions rs = .ok ⟨SortedSet.ofList versions, rs⟩ := by
  rw [make, if_neg hv, Interval.arrange_of_arranged h]
  rfl

/-- The intervals asked for, within as many points as there are; by default all points. -/
def within (count : Nat) (rs : List Interval) : List Interval :=
  if rs = [] then [⟨0, count - 1⟩] else rs.map (clip ⟨0, count - 1⟩)

/-- Cutting an interval past the last point changes nothing for the points there are. -/
theorem mem_clip {count : Nat} {r : Interval} {p : Int} (hp : p < count) :
    p ∈ clip ⟨0, count - 1⟩ r ↔ p ∈ r := by
  rw [clip]
  split
  · rfl
  · simp only [Interval.mem_iff]
    omega

/-- Clipping moves only the end of an interval, and leaves at least a point. -/
theorem clip_bounds (full : Interval) {r : Interval} (h : r.isValid = true) :
    (clip full r).isValid = true ∧ (clip full r).lower = r.lower ∧ (clip full r).upper ≤ r.upper := by
  have hr := Interval.isValid_iff.1 h
  rw [clip]
  split
  · exact ⟨h, rfl, Int.le_refl _⟩
  · refine ⟨Interval.isValid_iff.2 ?_, rfl, Int.min_le_left _ _⟩
    simp only
    omega

private theorem within_arranged {count : Nat} {rs : List Interval} (hc : 1 ≤ count) (h : Arranged rs) :
    Arranged (within count rs) := by
  rw [within]
  split
  · exact .singleton (Interval.isValid_iff.2 (by simp only; omega))
  · constructor
    · intro r hr
      obtain ⟨q, hq, rfl⟩ := List.mem_map.1 hr
      exact (clip_bounds _ (h.valid q hq)).1
    · rw [List.pairwise_map]
      refine h.apart.imp_of_mem fun {q r} hq hr hqr => ?_
      have := (clip_bounds ⟨0, count - 1⟩ (h.valid q hq)).2
      have := (clip_bounds ⟨0, count - 1⟩ (h.valid r hr)).2
      omega

/-- A store whose series are sampled alike completes every selection of arranged intervals. -/
theorem complete_of_sampling {asked : Selection} {store : Store} {sampling : Sampling}
    (hs : store.commonSampling store.ownNames.toList = .ok (some sampling)) (hc : 1 ≤ sampling.count)
    (hm : store.InMemory) (ha : Arranged asked.intervals) :
    complete (some asked) store =
      .ok ⟨versionsOr asked.versions store, within sampling.count asked.intervals⟩ := by
  have hfull : sampling.fullInterval? = some ⟨0, sampling.count - 1⟩ :=
    if_pos ⟨hc, hm.count_le hs⟩
  have hor : intervalsOr asked.intervals (some ⟨0, sampling.count - 1⟩) =
      .ok (within sampling.count asked.intervals) := by
    rw [within]
    cases asked.intervals with
    | nil => rfl
    | cons r rest => rfl
  rw [complete, hs]
  change (do
    let intervals ← intervalsOr asked.intervals sampling.fullInterval?
    pure (⟨versionsOr asked.versions store, ← Interval.arrange intervals⟩ : Selection)) = _
  rw [hfull, hor]
  change (do pure (⟨versionsOr asked.versions store, ← Interval.arrange (within _ _)⟩ : Selection)) = _
  rw [Interval.arrange_of_arranged (within_arranged hc ha)]
  rfl

end Selection
end GridSeries
