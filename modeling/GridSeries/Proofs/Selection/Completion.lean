import GridSeries.Proofs.Selection.WellFormed
import GridSeries.Proofs.Statistics.Filter

/-! What completing a selection does to its points. Among the points of a store it changes nothing; past them it leaves
intervals alone or cuts them off; and what was completed once is complete. -/
namespace GridSeries.Selection
open GridSeries.Interval (Arranged Covers)
open GridSeries.Statistics (filterByIntervals filterByIntervals_congr)

variable {count : Nat} {rs : List Interval} {r : Interval} {asked : Option Selection} {store : Store} {s : Selection}

private theorem clip_clip (full r : Interval) : clip full (clip full r) = clip full r := by
  by_cases h : full.upper < r.lower
  · have hkept : clip full r = r := if_pos h
    rw [hkept, hkept]
  · have hcut : clip full r = ⟨r.lower, min r.upper full.upper⟩ := if_neg h
    rw [hcut, clip, if_neg h, Int.min_assoc, Int.min_self]

private theorem clip_self {full : Interval} (h : full.isValid = true) : clip full full = full := by
  have := Interval.isValid_iff.1 h
  rw [clip, if_neg (by omega), Int.min_self]

private theorem clip_of_past (h : (count : Int) ≤ r.lower) : clip ⟨0, count - 1⟩ r = r :=
  if_pos (by simp only; omega)

/-- Only such an interval still has points past the last one. -/
theorem mem_clip_past {p : Int} (hp : (count : Int) ≤ p) :
    p ∈ clip ⟨0, count - 1⟩ r ↔ (count : Int) ≤ r.lower ∧ p ∈ r := by
  rw [clip]
  split
  · rename_i hpast
    simp only at hpast
    exact (and_iff_right (by omega)).symm
  · rename_i hwithin
    simp only [Interval.mem_iff] at hwithin ⊢
    omega

private theorem covers_within_of_nil (h : rs = []) {p : Int} : Covers (within count rs) p ↔ 0 ≤ p ∧ p < count := by
  rw [within, if_pos h]
  simp only [Covers, List.mem_singleton, exists_eq_left, Interval.mem_iff]
  omega

private theorem covers_within_iff (h : rs ≠ []) {p : Int} :
    Covers (within count rs) p ↔ ∃ r ∈ rs, p ∈ clip ⟨0, count - 1⟩ r := by
  rw [within, if_neg h]
  simp [Covers]

/-- Among the points there are, the intervals cover what they covered. -/
theorem covers_within_of_lt (h : rs ≠ []) {p : Int} (hp : p < count) : Covers (within count rs) p ↔ Covers rs p := by
  rw [covers_within_iff h]
  exact exists_congr fun r => and_congr_right fun _ => mem_clip hp

/-- Past them they cover what intervals covered that lie past them as a whole. -/
theorem covers_within_of_le (h : rs ≠ []) {p : Int} (hp : (count : Int) ≤ p) :
    Covers (within count rs) p ↔ ∃ r ∈ rs, (count : Int) ≤ r.lower ∧ p ∈ r := by
  rw [covers_within_iff h]
  exact exists_congr fun r => and_congr_right fun _ => mem_clip_past hp

private theorem mem_within_of_past (hr : r ∈ rs) (h : (count : Int) ≤ r.lower) : r ∈ within count rs := by
  rw [within, if_neg (List.ne_nil_of_mem hr)]
  exact List.mem_map.2 ⟨r, hr, clip_of_past h⟩

private theorem versionsOr_of_ne {versions : SortedSet Nat} (h : versions ≠ ∅) :
    versionsOr versions store = versions := by
  rw [versionsOr, SortedSet.isEmpty_eq_false h]
  rfl

private theorem versionsOr_empty (h : store.versions ≠ ∅) : versionsOr ∅ store = store.versions := by
  rw [versionsOr, SortedSet.isEmpty_eq_false h]
  rfl

private theorem versionsOr_default (h : store.versions = ∅) : versionsOr ∅ store = .ofList [1] := by
  rw [versionsOr, h]
  rfl

private theorem versionsOr_ne_empty (versions : SortedSet Nat) (store : Store) : versionsOr versions store ≠ ∅ := by
  intro h
  obtain ⟨v, hv⟩ := versionsOr_nonempty versions store
  rw [h] at hv
  exact SortedSet.not_mem_empty v hv

/-- A selection completes another one over the first `count` points and a store: it selects the same points of these,
all of them if no interval was asked for, and past them only intervals that were asked for as they are. The versions are
those that were asked for, or those of the store, or the first one. -/
structure Completes (s asked : Selection) (store : Store) (count : Nat) : Prop where
  all_points : asked.intervals = [] → ∀ p, Covers s.intervals p ↔ 0 ≤ p ∧ p < count
  same_points : asked.intervals ≠ [] → ∀ p < (count : Int), Covers s.intervals p ↔ Covers asked.intervals p
  past_points : asked.intervals ≠ [] → ∀ p ≥ (count : Int),
    Covers s.intervals p ↔ ∃ r ∈ asked.intervals, (count : Int) ≤ r.lower ∧ p ∈ r
  past_kept : ∀ r ∈ asked.intervals, (count : Int) ≤ r.lower → r ∈ s.intervals
  same_values : asked.intervals ≠ [] → ∀ {α : Type} (xs : List α), xs.length = count →
    filterByIntervals xs s.intervals = filterByIntervals xs asked.intervals
  asked_versions : asked.versions ≠ ∅ → s.versions = asked.versions
  stored_versions : asked.versions = ∅ → store.versions ≠ ∅ → s.versions = store.versions
  first_version : asked.versions = ∅ → store.versions = ∅ → s.versions = .ofList [1]

private theorem completes_within {asked : Selection} (hcount : (count : Int) ≤ maxPoint) :
    Completes ⟨versionsOr asked.versions store, within count asked.intervals⟩ asked store count where
  all_points hnil _ := covers_within_of_nil hnil
  same_points hsome _ := covers_within_of_lt hsome
  past_points hsome _ := covers_within_of_le hsome
  past_kept _ := mem_within_of_past
  same_values hsome _ xs hxs := by
    refine filterByIntervals_congr (by omega) fun i hi => covers_within_of_lt hsome ?_
    omega
  asked_versions := versionsOr_of_ne
  stored_versions hnone := by
    rw [hnone]
    exact versionsOr_empty
  first_version hnone := by
    rw [hnone]
    exact versionsOr_default

private theorem clip_of_mem_intervalsOr {full : Interval} {qs : List Interval} (h : intervalsOr rs (some full) = .ok qs)
    (hr : r ∈ qs) (hvalid : r.isValid = true) : clip full r = r := by
  cases rs with
  | nil =>
    cases h
    rw [List.mem_singleton.1 hr] at hvalid ⊢
    exact clip_self hvalid
  | cons q rest =>
    cases h
    obtain ⟨t, _, rfl⟩ := List.mem_map.1 hr
    exact clip_clip full t

/-- A completed selection is complete. -/
theorem complete_complete (h : complete asked store = .ok s) : complete (some s) store = .ok s := by
  obtain ⟨sampling, hsampling, h⟩ := Outcome.bind_eq_ok_iff.1 h
  obtain ⟨rs, hrs, h⟩ := Outcome.bind_eq_ok_iff.1 h
  obtain ⟨sorted, hsorted, h⟩ := Outcome.bind_eq_ok_iff.1 h
  cases h
  obtain ⟨harranged, hperm⟩ := Interval.arrange_spec hsorted
  have hne : sorted ≠ [] := fun hnil => intervalsOr_ne_nil hrs (hnil ▸ hperm).nil_eq.symm
  -- the store has the same points as before, and clipping to them changes nothing any more
  have hintervals : intervalsOr sorted (sampling.bind Sampling.fullInterval?) = .ok sorted := by
    cases hfull : sampling.bind Sampling.fullInterval? with
    | none =>
      cases sorted with
      | nil => exact absurd rfl hne
      | cons r rest => rfl
    | some full =>
      rw [hfull] at hrs
      have hclip : sorted.map (clip full) = sorted := by
        refine (List.map_congr_left fun r hr => ?_).trans (List.map_id sorted)
        exact clip_of_mem_intervalsOr hrs (hperm.mem_iff.1 hr) (harranged.valid r hr)
      cases sorted with
      | nil => exact absurd rfl hne
      | cons r rest => exact congrArg Except.ok hclip
  refine Outcome.bind_eq_ok_iff.2 ⟨sampling, hsampling, Outcome.bind_eq_ok_iff.2 ⟨sorted, hintervals, ?_⟩⟩
  refine Outcome.bind_eq_ok_iff.2 ⟨sorted, Interval.arrange_of_arranged harranged, ?_⟩
  change Except.ok (⟨versionsOr (versionsOr _ store) store, sorted⟩ : Selection) = _
  rw [versionsOr_of_ne (versionsOr_ne_empty _ store)]

/-- A store whose series are sampled alike completes every selection that can arise, and no selection at all, with the
same points as far as it has any. Whatever the store and whatever was asked for, completing what was completed changes
nothing. -/
theorem completion_keeps_points :
    (∀ (asked : Option Selection) (store : Store) (sampling : Sampling), (∀ a ∈ asked, Arises (fun _ => True) a) →
      store.InMemory → store.commonSampling store.ownNames.toList = .ok (some sampling) → 1 ≤ sampling.count →
      ∃ s, complete asked store = .ok s ∧ s.Completes (asked.getD empty) store sampling.count) ∧
    ∀ (asked : Option Selection) (store : Store) (s : Selection), complete asked store = .ok s →
      complete (some s) store = .ok s := by
  refine ⟨fun asked store sampling hasked hmemory hsampling hcount => ?_, fun _ _ _ => complete_complete⟩
  have hword := hmemory.count_le hsampling
  have harranged : Arranged (asked.getD empty).intervals := by
    cases asked with
    | none => exact .nil
    | some a => exact (hasked a rfl).arranged
  exact ⟨_, complete_of_sampling hsampling hcount hmemory harranged, completes_within hword⟩

/-- Of two points, an interval that reaches past them keeps the second, and one past both of them stays. -/
theorem past_two_points_completed :
    ∃ s, complete (some ⟨∅, [⟨1, 4⟩, ⟨7, 8⟩]⟩) (loadAt 3) = .ok s ∧ Covers s.intervals 1 ∧ ¬ Covers s.intervals 2 ∧
      ⟨7, 8⟩ ∈ s.intervals ∧ filterByIntervals ["a", "b"] s.intervals = filterByIntervals ["a", "b"] [⟨1, 4⟩, ⟨7, 8⟩] ∧
      s.versions = .ofList [3] ∧ complete (some s) (loadAt 3) = .ok s := by
  obtain ⟨hcompletes, hfinal⟩ := completion_keeps_points
  have hmade : make [] [⟨1, 4⟩, ⟨7, 8⟩] = .ok ⟨∅, [⟨1, 4⟩, ⟨7, 8⟩]⟩ :=
    make_of_arranged (by simp) ⟨by decide, by decide⟩
  obtain ⟨s, hs, h⟩ := hcompletes (some ⟨∅, [⟨1, 4⟩, ⟨7, 8⟩]⟩) (loadAt 3) ⟨⟨0⟩, 3600000, 2⟩
    (fun a ha => Option.mem_some.1 ha ▸ .made hmade) (inMemory_loadAt 3) (commonSampling_loadAt 3) (by decide)
  have hsome : ([⟨1, 4⟩, ⟨7, 8⟩] : List Interval) ≠ [] := List.cons_ne_nil _ _
  refine ⟨s, hs, ?_, fun hcovers => ?_, ?_, ?_, ?_, hfinal _ _ s hs⟩
  · exact (h.same_points hsome 1 (by decide)).2 ⟨⟨1, 4⟩, by simp, by decide⟩
  · obtain ⟨r, hr, hpast, hmem⟩ := (h.past_points hsome 2 (by decide)).1 hcovers
    revert r
    decide
  · exact h.past_kept ⟨7, 8⟩ (by simp) (by decide)
  · exact h.same_values hsome ["a", "b"] rfl
  · exact h.stored_versions rfl (by decide)

end GridSeries.Selection
