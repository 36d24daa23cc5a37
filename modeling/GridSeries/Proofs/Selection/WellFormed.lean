import GridSeries.Proofs.Interval.Arrange
import GridSeries.Proofs.Selection

/-! What every selection has in order, however it came about. Its intervals are checked each time one is built. Versions
are checked when they are named; those that a store fills in are taken as they are. -/
namespace GridSeries.Selection
open GridSeries.Interval (Arranged)

/-- The intervals have valid bounds, ascend, and have no point in common. -/
structure InOrder (s : Selection) : Prop where
  bounds : ∀ r ∈ s.intervals, 0 ≤ r.lower ∧ r.lower ≤ r.upper
  ascending : s.intervals.Pairwise fun r t => r.lower < t.lower
  disjoint : s.intervals.Pairwise fun r t => ∀ p, p ∈ r → ¬ p ∈ t

/-- No version is zero. -/
def Positive (versions : SortedSet Nat) : Prop := ∀ v ∈ versions, 1 ≤ v

/-- A selection names no versions, or there is none. -/
def Unversioned (asked : Option Selection) : Prop := (asked.getD empty).versions.isEmpty = true

/-- A selection that was made of versions and intervals, as a window, or by completing another one. Versions were filled
in from one of some stores. -/
inductive Arises (stores : Store → Prop) : Selection → Prop
  | made {versions intervals s} (h : make versions intervals = .ok s) : Arises stores s
  | window {versions first count s} (h : Selection.window versions first count = .ok s) : Arises stores s
  | completed {asked store s} (hasked : ∀ a ∈ asked, Arises stores a) (hstore : Unversioned asked → stores store)
      (h : complete asked store = .ok s) : Arises stores s

variable {stores : Store → Prop} {store : Store} {asked : Option Selection} {s : Selection}

private theorem inOrder_of_arranged (h : Arranged s.intervals) : s.InOrder where
  bounds r hr := Interval.isValid_iff.1 (h.valid r hr)
  ascending := h.ascending
  disjoint := h.separate

private theorem positive_of_make {versions : List Nat} {rs : List Interval} (h : make versions rs = .ok s) :
    Positive s.versions := by
  obtain ⟨hzero, hversions, _⟩ := of_make_eq_ok h
  intro v hv
  rw [hversions, SortedSet.mem_ofList] at hv
  exact Nat.one_le_iff_ne_zero.2 fun hv0 => hzero (hv0 ▸ hv)

private theorem exists_make_of_window {versions : List Nat} {first count : Option Int}
    (h : window versions first count = .ok s) : ∃ r, make versions [r] = .ok s := by
  unfold window at h
  cases count with
  | none => exact ⟨_, h⟩
  | some n =>
    dsimp only at h
    split at h
    · cases h
    · exact ⟨_, h⟩

/-- The versions of a completed selection are positive when those asked for are, or those of the store if none are. -/
theorem positive_versionsOr_iff {asked : SortedSet Nat} :
    Positive (versionsOr asked store) ↔ Positive asked ∧ (asked.isEmpty = true → Positive store.versions) := by
  unfold versionsOr
  cases hasked : asked.isEmpty with
  | false => simp
  | true =>
    have hnone : Positive asked := fun v hv => absurd hv (SortedSet.isEmpty_iff.1 hasked v)
    cases hstore : store.versions.isEmpty with
    | false => simp [hnone]
    | true =>
      have hstored : Positive store.versions := fun v hv => absurd hv (SortedSet.isEmpty_iff.1 hstore v)
      have hdefault : Positive ((∅ : SortedSet Nat).insert defaultVersion) := by
        intro v hv
        rcases SortedSet.mem_insert.1 hv with rfl | hv
        · exact Nat.le_refl 1
        · exact absurd hv (SortedSet.not_mem_empty v)
      simp [hnone, hstored, hdefault]

/-- A completed selection has a version. -/
theorem versionsOr_nonempty (asked : SortedSet Nat) (store : Store) : ∃ v, v ∈ versionsOr asked store := by
  have hsome {t : SortedSet Nat} (h : (!t.isEmpty) = true) : ∃ v, v ∈ t := by
    by_contra hnone
    rw [SortedSet.isEmpty_iff.2 fun v hv => hnone ⟨v, hv⟩] at h
    cases h
  unfold versionsOr
  split
  · rename_i hasked
    exact hsome hasked
  · split
    · rename_i hstore
      exact hsome hstore
    · exact ⟨defaultVersion, SortedSet.mem_insert.2 (.inl rfl)⟩

/-- Completing never ends in a selection without intervals. -/
theorem intervalsOr_ne_nil {asked rs : List Interval} {full : Option Interval} (h : intervalsOr asked full = .ok rs) :
    rs ≠ [] := by
  cases asked with
  | nil =>
    cases full with
    | none => cases h
    | some r =>
      cases h
      exact List.cons_ne_nil _ _
  | cons r rest =>
    cases full with
    | none =>
      cases h
      exact List.cons_ne_nil _ _
    | some t =>
      cases h
      exact List.cons_ne_nil _ _

/-- A completed selection holds the versions asked for or filled in, and intervals that were arranged once more. -/
private theorem of_complete_eq_ok (h : complete asked store = .ok s) :
    s.versions = versionsOr (asked.getD empty).versions store ∧ Arranged s.intervals ∧ s.intervals ≠ [] := by
  obtain ⟨sampling, _, h⟩ := Outcome.bind_eq_ok_iff.1 h
  obtain ⟨rs, hrs, h⟩ := Outcome.bind_eq_ok_iff.1 h
  obtain ⟨sorted, hsorted, h⟩ := Outcome.bind_eq_ok_iff.1 h
  cases h
  obtain ⟨harranged, hperm⟩ := Interval.arrange_spec hsorted
  refine ⟨rfl, harranged, fun hnil => intervalsOr_ne_nil hrs ?_⟩
  have hsorted : sorted = [] := hnil
  rw [hsorted] at hperm
  exact hperm.nil_eq.symm

/-- Completing leaves versions positive, unless a store fills in a version zero. -/
theorem positive_complete_iff (h : complete asked store = .ok s) :
    Positive s.versions ↔ (∀ a ∈ asked, Positive a.versions) ∧ (Unversioned asked → Positive store.versions) := by
  rw [(of_complete_eq_ok h).1, positive_versionsOr_iff]
  refine and_congr_left fun _ => ?_
  cases asked with
  | none => exact ⟨fun _ a ha => absurd ha (Option.not_mem_none a), fun _ v hv => absurd hv (SortedSet.not_mem_empty v)⟩
  | some a => simp

/-- The intervals of every selection are in order. -/
theorem Arises.arranged (h : s.Arises stores) : Arranged s.intervals := by
  cases h with
  | made h =>
    obtain ⟨_, _, harranged, _⟩ := of_make_eq_ok h
    exact harranged
  | window h =>
    obtain ⟨r, h⟩ := exists_make_of_window h
    obtain ⟨_, _, harranged, _⟩ := of_make_eq_ok h
    exact harranged
  | completed _ _ h => exact (of_complete_eq_ok h).2.1

/-- Its versions are positive if the stores that filled them in have no version zero. -/
theorem Arises.positive (h : s.Arises stores) (hstores : ∀ store, stores store → Positive store.versions) :
    Positive s.versions := by
  induction h with
  | made h => exact positive_of_make h
  | window h =>
    obtain ⟨r, h⟩ := exists_make_of_window h
    exact positive_of_make h
  | completed _ hstore h ih => exact (positive_complete_iff h).2 ⟨ih, fun hnone => hstores _ (hstore hnone)⟩

/-- Made, as a window or completed from whatever was before and whatever a store holds: the intervals of a selection are
always in order, and its versions are positive where no store filled in a version zero. What was completed has a version
and an interval, and its versions are positive exactly if those of the selection are, or else those of the store. -/
theorem arising_in_order (stores : Store → Prop) :
    (∀ s, Arises stores s → s.InOrder ∧
      ((∀ store, stores store → Positive store.versions) → Positive s.versions)) ∧
    ∀ asked store s, complete asked store = .ok s → (∃ v, v ∈ s.versions) ∧ (∃ r, r ∈ s.intervals) ∧
      (Positive s.versions ↔
        (∀ a ∈ asked, Positive a.versions) ∧ (Unversioned asked → Positive store.versions)) := by
  constructor
  · exact fun s hs => ⟨inOrder_of_arranged hs.arranged, hs.positive⟩
  · intro asked store s h
    obtain ⟨hversions, _, hintervals⟩ := of_complete_eq_ok h
    refine ⟨?_, List.exists_mem_of_ne_nil _ hintervals, positive_complete_iff h⟩
    rw [hversions]
    exact versionsOr_nonempty _ store

/-- A store with two hourly values of one series at one version. -/
def loadAt (version : Nat) : Store := (Store.insert "load" ⟨⟨0⟩, 3600000, 2⟩ version [8, 9]).after .empty

/-- All names of the store have one sampling. -/
theorem commonSampling_loadAt (version : Nat) :
    (loadAt version).commonSampling (loadAt version).ownNames.toList = .ok (some ⟨⟨0⟩, 3600000, 2⟩) := by
  have hnames : (loadAt version).ownNames.toList = ["load"] := rfl
  rw [hnames]
  rfl

theorem inMemory_loadAt (version : Nat) : (loadAt version).InMemory := by
  intro name s hs
  obtain ⟨_, hs⟩ := List.mem_singleton.1 (SortedMap.mem_entries_of_get? hs)
  change ((2 : Nat) : Int) ≤ maxPoint
  decide

private theorem complete_loadAt (version : Nat) :
    complete none (loadAt version) = .ok ⟨.ofList [version], [⟨0, 1⟩]⟩ := by
  have harranged : Arranged empty.intervals := .nil
  exact complete_of_sampling (commonSampling_loadAt version) (by decide) (inMemory_loadAt version) harranged

/-- What is completed from a store with version 3 only is in order. -/
theorem loadAt_in_order : ∃ s, complete none (loadAt 3) = .ok s ∧ s.InOrder ∧ Positive s.versions := by
  obtain ⟨hall, _⟩ := arising_in_order (· = loadAt 3)
  have harises : Arises (· = loadAt 3) ⟨.ofList [3], [⟨0, 1⟩]⟩ :=
    .completed (fun a ha => absurd ha (Option.not_mem_none a)) (fun _ => rfl) (complete_loadAt 3)
  obtain ⟨horder, hpositive⟩ := hall _ harises
  refine ⟨_, complete_loadAt 3, horder, hpositive ?_⟩
  rintro _ rfl v hv
  have hversions : (loadAt 3).versions = .ofList [3] := rfl
  rw [hversions, SortedSet.mem_ofList, List.mem_singleton] at hv
  omega

/-- A store may have a version zero. It is filled in like any other, although no selection can be made of it. -/
theorem version_zero_filled_in :
    ∃ s, complete none (loadAt 0) = .ok s ∧ 0 ∈ s.versions ∧
      make s.versions.toList s.intervals = .error (.config .versionZero) :=
  ⟨_, complete_loadAt 0, by decide, rfl⟩

end GridSeries.Selection
