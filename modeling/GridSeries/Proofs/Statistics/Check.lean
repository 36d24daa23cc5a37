import GridSeries.Proofs.Evaluation.Pointwise
import GridSeries.Proofs.Formula.Acyclic
import GridSeries.Proofs.Mapping.Run
import GridSeries.Statistics.Engine

/-! The check before a run, and the evaluation it is for. The check follows the formulas of the mapping first and the
calculated series of the store after them; evaluation asks for a formula of the mapping at every name. The two come to
the same stored series where no calculated series leads to a formula that the mapping would not lead to by itself. -/
namespace GridSeries
open Relation (ReflTransGen)

namespace Statistics

variable {s : Statistics} {e : Evaluator}

/-- Whatever formula of the mapping an evaluation comes to, the mapping leads to it by its own formulas. -/
def Unshadowed (s : Statistics) : Prop :=
  ∀ e, s.evaluator = .ok e → ∀ name ∈ s.mapping.usedNames, ∀ a, ReflTransGen e.Refers name a →
    s.mapping.formulas.contains a = true → a ∈ s.mapping.formulas.reachable s.mapping.usedNames

private theorem definition?_of_evaluator (he : s.evaluator = .ok e) (name : String) :
    e.definition? name = (s.mapping.formulas.get? name).or (s.store.formulas.get? name) := by
  obtain ⟨_, _, he⟩ := Outcome.bind_eq_ok_iff.1 he
  cases he
  rfl

/-- An evaluation follows the mapping where the mapping defines a name, and the store where it does not. -/
theorem refers_of_evaluator (he : s.evaluator = .ok e) {a b : String} (h : e.Refers a b) :
    s.mapping.formulas.contains a = true ∧ s.mapping.formulas.Refers a b ∨
      s.mapping.formulas.get? a = none ∧ s.store.formulas.Refers a b := by
  obtain ⟨f, hf, hb⟩ := h
  rw [definition?_of_evaluator he] at hf
  cases ha : s.mapping.formulas.get? a with
  | some g =>
    rw [ha, Option.some_or] at hf
    exact .inl ⟨by rw [SortedMap.contains, ha, Option.isSome_some], f, ha.trans hf, hb⟩
  | none =>
    rw [ha, Option.none_or] at hf
    exact .inr ⟨rfl, f, hf, hb⟩

/-- No formula is in the way where no calculated series of the store refers to a name that the mapping defines. -/
theorem unshadowed_of_apart
    (h : ∀ d ∈ s.store.formulas.entries, ∀ n ∈ d.2.references, s.mapping.formulas.contains n = false) :
    s.Unshadowed := by
  intro e he name hname a hpath
  induction hpath with
  | refl => exact fun _ => Definitions.mem_reachable_iff.2 ⟨name, hname, .refl⟩
  | @tail b c _ hbc ih =>
    intro hc
    rcases refers_of_evaluator he hbc with ⟨hb, href⟩ | ⟨_, f, hf, href⟩
    · obtain ⟨n, hn, hleads⟩ := Definitions.mem_reachable_iff.1 (ih hb)
      exact Definitions.mem_reachable_iff.2 ⟨n, hn, hleads.tail href⟩
    · have hapart := h (b, f) (SortedMap.mem_entries_of_get? hf) c href
      rw [hc] at hapart
      cases hapart

/-- What an evaluation reads from the store, the check has come to. -/
theorem Unshadowed.mem_storedNames (hs : s.Unshadowed) (he : s.evaluator = .ok e) {name b : String}
    (hname : name ∈ s.mapping.usedNames) (hb : e.Reads name b) : b ∈ s.store.storedNames s.loaded := by
  -- a name that the mapping does not define is loaded, or the store leads to it from one that is
  have hall {a : String} (hpath : ReflTransGen e.Refers name a) (ha : s.mapping.formulas.get? a = none) :
      ∃ n ∈ s.mapping.namesToLoad, ReflTransGen s.store.formulas.Refers n a := by
    induction hpath with
    | refl => exact ⟨name, Definitions.mem_leaves_iff.2 ⟨⟨name, hname, .refl⟩, ha⟩, .refl⟩
    | @tail c a hpath hca ih =>
      rcases refers_of_evaluator he hca with ⟨hc, href⟩ | ⟨hc, href⟩
      · obtain ⟨n, hn, hleads⟩ := Definitions.mem_reachable_iff.1 (hs e he name hname c hpath hc)
        exact ⟨a, Definitions.mem_leaves_iff.2 ⟨⟨n, hn, hleads.tail href⟩, ha⟩, .refl⟩
      · obtain ⟨n, hn, hleads⟩ := ih hc
        exact ⟨n, hn, hleads.tail href⟩
  obtain ⟨hpath, hundefined⟩ := hb
  rw [definition?_of_evaluator he, Option.or_eq_none_iff] at hundefined
  obtain ⟨n, hn, hleads⟩ := hall hpath hundefined.1
  exact Definitions.mem_leaves_iff.2 ⟨⟨n, SortedSet.mem_ofList.2 hn, hleads⟩, hundefined.2⟩

/-- After a check that passes, every name that a run uses has a value for each point at every version of the selection,
unless it depends on itself: no series is unknown, no version is missing, and no two lengths differ. -/
theorem check_sound (hcheck : s.check = .ok ()) (hs : s.Unshadowed) :
    ∃ e, s.evaluator = .ok e ∧ ∀ name ∈ s.mapping.usedNames, ∀ v ∈ s.selection.versions,
      (∃ xs, e.evaluateName name v = .ok xs ∧ xs.length = e.count.getD 1) ∨
        ∃ n, e.evaluateName name v = .error (.cycle n) := by
  obtain ⟨sampling, hsampling, hversions⟩ := Outcome.bind_eq_ok_iff.1 hcheck
  have he : s.evaluator = .ok ⟨s.store, s.mapping.formulas, sampling.map (·.count)⟩ := by
    rw [evaluator, hsampling]
    rfl
  refine ⟨_, he, fun name hname v hv => Evaluator.evaluateName_of_reads fun b hb => ?_⟩
  have hstored := hs.mem_storedNames he hname hb
  obtain ⟨series, hseries, hvalues⟩ := Store.values_of_checkVersions hversions hstored
  obtain ⟨xs, hxs, hlength⟩ := hvalues v hv
  refine ⟨xs, hxs, ?_⟩
  rw [hlength, Store.sampling_of_commonSampling hsampling hstored hseries]
  rfl

/-- A store with two hourly values of one series, and a series calculated from it. -/
def twoHours : Store :=
  ((Store.insert "x" ⟨⟨0⟩, 3600000, 2⟩ 1 [1, 2]).after .empty).insertFormula "s" (.series "x")

/-- A mapping that binds the calculated series, with a formula of its own. -/
def overTwoHours (name : String) (f : Formula) : Statistics where
  store := twoHours
  mapping := Mapping.empty.afterAll [.bind .generator "s" Mapping.generatorKey none, .addFormula name f]
  selection := ⟨.ofList [1], [⟨0, 1⟩]⟩

/-- A formula under a name that the store does not refer to is no hindrance. -/
theorem overTwoHours_evaluates :
    ∃ e, (overTwoHours "double" (.binary .add (.series "s") (.series "s"))).evaluator = .ok e ∧
      ∃ xs, e.evaluateName "s" 1 = .ok xs ∧ xs.length = 2 := by
  have hapart : (overTwoHours "double" (.binary .add (.series "s") (.series "s"))).Unshadowed :=
    unshadowed_of_apart (by decide +kernel)
  obtain ⟨e, he, hvalues⟩ := check_sound rfl hapart
  have hs := hvalues "s" (by decide +kernel) 1 (by decide +kernel)
  refine ⟨e, he, ?_⟩
  cases he
  rcases hs with hok | ⟨n, hcycle⟩
  · exact hok
  · cases hcycle

/-- A formula of the mapping takes the place of the series that a calculated series of the store refers to. The check
passes over it and finds the stored series; the evaluation comes to a name that no one has. -/
theorem shadowed_series_unchecked :
    (overTwoHours "x" (.series "missing")).check = .ok () ∧
      "s" ∈ (overTwoHours "x" (.series "missing")).mapping.usedNames ∧
      1 ∈ (overTwoHours "x" (.series "missing")).selection.versions ∧
      ∃ e, (overTwoHours "x" (.series "missing")).evaluator = .ok e ∧
        e.evaluateName "s" 1 = .error (.unknownSeries "missing") :=
  ⟨rfl, by decide +kernel, by decide +kernel, _, rfl, rfl⟩

end Statistics
end GridSeries
