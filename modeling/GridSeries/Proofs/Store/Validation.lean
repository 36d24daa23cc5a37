import GridSeries.Proofs.Evaluation.Pointwise
import GridSeries.Proofs.Store.Reading

/-! The two checks of a store, and the evaluation of the names that they were asked about. The checks follow all
definitions at once and evaluation goes down one path after the other, but both come to the same stored series. -/
namespace GridSeries

namespace Evaluator

private theorem definition?_ofStore (store : Store) (name : String) :
    (ofStore store).definition? name = store.formulas.get? name := rfl

/-- With nothing before the store, names refer to one another as its calculated series do. -/
private theorem refers_ofStore (store : Store) : (ofStore store).Refers = store.formulas.Refers := by
  funext a b
  simp only [Refers, Definitions.Refers, definition?_ofStore]

end Evaluator

namespace Store
open GridSeries.Evaluator (ofStore)

variable {store : Store} {names : List String} {versions : SortedSet Nat} {name : String} {version : Nat}

/-- The checks come to the stored series that evaluation reads for one of the names. -/
theorem mem_storedNames_iff {b : String} :
    b ∈ store.storedNames names ↔ ∃ name ∈ names, (ofStore store).Reads name b := by
  simp only [storedNames, Definitions.mem_leaves_iff, SortedSet.mem_ofList, Evaluator.Reads,
    Evaluator.refers_ofStore, Evaluator.definition?_ofStore]
  constructor
  · rintro ⟨⟨name, hname, hpath⟩, hb⟩
    exact ⟨name, hname, hpath, hb⟩
  · rintro ⟨name, hname, hpath, hb⟩
    exact ⟨⟨name, hname, hpath⟩, hb⟩

/-- After both checks, a name evaluates to values, unless it leads to a cycle, which is then what is reported. -/
theorem evaluates_of_checks {sampling : Option Sampling} (hsampling : store.commonSampling names = .ok sampling)
    (hversions : store.checkVersions versions names = .ok ()) (hname : name ∈ names) (hv : version ∈ versions) :
    (∃ xs, (ofStore store).evaluateName name version = .ok xs) ∨
      (ofStore store).LeadsToCycle name ∧ ∃ n, (ofStore store).evaluateName name version = .error (.cycle n) := by
  -- one length fits all that is read: that of the sampling which the series have in common
  have hread : ∀ b, (ofStore store).Reads name b → ∃ xs, store.values b version = .ok xs ∧
      xs.length = (sampling.map (·.count)).getD 0 := by
    intro b hb
    have hstored := mem_storedNames_iff.2 ⟨name, hname, hb⟩
    obtain ⟨s, hs, hvalues⟩ := values_of_checkVersions hversions hstored
    obtain ⟨xs, hxs, hlength⟩ := hvalues version hv
    rw [sampling_of_commonSampling hsampling hstored hs]
    exact ⟨xs, hxs, hlength⟩
  rcases Evaluator.settles_of_reads hread with ⟨v, hv, _⟩ | ⟨n, hn⟩
  · exact .inl ⟨_, Outcome.map_eq_ok_iff.2 ⟨v, hv, rfl⟩⟩
  · have herror : (ofStore store).evaluateName name version = .error (.cycle n) := Outcome.map_eq_error_iff.2 hn
    refine .inr ⟨by_contra fun hcycle => ?_, n, herror⟩
    rw [Evaluator.evaluateName_eq] at herror
    refine Evaluator.evaluate_ne_cycle (fun r hr => ?_) n herror
    rwa [List.mem_singleton.1 hr]

/-- A name that has values at a version has read all that it leads to at that version. -/
theorem values_of_evaluates {xs : List Float} (h : (ofStore store).evaluateName name version = .ok xs) {b : String}
    (hb : (ofStore store).Reads name b) : ∃ ys, store.values b version = .ok ys := by
  rw [Evaluator.evaluateName_eq] at h
  obtain ⟨v, hyields, _⟩ := Evaluator.evaluate_eq_ok_iff.1 h
  exact hyields.exists_values name (List.mem_singleton_self name) b hb

/-- Whatever a store holds: names that pass both checks evaluate, at every version that was checked, to values or to a
cycle that they lead to; and names that evaluate to values, at one version at least and at every one asked for, pass the
check of versions. -/
theorem validation_predicts_evaluation (store : Store) (names : List String) (versions : SortedSet Nat) :
    (∀ sampling, store.commonSampling names = .ok sampling → store.checkVersions versions names = .ok () →
      ∀ name ∈ names, ∀ v ∈ versions,
        (∃ xs, (ofStore store).evaluateName name v = .ok xs) ∨
          (ofStore store).LeadsToCycle name ∧ ∃ n, (ofStore store).evaluateName name v = .error (.cycle n)) ∧
    ((∃ v, v ∈ versions) →
      (∀ name ∈ names, ∀ v ∈ versions, ∃ xs, (ofStore store).evaluateName name v = .ok xs) →
      store.checkVersions versions names = .ok ()) := by
  constructor
  · intro sampling hsampling hversions name hname v hv
    exact evaluates_of_checks hsampling hversions hname hv
  · rintro ⟨first, hfirst⟩ hevaluates
    refine checkVersions_eq_ok_iff.2 fun b hb => ?_
    obtain ⟨name, hname, hreads⟩ := mem_storedNames_iff.1 hb
    have hvalues : ∀ v ∈ versions, ∃ ys, store.values b v = .ok ys := by
      intro v hv
      obtain ⟨xs, hxs⟩ := hevaluates name hname v hv
      exact values_of_evaluates hxs hreads
    obtain ⟨ys, hys⟩ := hvalues first hfirst
    obtain ⟨s, hs, _⟩ := values_eq_ok_iff.1 hys
    refine ⟨?_, hvalues⟩
    rw [contains, SortedMap.contains, hs]
    rfl

/-- Two stored series of two hourly values, their sum, and a series that is calculated from the sum and itself. -/
def plant : Store :=
  let hourly : Sampling := ⟨⟨0⟩, 3600000, 2⟩
  let stored := (Store.insert "sun" hourly 1 [0, 3]).after ((Store.insert "wind" hourly 1 [5, 4]).after .empty)
  (stored.insertFormula "sum" (.binary .add (.series "wind") (.series "sun"))).insertFormula "loop"
    (.binary .add (.series "sum") (.series "loop"))

/-- A plant whose checks pass: a sum has values, and a loop reports a cycle. -/
theorem plant_evaluates_as_checked :
    (∀ name ∈ ["sum", "loop"], (∃ xs, (ofStore plant).evaluateName name 1 = .ok xs) ∨
      (ofStore plant).LeadsToCycle name ∧ ∃ n, (ofStore plant).evaluateName name 1 = .error (.cycle n)) ∧
    plant.checkVersions (.ofList [1]) ["sum"] = .ok () := by
  obtain ⟨hchecked, _⟩ := validation_predicts_evaluation plant ["sum", "loop"] (.ofList [1])
  obtain ⟨_, hevaluated⟩ := validation_predicts_evaluation plant ["sum"] (.ofList [1])
  have hone : 1 ∈ SortedSet.ofList [1] := by decide
  constructor
  · exact fun name hname => hchecked _ rfl rfl name hname 1 hone
  · refine hevaluated ⟨1, hone⟩ fun name hname v hv => ?_
    cases List.mem_singleton.1 hname
    cases List.mem_singleton.1 (SortedSet.mem_ofList.1 hv)
    exact ⟨[5, 7], Outcome.eq_ok_of_toOption (by decide +kernel)⟩

end Store
end GridSeries
