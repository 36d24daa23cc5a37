import GridSeries.Proofs.Document.Holds
import GridSeries.Proofs.Formula.Acyclic
import GridSeries.Proofs.Mapping.Run

/-! What else every run keeps: the weights that are stored passed their check, and the formulas have no cycle. -/
namespace GridSeries.Mapping

/-- Every stored weight can be used. -/
def WeightsChecked (weights : SortedMap Key Weight) : Prop := ∀ e ∈ weights.entries, e.2.check = .ok ()

/-- A weight that passes its check can be added. -/
theorem WeightsChecked.insert {weights : SortedMap Key Weight} (h : WeightsChecked weights) {k : Key} {w : Weight}
    (hw : w.check = .ok ()) : WeightsChecked (weights.insert k w) := by
  intro e he
  rcases SortedMap.of_mem_place he with rfl | he
  · exact hw
  · exact h e he

/-- The checks of a binding one after the other. -/
theorem checkBind_eq (m : Mapping) (c : Category) (series : String) (k : Key) (weight : Option Weight) :
    m.checkBind c series k weight =
      if series = "" then .error (.key (.unnamedSeries k))
      else if k.driven.fits c = false then .error (.incompatible c k.driven)
      else (m.checkRivals c k).bind fun _ => match weight with
        | none => .ok ()
        | some w => w.check.mapError fun cause => .config (.weight cause) := by
  unfold checkBind
  by_cases hname : series = ""
  · rw [if_pos hname, if_pos hname]
    rfl
  · rw [if_neg hname, if_neg hname]
    cases k.driven.fits c with
    | false => rfl
    | true => rfl

/-- What a binding asks for. -/
theorem checkBind_eq_ok_iff {m : Mapping} {c : Category} {series : String} {k : Key} {weight : Option Weight} :
    m.checkBind c series k weight = .ok () ↔
      series ≠ "" ∧ k.driven.fits c = true ∧ m.checkRivals c k = .ok () ∧ ∀ w ∈ weight, w.check = .ok () := by
  rw [checkBind_eq]
  by_cases hs : series = ""
  · rw [if_pos hs]
    constructor
    · intro h
      cases h
    · exact fun h => absurd hs h.1
  rw [if_neg hs]
  cases hf : k.driven.fits c with
  | false =>
    constructor
    · intro h
      cases h
    · exact fun h => absurd h.2.1 (by decide)
  | true =>
    constructor
    · intro h
      obtain ⟨u, hrivals, h⟩ := Outcome.bind_eq_ok_iff.1 h
      refine ⟨hs, rfl, hrivals, fun w hw => ?_⟩
      cases hw
      exact Outcome.mapError_eq_ok_iff.1 h
    · rintro ⟨_, _, hrivals, h⟩
      refine Outcome.bind_eq_ok_iff.2 ⟨_, hrivals, ?_⟩
      cases weight with
      | none => rfl
      | some w => exact Outcome.mapError_eq_ok_iff.2 (h w rfl)

private theorem weightsChecked_of_readWeightEntry {r : Registry} {weights next : SortedMap Key Weight} {v : Json}
    (hw : WeightsChecked weights) (h : Document.readWeightEntry r weights v = .ok next) : WeightsChecked next := by
  unfold Document.readWeightEntry at h
  obtain ⟨⟨key, weight⟩, _, h⟩ := Outcome.bind_eq_ok_iff.1 h
  obtain ⟨k, _, h⟩ := Outcome.bind_eq_ok_iff.1 h
  split at h
  · cases h
  · obtain ⟨u, hcheck, h⟩ := Outcome.bind_eq_ok_iff.1 h
    cases h
    exact hw.insert (Outcome.mapError_eq_ok_iff.1 hcheck)

/-- A formula that a document defines closes no cycle. -/
theorem acyclic_of_define {defs next : Definitions} {e : String × Formula} (hd : defs.Acyclic)
    (h : Document.define defs e = .ok next) : next.Acyclic := by
  unfold Document.define at h
  split at h
  · cases h
  · rename_i hc
    cases h
    exact hd.insert (by simpa using hc)

/-- All weights have passed their check, in every run. -/
theorem invariant_weightsChecked : Invariant fun m => WeightsChecked m.weights where
  empty e he := by cases he
  document h := by
    obtain ⟨fields, hholds⟩ := Document.exists_holds_of_parse h
    rcases Document.optional_eq_ok hholds.weights with hnone | ⟨v, hweights⟩
    · rw [hnone]
      intro e he
      cases he
    · obtain ⟨items, _, hitems⟩ := Outcome.bind_eq_ok_iff.1 hweights
      exact Outcome.foldlM_preserves weightsChecked_of_readWeightEntry (fun e he => by cases he) hitems
  bound {m c series k w} h hb := by
    cases w with
    | none => exact h
    | some w => exact h.insert ((checkBind_eq_ok_iff.1 hb).2.2.2 w rfl)
  sets _ _ h _ := h
  formula h _ := h
  outages _ h := h
  ignoreLimits _ h := h

/-- No run gives its formulas a cycle. -/
theorem invariant_acyclic : Invariant fun m => m.formulas.Acyclic where
  empty := Definitions.acyclic_empty
  document h := by
    obtain ⟨fields, hholds⟩ := Document.exists_holds_of_parse h
    rcases Document.optional_eq_ok hholds.formulas with hnone | ⟨v, hformulas⟩
    · rw [hnone]
      exact Definitions.acyclic_empty
    · unfold Document.readFormulas at hformulas
      obtain ⟨fields, _, hformulas⟩ := Outcome.bind_eq_ok_iff.1 hformulas
      obtain ⟨formulas, _, hdefined⟩ := Outcome.bind_eq_ok_iff.1 hformulas
      exact Outcome.foldlM_preserves acyclic_of_define Definitions.acyclic_empty hdefined
  bound h _ := h
  sets _ _ h _ := h
  formula h hf := h.insert hf
  outages _ h := h
  ignoreLimits _ h := h

/-- Among formulas without a cycle, a definition is refused when it would close one, in which case nothing changes. -/
theorem addFormula_eq_error_iff {m : Mapping} (h : m.formulas.Acyclic) {name : String} {f : Formula} :
    (addFormula name f).apply m = (.error (.cycle name), m) ↔
      ¬ Definitions.Acyclic (m.formulas.insert name f) := by
  rw [apply_addFormula, h.insert_iff]
  cases m.formulas.wouldCycle name f with
  | true => simp
  | false => simp

/-- Every other definition stands, in place of the one its name had. -/
theorem addFormula_eq_ok_iff {m : Mapping} (h : m.formulas.Acyclic) {name : String} {f : Formula} :
    (addFormula name f).apply m = (.ok (), { m with formulas := m.formulas.insert name f }) ↔
      Definitions.Acyclic (m.formulas.insert name f) := by
  rw [apply_addFormula, h.insert_iff]
  cases m.formulas.wouldCycle name f with
  | true => simp
  | false => simp

end GridSeries.Mapping
