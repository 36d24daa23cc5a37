import GridSeries.Mapping.Report
import GridSeries.Proofs.Sorted

/-! The report on a mapping against the queries that it sums up. Its findings are those of three passes, told apart by
their topics: the fault that the check ends in, the declared keys that are not bound, and the equipment that is without a
series. Each pass finds all it should, once and in order, and the counts of a category are the numbers of what is found. -/
namespace GridSeries

namespace Category

private theorem all_nodup : all.Nodup := by decide

/-- How a message on a declared key of the category begins. -/
def driftText (c : Category) : String := c.label ++ " time series declared for '"

/-- The message on a piece of equipment of the category that is without a series. -/
def unmappedText (c : Category) : String := c.label ++ " has no time series bound"

private theorem eq_of_driftText {c d : Category} (h : c.driftText.toList <+: d.driftText.toList) : c = d := by
  have hall : ∀ c ∈ all, ∀ d ∈ all, c.driftText.toList <+: d.driftText.toList → c = d := by decide +kernel
  exact hall c (mem_all c) d (mem_all d) h

private theorem eq_of_unmappedText {c d : Category} (h : c.unmappedText = d.unmappedText) : c = d := by
  have hlabel : c.label.toList = d.label.toList := by
    have htexts := congrArg String.toList h
    rw [unmappedText, unmappedText, String.toList_append, String.toList_append] at htexts
    exact List.append_cancel_right htexts
  have htext : c.driftText = d.driftText := congrArg (· ++ " time series declared for '") (String.toList_inj.1 hlabel)
  exact eq_of_driftText (htext ▸ List.prefix_rfl)

/-- A test that just the members of one category pass keeps of all lists that of the category. -/
private theorem filter_flatMap_all {β : Type} {f : Category → List β} {p : β → Bool} {c : Category}
    (hp : ∀ d, ∀ b ∈ f d, p b = decide (d = c)) : (all.flatMap f).filter p = f c := by
  have hone (l : List Category) (hl : l.Nodup) : (l.flatMap f).filter p = if c ∈ l then f c else [] := by
    induction l with
    | nil => rfl
    | cons d rest ih =>
      obtain ⟨hfirst, hrest⟩ := List.nodup_cons.1 hl
      rw [List.flatMap_cons, List.filter_append, ih hrest]
      by_cases hd : d = c
      · subst hd
        have hkept : (f d).filter p = f d := List.filter_eq_self.2 fun b hb => by simp [hp d b hb]
        rw [hkept, if_neg hfirst, if_pos List.mem_cons_self, List.append_nil]
      · have hdropped : (f d).filter p = [] := List.filter_eq_nil_iff.2 fun b hb => by simp [hp d b hb, hd]
        have hmem : c ∈ d :: rest ↔ c ∈ rest := by simp [Ne.symm hd]
        rw [hdropped, List.nil_append]
        simp only [hmem]
  rw [hone all all_nodup, if_pos (mem_all c)]

end Category

/-- The findings on declared keys of a category, by what their messages begin with. -/
def Report.driftOf (r : Report) (c : Category) : List Finding :=
  (r.findings.about "drift").filter fun f => c.driftText.toList.isPrefixOf f.message.toList

/-- The findings on equipment of a category that is without a series, by their messages. -/
def Report.unmappedOf (r : Report) (c : Category) : List Finding :=
  (r.findings.about "unmapped").filter fun f => f.message == c.unmappedText

private theorem Key.isLE_of_compare {k l : Key} (h : compare k l = .lt) :
    ((compare k.id l.id).then ((compare k.driven.family l.driven.family).then
      (compare k.driven.name l.driven.name))).isLE = true := by
  have hparts : (compare k.id l.id).then ((compare k.driven.family l.driven.family).then
      ((compare k.driven.name l.driven.name).then (compare k.driven.isExtension l.driven.isExtension))) = .lt := h
  revert hparts
  cases compare k.id l.id <;> cases compare k.driven.family l.driven.family <;>
    cases compare k.driven.name l.driven.name <;> simp

namespace Bindings

variable {b : Bindings} {k : Key}

private theorem mem_declaredUnbound_iff : k ∈ b.declaredUnbound ↔ k ∈ b.declared ∧ ¬ b.isBound k = true := by
  rw [declaredUnbound, List.mem_filter, SortedSet.mem_def, Bool.not_eq_true', Bool.not_eq_true]

/-- The declared keys are those that are bound and those that are not. -/
theorem declared_perm (b : Bindings) : (b.declaredBound ++ b.declaredUnbound).Perm b.declared.toList :=
  List.filter_append_perm _ _

private theorem missing_eq_nil_iff : b.missing.toList = [] ↔ ∀ id ∈ b.unmapped, id ∈ b.ignoredUnmapped := by
  rw [List.eq_nil_iff_forall_not_mem]
  simp only [← SortedSet.mem_def, missing, SortedSet.mem_diff, not_and, not_not]

end Bindings

namespace Mapping

variable {m : Mapping} {c : Category}

private theorem of_mem_checkFindings {f : Finding} (h : f ∈ m.checkFindings) :
    f.severity = .error ∧ f.topic = "consistency" := by
  unfold checkFindings at h
  split at h
  · cases h
  · cases List.mem_singleton.1 h
    exact ⟨rfl, rfl⟩

private theorem filter_findings (m : Mapping) (p : Finding → Bool) :
    m.report.findings.list.filter p =
      m.checkFindings.filter p ++ Category.all.flatMap fun c =>
        ((m.category c).declaredUnbound.map (driftFinding c)).filter p ++
          ((m.category c).missing.toList.map (unmappedFinding c)).filter p := by
  rw [report, List.filter_append, List.filter_flatMap]
  simp only [categoryFindings, List.filter_append]

/-- What is found about another topic than the check is found in the categories. -/
theorem about_eq (m : Mapping) {topic : String} (h : topic ≠ "consistency") :
    m.report.findings.about topic =
      Category.all.flatMap fun c =>
        ((m.category c).declaredUnbound.map (driftFinding c)).filter (fun f => f.topic == topic) ++
          ((m.category c).missing.toList.map (unmappedFinding c)).filter fun f => f.topic == topic := by
  have hcheck : (m.checkFindings.filter fun f => f.topic == topic) = [] :=
    List.filter_eq_nil_iff.2 fun f hf => by simp [(of_mem_checkFindings hf).2, h.symm]
  rw [Findings.about, filter_findings, hcheck, List.nil_append]

private theorem about_drift (m : Mapping) :
    m.report.findings.about "drift" =
      Category.all.flatMap fun c => (m.category c).declaredUnbound.map (driftFinding c) := by
  rw [about_eq m (by decide)]
  simp [List.filter_map, Function.comp_def, driftFinding, unmappedFinding]

private theorem about_unmapped (m : Mapping) :
    m.report.findings.about "unmapped" =
      Category.all.flatMap fun c => (m.category c).missing.toList.map (unmappedFinding c) := by
  rw [about_eq m (by decide)]
  simp [List.filter_map, Function.comp_def, driftFinding, unmappedFinding]

/-- The errors of a report are what the check finds. -/
theorem errors_eq (m : Mapping) :
    (m.report.findings.list.filter fun f => decide (f.severity = .error)) = m.checkFindings := by
  have hcheck : (m.checkFindings.filter fun f => decide (f.severity = .error)) = m.checkFindings :=
    List.filter_eq_self.2 fun f hf => by simp [(of_mem_checkFindings hf).1]
  rw [filter_findings, hcheck]
  simp [List.filter_map, Function.comp_def, driftFinding, unmappedFinding]

private theorem driftOf_eq (m : Mapping) (c : Category) :
    m.report.driftOf c = (m.category c).declaredUnbound.map (driftFinding c) := by
  rw [Report.driftOf, about_drift]
  apply Category.filter_flatMap_all
  intro d f hf
  obtain ⟨k, _, rfl⟩ := List.mem_map.1 hf
  have hbegins : d.driftText.toList <+: (driftFinding d k).message.toList := by
    rw [driftFinding, ← Category.driftText, String.append_assoc, String.toList_append]
    exact List.prefix_append _ _
  rw [Bool.eq_iff_iff, List.isPrefixOf_iff_prefix, decide_eq_true_iff]
  constructor
  · intro hother
    rcases List.prefix_or_prefix_of_prefix hbegins hother with h | h
    · exact Category.eq_of_driftText h
    · exact (Category.eq_of_driftText h).symm
  · rintro rfl
    exact hbegins

private theorem unmappedOf_eq (m : Mapping) (c : Category) :
    m.report.unmappedOf c = (m.category c).missing.toList.map (unmappedFinding c) := by
  rw [Report.unmappedOf, about_unmapped]
  apply Category.filter_flatMap_all
  intro d f hf
  obtain ⟨id, _, rfl⟩ := List.mem_map.1 hf
  have hmessage : (unmappedFinding d id).message = d.unmappedText := rfl
  rw [Bool.eq_iff_iff, beq_iff_eq, decide_eq_true_iff, hmessage]
  exact ⟨Category.eq_of_unmappedText, fun h => congrArg Category.unmappedText h⟩

private theorem isComplete_iff : m.isComplete = true ↔ ∀ c, (m.category c).missing.toList = [] := by
  rw [isComplete, List.all_eq_true]
  constructor
  · intro h c
    have hcount := h c (Category.mem_all c)
    exact List.eq_nil_of_length_eq_zero (beq_iff_eq.1 hcount)
  · intro h c _
    rw [beq_iff_eq, unmappedCount, SortedSet.size, h c, List.length_nil]

private theorem about_unmapped_eq_nil_iff :
    m.report.findings.about "unmapped" = [] ↔ ∀ c, (m.category c).missing.toList = [] := by
  rw [about_unmapped, List.flatMap_eq_nil_iff]
  constructor
  · intro h c
    exact List.map_eq_nil_iff.1 (h c (Category.mem_all c))
  · intro h c _
    exact List.map_eq_nil_iff.2 (h c)

private theorem count_error (m : Mapping) : m.report.findings.count .error = m.checkFindings.length := by
  rw [Findings.count, List.countP_eq_length_filter, errors_eq]

private theorem mem_report_categories {n : Counts} :
    (c, n) ∈ m.report.categories ↔ n = m.counts c ∧ n ≠ Counts.zero := by
  rw [report, List.mem_filter, List.mem_map, decide_eq_true_iff]
  constructor
  · rintro ⟨⟨d, _, hd⟩, hn⟩
    cases hd
    exact ⟨rfl, hn⟩
  · rintro ⟨rfl, hn⟩
    exact ⟨⟨c, Category.mem_all c, rfl⟩, hn⟩

private theorem report_categories_sublist (m : Mapping) : (m.report.categories.map (·.1)).Sublist Category.all := by
  have hall : (Category.all.map fun c => (c, m.counts c)).map (·.1) = Category.all := by
    rw [List.map_map]
    exact List.map_id _
  have hkept : m.report.categories.Sublist (Category.all.map fun c => (c, m.counts c)) := List.filter_sublist
  have hfirsts := hkept.map (·.1)
  rwa [hall] at hfirsts

/-- What a report says about a mapping, against what the queries answer. -/
structure Faithful (m : Mapping) (r : Report) : Prop where
  complete_iff : r.complete = true ↔ m.isComplete = true
  complete_iff_excused :
    r.complete = true ↔ ∀ c, ∀ id ∈ (m.category c).unmapped, id ∈ (m.category c).ignoredUnmapped
  complete_iff_silent : r.complete = true ↔ r.findings.about "unmapped" = []
  passes_iff : m.check = .ok () ↔ r.findings.count .error = 0
  fails_iff : (∃ fault, m.check = .error fault) ↔ r.findings.count .error = 1
  /-- Drift is listed category by category, a finding for each key. -/
  drift : r.findings.about "drift" = Category.all.flatMap fun c => (m.category c).declaredUnbound.map (driftFinding c)
  drift_key_iff : ∀ c k, k ∈ (m.category c).declaredUnbound ↔
    k ∈ (m.category c).declared ∧ ¬ (m.category c).isBound k = true
  drift_sorted : ∀ c, (m.category c).declaredUnbound.Pairwise fun k l =>
    ((compare k.id l.id).then ((compare k.driven.family l.driven.family).then
      (compare k.driven.name l.driven.name))).isLE = true
  /-- The declared keys, each once, are those listed as bound and those in which there is drift. -/
  declared : ∀ c, ((m.category c).declaredBound ++ (m.category c).declaredUnbound).Nodup ∧
    ∀ k, k ∈ (m.category c).declaredBound ++ (m.category c).declaredUnbound ↔ k ∈ (m.category c).declared
  unmapped_count : ∀ c, (r.unmappedOf c).length = m.unmappedCount c
  drift_count : ∀ c, (r.driftOf c).length = (m.category c).declaredUnbound.length
  /-- Categories are listed in their order and at most once. -/
  listed_once : (r.categories.map (·.1)).Sublist Category.all ∧ Category.all.Nodup
  listed_iff : ∀ c n, (c, n) ∈ r.categories ↔
    n = ⟨m.mappedCount c, m.multiMappedCount c, m.unmappedCount c, (m.category c).ignoredUnmapped.size,
      (m.category c).declaredUnbound.length⟩ ∧ n ≠ Counts.zero

/-- The report of every mapping agrees with the queries. -/
theorem report_faithful (m : Mapping) : Faithful m m.report where
  complete_iff := Iff.rfl
  complete_iff_excused := by
    have hcomplete : m.report.complete = true ↔ ∀ c, (m.category c).missing.toList = [] := isComplete_iff
    simp only [hcomplete, Bindings.missing_eq_nil_iff]
  complete_iff_silent := isComplete_iff.trans about_unmapped_eq_nil_iff.symm
  passes_iff := by
    rw [count_error, checkFindings]
    cases m.check with
    | ok u => simp
    | error fault => simp
  fails_iff := by
    rw [count_error, checkFindings]
    cases m.check with
    | ok u => simp
    | error fault => simp
  drift := about_drift m
  drift_key_iff c k := Bindings.mem_declaredUnbound_iff
  drift_sorted c := by
    have hkeys := (m.category c).declared.increasing.filter fun k => !(m.category c).isBound k
    exact hkeys.imp Key.isLE_of_compare
  declared c := by
    have hperm := (m.category c).declared_perm
    exact ⟨hperm.nodup_iff.2 (SortedSet.nodup_toList _), fun k => hperm.mem_iff⟩
  unmapped_count c := by rw [unmappedOf_eq, List.length_map, unmappedCount, SortedSet.size]
  drift_count c := by rw [driftOf_eq, List.length_map]
  listed_once := ⟨report_categories_sublist m, Category.all_nodup⟩
  listed_iff c n := mem_report_categories

end Mapping
end GridSeries
