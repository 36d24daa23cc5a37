import GridSeries.Proofs.Outcome
import GridSeries.Statistics.Engine

/-! Summaries and single statistics. A summary drops the versions without values before it reduces anything, while the
median of a target pools all versions first; both come to the same, for whichever versions have no value at the selected
points. -/
namespace GridSeries.Statistics

variable {s : Statistics} {target : Target} {lists : List (List Float)} {f : Fault}

/-- All statistics of the values of some versions, each as it is taken on its own. -/
def summarize (lists : List (List Float)) : Summary where
  least := combine lesser ((nonempty lists).map (combine lesser))
  greatest := combine greater ((nonempty lists).map (combine greater))
  mean := mean ((nonempty lists).map mean)
  sum := combine (fun x y => x + y) ((nonempty lists).map sum)
  median := median lists.flatten

private theorem flatten_nonempty (lists : List (List Float)) : (nonempty lists).flatten = lists.flatten :=
  List.flatten_filter_not_isEmpty

private theorem nonempty_nonempty (lists : List (List Float)) : nonempty (nonempty lists) = nonempty lists := by
  rw [nonempty, nonempty, List.filter_filter]
  simp

private theorem summarize_nonempty (lists : List (List Float)) : summarize (nonempty lists) = summarize lists := by
  rw [summarize, summarize, nonempty_nonempty, flatten_nonempty]

private theorem summarize_of_no_values (h : ∀ xs ∈ lists, xs = []) :
    summarize lists = ⟨undefined, undefined, undefined, undefined, undefined⟩ := by
  have hnone : nonempty lists = [] := List.filter_eq_nil_iff.2 fun xs hxs => by simp [h xs hxs]
  have hmedian : median [] = undefined := by simp [median, lowerMiddle?]
  have hempty : summarize [] = ⟨undefined, undefined, undefined, undefined, median []⟩ := rfl
  rw [← summarize_nonempty, hnone, hempty, hmedian]

private theorem acrossVersions_eq (s : Statistics) (single : List Float → Float) (g : Float → Float → Float)
    (target : Target) :
    s.acrossVersions single g target =
      (s.perVersion target).map fun lists => combine g ((nonempty lists).map single) :=
  bind_pure_comp ..

private theorem least_eq (s : Statistics) (target : Target) :
    s.least target = (s.perVersion target).map fun lists => (summarize lists).least :=
  s.acrossVersions_eq (combine lesser) lesser target

private theorem greatest_eq (s : Statistics) (target : Target) :
    s.greatest target = (s.perVersion target).map fun lists => (summarize lists).greatest :=
  s.acrossVersions_eq (combine greater) greater target

/-- The total on its own is the sum of the summary. -/
theorem total_eq (s : Statistics) (target : Target) :
    s.total target = (s.perVersion target).map fun lists => (summarize lists).sum :=
  s.acrossVersions_eq sum (fun x y => x + y) target

private theorem average_eq (s : Statistics) (target : Target) :
    s.average target = (s.perVersion target).map fun lists => (summarize lists).mean :=
  bind_pure_comp ..

/-- The median on its own is that of the summary. -/
theorem medianOf_eq (s : Statistics) (target : Target) :
    s.medianOf target = (s.perVersion target).map fun lists => (summarize lists).median :=
  bind_pure_comp ..

/-- A summary drops the versions without values before it pools the others for the median. -/
theorem summary_eq (s : Statistics) (target : Target) : s.summary target = (s.perVersion target).map summarize := by
  rw [summary]
  cases s.perVersion target with
  | ok lists =>
    change Except.ok _ = Except.ok (summarize lists)
    rw [flatten_nonempty]
    rfl
  | error f => rfl

/-- The first version whose values are not found decides how the evaluation of all fails. -/
theorem perVersion_eq_error_iff : s.perVersion target = .error f ↔
    ∃ before v after, s.selection.versions.toList = before ++ v :: after ∧
      (∀ w ∈ before, ∃ xs, s.values target w = .ok xs) ∧ s.values target v = .error f :=
  Outcome.mapM_eq_error_iff

/-- Each statistic that is taken on its own is a field of what the values of the versions come to. -/
theorem exists_field {statistic : Target → Except Fault Float}
    (h : statistic ∈ [s.least, s.greatest, s.average, s.total, s.medianOf]) (target : Target) :
    ∃ field : Summary → Float, statistic target = (s.perVersion target).map fun lists => field (summarize lists) := by
  simp only [List.mem_cons, List.not_mem_nil, or_false] at h
  rcases h with rfl | rfl | rfl | rfl | rfl
  · exact ⟨_, s.least_eq target⟩
  · exact ⟨_, s.greatest_eq target⟩
  · exact ⟨_, s.average_eq target⟩
  · exact ⟨_, s.total_eq target⟩
  · exact ⟨_, s.medianOf_eq target⟩

/-- A summary answers with the answers of the five statistics. -/
theorem summary_eq_ok_iff {r : Summary} : s.summary target = .ok r ↔
    s.least target = .ok r.least ∧ s.greatest target = .ok r.greatest ∧ s.average target = .ok r.mean ∧
      s.total target = .ok r.sum ∧ s.medianOf target = .ok r.median := by
  rw [summary_eq, least_eq, greatest_eq, average_eq, total_eq, medianOf_eq]
  cases s.perVersion target with
  | ok lists =>
    cases r
    simp [Except.map, summarize]
  | error f => simp [Except.map]

/-- A summary gathers the statistics that are taken one by one. It answers exactly when all five answer, and its fields
are their answers; it fails exactly when any one of them does, as that one does, which is how the first version fails
whose values are not found. Versions without values count for nothing, and where no version has a value there is a
summary all the same, with no number in any field. -/
theorem summary_gathers (s : Statistics) (target : Target) :
    (∀ r, s.summary target = .ok r ↔
      s.least target = .ok r.least ∧ s.greatest target = .ok r.greatest ∧ s.average target = .ok r.mean ∧
        s.total target = .ok r.sum ∧ s.medianOf target = .ok r.median) ∧
    (∀ f, ∀ statistic ∈ [s.least, s.greatest, s.average, s.total, s.medianOf],
      s.summary target = .error f ↔ statistic target = .error f) ∧
    (∀ f, s.summary target = .error f ↔
      ∃ before v after, s.selection.versions.toList = before ++ v :: after ∧
        (∀ w ∈ before, ∃ xs, s.values target w = .ok xs) ∧ s.values target v = .error f) ∧
    (∀ lists, s.perVersion target = .ok lists →
      s.summary target = .ok (summarize (nonempty lists)) ∧
        ((∀ xs ∈ lists, xs = []) →
          s.summary target = .ok ⟨undefined, undefined, undefined, undefined, undefined⟩)) := by
  refine ⟨fun r => summary_eq_ok_iff, fun f statistic hstatistic => ?_, fun f => ?_, fun lists hlists => ?_⟩
  · obtain ⟨field, hfield⟩ := exists_field hstatistic target
    rw [summary_eq, hfield, Outcome.map_eq_error_iff, Outcome.map_eq_error_iff]
  · rw [summary_eq, Outcome.map_eq_error_iff]
    exact perVersion_eq_error_iff
  · have hsummary : s.summary target = .ok (summarize lists) := by
      rw [summary_eq, hlists]
      rfl
    rw [summarize_nonempty, hsummary]
    exact ⟨rfl, fun hnone => congrArg Except.ok (summarize_of_no_values hnone)⟩

/-- A series of two points of which the selection has none. -/
def pastTwoPoints : Statistics where
  store := (Store.insert "x" ⟨⟨0⟩, 3600000, 2⟩ 1 [1, 2]).after .empty
  mapping := .empty
  selection := ⟨.ofList [1], [⟨5, 6⟩]⟩

/-- A summary of no points has no number, and neither has the least value of none. -/
theorem pastTwoPoints_summarized :
    pastTwoPoints.perVersion (.name "x") = .ok [[]] ∧
      pastTwoPoints.summary (.name "x") = .ok ⟨undefined, undefined, undefined, undefined, undefined⟩ ∧
      pastTwoPoints.least (.name "x") = .ok undefined := by
  have hnoPoint : filterByIntervals [1, 2] [⟨5, 6⟩] = ([] : List Float) := by decide +kernel
  have hvalue : pastTwoPoints.values (.name "x") 1 = .ok [] := congrArg Except.ok hnoPoint
  have hvalues : pastTwoPoints.perVersion (.name "x") = .ok [[]] := by
    change [1].mapM (pastTwoPoints.values (.name "x")) = .ok [[]]
    rw [List.mapM_cons, hvalue]
    rfl
  obtain ⟨hanswers, _, _, hsummary⟩ := summary_gathers pastTwoPoints (.name "x")
  have hnone := (hsummary [[]] hvalues).2 fun xs hxs => List.mem_singleton.1 hxs
  exact ⟨hvalues, hnone, ((hanswers _).1 hnone).1⟩

end GridSeries.Statistics
