import GridSeries.Proofs.Document.Entries
import GridSeries.Proofs.Document.Extent
import GridSeries.Proofs.Json.Number
import GridSeries.Proofs.Mapping.Integrity
import GridSeries.Proofs.Mapping.Sound

/-! A written document reads back. Each section is rebuilt from its entries; the checks that reading makes on the way
succeed because every run keeps what they check. -/
namespace GridSeries

/-- The key occurs in the mapping: in either direction of an index, among declared keys, or with a weight. -/
inductive Mapping.Uses (m : Mapping) (k : Key) : Prop where
  | forward {c : Category} {series : String} {keys : SortedSet Key} :
      (series, keys) ∈ (m.category c).forward.entries → k ∈ keys → m.Uses k
  | reverse {c : Category} {series : List String} : (k, series) ∈ (m.category c).reverse.entries → m.Uses k
  | declared {c : Category} : k ∈ (m.category c).declared → m.Uses k
  | weight {w : Weight} : (k, w) ∈ m.weights.entries → m.Uses k

namespace Document

variable {r : Registry} {m : Mapping}

/-- A section reads as what it was written for, or is left out where that is what its absence stands for. -/
private theorem optional_written {α : Type} {name : String} {absent : Bool} {v : Json} {missing a : α}
    {read : Json → Except Fault α} (h : (name, valueUnless absent v) ∈ table m) (habsent : absent = true → missing = a)
    (hread : read v.normalize = .ok a) : optional (writtenFields m) name missing read = .ok a := by
  rw [optional, field?_writtenFields h]
  cases absent with
  | true => exact congrArg Except.ok (habsent rfl)
  | false => exact hread

private theorem optional_map {κ ν : Type} [Ord κ] [Std.TransOrd κ] [Std.LawfulEqOrd κ] [DecidableEq κ] {name : String}
    {write : κ × ν → Json} {step : SortedMap κ ν → Json → Except Fault (SortedMap κ ν)} {a : SortedMap κ ν}
    (h : (name, listValue (a.entries.map write)) ∈ table m)
    (hstep : ∀ before : SortedMap κ ν, ∀ e ∈ a.entries, before.get? e.1 = none →
      step before (write e).normalize = .ok (before.insert e.1 e.2)) :
    (optional (writtenFields m) name ∅ fun v => do (← itemsOf name v).foldlM step ∅) = .ok a := by
  refine optional_written h (fun habsent => ?_) ?_
  · rw [List.isEmpty_iff, List.map_eq_nil_iff] at habsent
    exact SortedMap.ext habsent.symm
  · rw [Json.normalize_array, List.map_map]
    exact a.foldlM_entries fun before _ e he hnew => hstep before e he hnew

private theorem optional_set {α : Type} [Ord α] {name : String} {write : α → Json}
    {read : Json → Except Fault (SortedSet α)} {s : SortedSet α}
    (h : (name, listValue (s.toList.map write)) ∈ table m)
    (hread : read (Json.array (s.toList.map write)).normalize = .ok s) :
    optional (writtenFields m) name ∅ read = .ok s := by
  refine optional_written h (fun habsent => ?_) hread
  rw [List.isEmpty_iff, List.map_eq_nil_iff] at habsent
  exact SortedSet.ext habsent.symm

private theorem optional_names {name : String} {s : SortedSet String} (h : (name, namesValue s) ∈ table m) :
    optional (writtenFields m) name ∅ (nameSetOf name) = .ok s :=
  optional_set h (nameSetOf_names name s)

private theorem readCategory_written (c : Category) (h : ∀ k, m.Uses k → r.Knows k) :
    readCategory r (writtenFields m) c = .ok (m.category c) := by
  have hin {e : String × Option Json} (he : e ∈ categoryTable c (m.category c)) : e ∈ table m :=
    mem_table_of_category c he
  have hforward : (optional (writtenFields m) (sections c).forward ∅ fun v => do
      (← itemsOf (sections c).forward v).foldlM (readForwardEntry r (sections c).forward) ∅) =
      .ok (m.category c).forward :=
    optional_map (hin (by simp [categoryTable])) fun _ _ he _ =>
      readForwardEntry_write fun k hk => h k (.forward he hk)
  have hreverse : (optional (writtenFields m) (sections c).reverse ∅ fun v => do
      (← itemsOf (sections c).reverse v).foldlM (readReverseEntry r (sections c).reverse) ∅) =
      .ok (m.category c).reverse :=
    optional_map (hin (by simp [categoryTable])) fun _ e he hnew =>
      readReverseEntry_write (h e.1 (.reverse he)) hnew
  have hdeclared : optional (writtenFields m) (sections c).declared ∅ (keySetOf r (sections c).declared) =
      .ok (m.category c).declared :=
    optional_set (hin (by simp [categoryTable])) (keySetOf_keys _ fun k hk => h k (.declared hk))
  have hunmapped : optional (writtenFields m) (sections c).unmapped ∅ (nameSetOf (sections c).unmapped) =
      .ok (m.category c).unmapped := optional_names (hin (by simp [categoryTable]))
  have hignored : optional (writtenFields m) (sections c).ignoredUnmapped ∅
      (nameSetOf (sections c).ignoredUnmapped) = .ok (m.category c).ignoredUnmapped :=
    optional_names (hin (by simp [categoryTable]))
  have hdisconnected : optional (writtenFields m) (sections c).disconnected ∅
      (nameSetOf (sections c).disconnected) = .ok (m.category c).disconnected :=
    optional_names (hin (by simp [categoryTable]))
  have houtside : optional (writtenFields m) (sections c).outsideMain ∅ (nameSetOf (sections c).outsideMain) =
      .ok (m.category c).outsideMain := optional_names (hin (by simp [categoryTable]))
  rw [readCategory]
  refine Outcome.bind_eq_ok_iff.2 ⟨_, hforward, Outcome.bind_eq_ok_iff.2 ⟨_, hreverse, ?_⟩⟩
  refine Outcome.bind_eq_ok_iff.2 ⟨_, hdeclared, Outcome.bind_eq_ok_iff.2 ⟨_, hunmapped, ?_⟩⟩
  refine Outcome.bind_eq_ok_iff.2 ⟨_, hignored, Outcome.bind_eq_ok_iff.2 ⟨_, hdisconnected, ?_⟩⟩
  exact Outcome.bind_eq_ok_iff.2 ⟨_, houtside, rfl⟩

private theorem readCategories_written (h : ∀ k, m.Uses k → r.Knows k) :
    readCategories r (writtenFields m) = .ok m.categories := by
  have hall (l : List Category) (start : PerCategory Bindings) : ∃ t : PerCategory Bindings,
      l.foldlM (fun table c => do pure (table.set c (← readCategory r (writtenFields m) c))) start =
        (.ok t : Except Fault _) ∧ ∀ c, t.get c = if c ∈ l then m.category c else start.get c := by
    induction l generalizing start with
    | nil => exact ⟨start, rfl, fun c => by simp⟩
    | cons d l ih =>
      obtain ⟨t, hfold, ht⟩ := ih (start.set d (m.category d))
      refine ⟨t, ?_, fun c => ?_⟩
      · rw [List.foldlM_cons, readCategory_written d h]
        exact hfold
      · rw [ht, PerCategory.get_set]
        by_cases hl : c ∈ l
        · rw [if_pos hl, if_pos (List.mem_cons_of_mem d hl)]
        · by_cases hd : c = d
          · rw [if_neg hl, if_pos hd, if_pos (hd ▸ List.mem_cons_self), hd]
          · rw [if_neg hl, if_neg hd, if_neg (List.not_mem_cons_of_ne_of_not_mem hd hl)]
  obtain ⟨t, hfold, ht⟩ := hall Category.all (.replicate .empty)
  have heq : t = m.categories := PerCategory.eq_of_get_eq fun c => by
    rw [ht, if_pos (Category.mem_all c)]
    rfl
  rw [← heq]
  exact hfold

/-- Definitions without a cycle read back, in whatever order they were made. -/
theorem readFormulas_written {defs : Definitions} (h : defs.Acyclic) :
    readFormulas (Json.object (defs.entries.map fun e => (e.1, e.2.toJson))).normalize = .ok defs := by
  have hsorted : Json.normalFields (defs.entries.map fun e => (e.1, e.2.toJson)) =
      defs.entries.map fun e => (e.1, e.2.toJson.normalize) := by
    rw [Json.normalFields, Json.sortFields, SortedMap.entries_ofList_map, SortedMap.ofList_entries, List.map_map]
    rfl
  have hformulas : (defs.entries.map fun e => (e.1, e.2.toJson.normalize)).mapM readFormula = .ok defs.entries := by
    have hitems := Outcome.mapM_map_eq_ok (f := readFormula) (g := fun e => (e.1, e.2.toJson.normalize)) (h := id)
      (l := defs.entries) fun e _ => by
        rw [readFormula, Formula.ofJson?_toJson]
        rfl
    rwa [List.map_id] at hitems
  have hdefined : (defs.entries.map id).foldlM define ∅ = .ok defs :=
    defs.foldlM_entries fun before hb e he _ => by
      rw [define, id, h.wouldCycle_eq_false hb he]
      rfl
  rw [Json.normalize_object, hsorted]
  change ((defs.entries.map fun e => (e.1, e.2.toJson.normalize)).mapM readFormula).bind _ = _
  rw [hformulas]
  dsimp only [Except.bind]
  rw [SortedMap.ofList_entries]
  rwa [List.map_id] at hdefined

/-- The fields of a written document hold the mapping, where the registry knows its keys and the mapping would pass the
checks that reading makes. -/
theorem holds_written (hknown : ∀ k, m.Uses k → r.Knows k) (hweights : Mapping.WeightsChecked m.weights)
    (hformulas : m.formulas.Acyclic) (hindex : m.checkIndex = .ok ()) : Holds r (writtenFields m) m where
  names := checkFields_writtenFields m
  categories := readCategories_written hknown
  weights := optional_map (mem_table_of_global (by simp [globalTable])) fun _ e he _ =>
    readWeightEntry_write (hknown e.1 (.weight he)) (hweights e he)
  formulas := by
    have hin : (formulasField, valueUnless m.formulas.isEmpty
        (.object (m.formulas.entries.map fun e => (e.1, e.2.toJson)))) ∈ table m :=
      mem_table_of_global (by simp [globalTable])
    refine optional_written hin (fun habsent => ?_) (readFormulas_written hformulas)
    exact SortedMap.ext (List.isEmpty_iff.1 habsent).symm
  boundSeries := optional_names (mem_table_of_global (by simp [globalTable]))
  ignoreLimits := optional_names (mem_table_of_global (by simp [globalTable]))
  outages := optional_map (mem_table_of_global (by simp [globalTable])) fun _ _ _ hnew => readOutagesEntry_write hnew
  index := hindex

/-- A text that holds the tree of a mapping is read as the mapping. -/
theorem parse_written {text : String} (htext : Json.read? text = some (write m)) (h : Holds r (writtenFields m) m) :
    parse r text = .ok m := by
  refine parse_eq_ok_iff.2 ⟨_, htext, ?_⟩
  have hnormal : (write m).normalize = write m := Json.normalize_normalize _
  rw [hnormal, write_eq]
  exact read_eq_ok_iff.2 ⟨_, rfl, h⟩

/-- Both texts of a mapping are read as the mapping, whatever run it comes from. The doubles in it must read back, and
its formulas must leave room for the two containers around them. -/
theorem run_reads_back (r : Registry) (o : Mapping.Origin) (steps : List Mapping.Step)
    (hknown : ∀ k, (o.mapping.run steps).Uses k → r.Knows k)
    (hdoubles : ∀ x, (o.mapping.run steps).Carries x → Json.ReadsBack x)
    (hnesting : ∀ e ∈ (o.mapping.run steps).formulas.entries, e.2.toJson.depth + 2 ≤ Json.depthLimit) :
    parse r (write (o.mapping.run steps)).compact = .ok (o.mapping.run steps) ∧
      parse r (write (o.mapping.run steps)).pretty = .ok (o.mapping.run steps) := by
  have hindex := Mapping.checkIndex_eq_ok_iff.2 (Mapping.invariant_agrees.run o steps)
  have hholds := holds_written hknown (Mapping.invariant_weightsChecked.run o steps)
    (Mapping.invariant_acyclic.run o steps) hindex
  have hwithin : Json.Within Json.Number.Scans Json.depthLimit (write (o.mapping.run steps)) :=
    within_write ⟨_, rfl, rfl⟩ (fun x hx => (hdoubles x hx).scans) (by decide) hnesting
  exact ⟨parse_written (Json.read?_compact hwithin.2 hwithin.1) hholds,
    parse_written (Json.read?_pretty hwithin.2 hwithin.1) hholds⟩

def loadKey : Key := ⟨.builtin .p0, "load-1", by decide, rfl⟩

/-- One series is bound with a weight; another is half of it, and has outages of no equipment. -/
def loadSteps : List Mapping.Step :=
  [.change (.bind .load "consumption" loadKey (some (.constant 0.25))),
    .change (.declare .load "load-1" [.builtin .p0]), .change (.markUnmapped .load "load-2"),
    .change (.addFormula "half" (.binary .mul (.constant 0.5) (.series "consumption"))),
    .change (.addOutages "half" [])]

def loadMapping : Mapping := Mapping.Origin.empty.mapping.run loadSteps

/-- A mapping with a load, a weight, a formula and a series without outages, in both ways of writing. -/
theorem loadMapping_reads_back :
    parse .standard (write loadMapping).compact = .ok loadMapping ∧
      parse .standard (write loadMapping).pretty = .ok loadMapping ∧ loadMapping.outages.get? "half" = some ∅ := by
  have hkeys : ∀ c ∈ Category.all,
      (∀ e ∈ (loadMapping.category c).forward.entries, ∀ k ∈ e.2.toList, k = loadKey) ∧
      (∀ e ∈ (loadMapping.category c).reverse.entries, e.1 = loadKey) ∧
      ∀ k ∈ (loadMapping.category c).declared.toList, k = loadKey := by decide +kernel
  have hweights : ∀ e ∈ loadMapping.weights.entries, e = (loadKey, .constant 0.25) := by decide +kernel
  have hformulas : ∀ e ∈ loadMapping.formulas.entries,
      e = ("half", .binary .mul (.constant 0.5) (.series "consumption")) := by decide +kernel
  have hread := run_reads_back .standard .empty loadSteps (fun k hk => ?_) (fun x hx => ?_) (fun e he => ?_)
  · exact ⟨hread.1, hread.2, by decide +kernel⟩
  · have hk : k = loadKey := by
      cases hk with
      | @forward c _ _ he hk => exact (hkeys c (Category.mem_all c)).1 _ he k hk
      | @reverse c _ he => exact (hkeys c (Category.mem_all c)).2.1 _ he
      | @declared c hk => exact (hkeys c (Category.mem_all c)).2.2 k hk
      | weight he => exact congrArg Prod.fst (hweights _ he)
    rw [hk]
    rfl
  · cases hx with
    | weight he =>
      cases hweights _ he
      rfl
    | formula he hx =>
      cases hformulas _ he
      rw [List.mem_singleton.1 hx]
      rfl
  · rw [hformulas e he]
    decide

end Document
end GridSeries
