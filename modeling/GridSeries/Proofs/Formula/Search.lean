import GridSeries.Proofs.Formula.Acyclic
import GridSeries.Proofs.Mapping.Run
import GridSeries.Proofs.Sorted
import GridSeries.Store.Basic
import Mathlib.Tactic.Tauto

/-! Searches through definitions. A search keeps a list of names to look at and takes any of them, as often as there is
one. It remembers what it has looked at, so names that refer to each other in a circle do not hold it up. Whatever names
it takes, it ends, and finds the same as expansion in rounds. A search for one name, the test of a new definition, may
stop at that name and tells the same as well. -/
namespace GridSeries.Definitions
open Relation (ReflTransGen)

/-- A search under way: the names to look at, perhaps repeated, those looked at, and those of them without a
definition. -/
structure Search where
  waiting : List String
  visited : SortedSet String
  found : SortedSet String

namespace Search

def start (names : List String) : Search := ⟨names, ∅, ∅⟩

/-- One name is taken from anywhere in the list. -/
inductive Step (defs : Definitions) : Search → Search → Prop
  | skip {front back : List String} {name : String} {visited found : SortedSet String} (hvisited : name ∈ visited) :
    Step defs ⟨front ++ name :: back, visited, found⟩ ⟨front ++ back, visited, found⟩
  | expand {front back : List String} {name : String} {visited found : SortedSet String} {f : Formula}
    (hnew : ¬ name ∈ visited) (hdef : defs.get? name = some f) :
    Step defs ⟨front ++ name :: back, visited, found⟩ ⟨front ++ back ++ f.names.toList, visited.insert name, found⟩
  | record {front back : List String} {name : String} {visited found : SortedSet String}
    (hnew : ¬ name ∈ visited) (hdef : defs.get? name = none) :
    Step defs ⟨front ++ name :: back, visited, found⟩ ⟨front ++ back, visited.insert name, found.insert name⟩

/-- The name has come up. -/
def Seen (s : Search) (name : String) : Prop := name ∈ s.waiting ∨ name ∈ s.visited

/-- What holds of a search from some names at any time. -/
structure Explores (defs : Definitions) (names : List String) (s : Search) : Prop where
  /-- Only names come up that a path of references leads to. -/
  reached : ∀ name, s.Seen name → ∃ n ∈ names, ReflTransGen defs.Refers n name
  start_seen : ∀ name ∈ names, s.Seen name
  references_seen : ∀ a ∈ s.visited, ∀ b, defs.Refers a b → s.Seen b
  mem_found_iff : ∀ name, name ∈ s.found ↔ name ∈ s.visited ∧ defs.get? name = none

variable {defs : Definitions} {names : List String} {s t : Search} {name : String}

/-- Taking a name brings up what its definition refers to, unless that was done before, and settles the name. -/
theorem Step.spec (h : Step defs s t) : ∃ taken ∈ s.waiting,
    (∀ name, t.Seen name ↔ s.Seen name ∨ ¬ taken ∈ s.visited ∧ defs.Refers taken name) ∧
    (∀ name, name ∈ t.visited ↔ name = taken ∨ name ∈ s.visited) ∧
    ∀ name, name ∈ t.found ↔ name ∈ s.found ∨ name = taken ∧ ¬ taken ∈ s.visited ∧ defs.get? taken = none := by
  cases h with
  | @skip front back taken visited found hvisited =>
    refine ⟨taken, by simp, fun name => ?_, fun name => ?_, fun name => by simp [hvisited]⟩
    · simp only [Seen, List.mem_append, List.mem_cons, hvisited, not_true_eq_false, false_and, or_false]
      constructor
      · tauto
      · rintro ((h | rfl | h) | h) <;> tauto
    · refine ⟨.inr, ?_⟩
      rintro (rfl | h)
      · exact hvisited
      · exact h
  | @expand front back taken visited found f hnew hdef =>
    have hrefers (name : String) : defs.Refers taken name ↔ name ∈ f.names.toList := by
      rw [Refers, hdef, ← SortedSet.mem_def, Formula.names, SortedSet.mem_ofList]
      simp
    refine ⟨taken, by simp, fun name => ?_, fun name => SortedSet.mem_insert, fun name => by simp [hdef]⟩
    simp only [Seen, List.mem_append, List.mem_cons, SortedSet.mem_insert, hrefers, hnew, not_false_eq_true, true_and]
    tauto
  | @record front back taken visited found hnew hdef =>
    refine ⟨taken, by simp, fun name => ?_, fun name => SortedSet.mem_insert, fun name => ?_⟩
    · simp only [Seen, List.mem_append, List.mem_cons, SortedSet.mem_insert, Refers, hdef, reduceCtorEq, false_and,
        exists_false, and_false, or_false]
      tauto
    · simp only [SortedSet.mem_insert, hnew, hdef, not_false_eq_true, and_true]
      exact or_comm

private theorem explores_start (defs : Definitions) (names : List String) : Explores defs names (start names) where
  reached name hseen := by
    rcases hseen with hwaiting | hvisited
    · exact ⟨name, hwaiting, .refl⟩
    · exact absurd hvisited (SortedSet.not_mem_empty name)
  start_seen name hname := .inl hname
  references_seen a ha := absurd ha (SortedSet.not_mem_empty a)
  mem_found_iff name :=
    iff_of_false (SortedSet.not_mem_empty name) fun hvisited => SortedSet.not_mem_empty name hvisited.1

/-- A step keeps what holds of a search at any time. -/
theorem Explores.step (hs : Explores defs names s) (h : Step defs s t) : Explores defs names t := by
  obtain ⟨taken, hwaiting, hseen, hvisited, hfound⟩ := h.spec
  refine ⟨fun name hname => ?_, fun name hname => (hseen name).2 (.inl (hs.start_seen name hname)),
    fun a ha b hab => (hseen b).2 ?_, fun name => ?_⟩
  · rcases (hseen name).1 hname with hname | ⟨_, hrefers⟩
    · exact hs.reached name hname
    · obtain ⟨n, hn, hpath⟩ := hs.reached taken (.inl hwaiting)
      exact ⟨n, hn, hpath.tail hrefers⟩
  · by_cases hold : a ∈ s.visited
    · exact .inl (hs.references_seen a hold b hab)
    · rcases (hvisited a).1 ha with rfl | ha
      · exact .inr ⟨hold, hab⟩
      · exact absurd ha hold
  · rw [hfound, hvisited, hs.mem_found_iff]
    by_cases hold : taken ∈ s.visited
    · constructor
      · tauto
      · rintro ⟨rfl | h, hdef⟩ <;> tauto
    · constructor
      · rintro (h | ⟨rfl, h⟩) <;> tauto
      · rintro ⟨rfl | h, hdef⟩ <;> tauto

/-- The invariant holds along every search. -/
theorem explores_of_reaches (h : ReflTransGen (Step defs) (start names) s) : Explores defs names s := by
  induction h with
  | refl => exact explores_start defs names
  | tail _ hstep ih => exact ih.step hstep

/-- A search at its end has visited what can be reached, no more and no less. -/
theorem Explores.mem_visited_iff (h : Explores defs names s) (hend : s.waiting = []) :
    name ∈ s.visited ↔ ∃ n ∈ names, ReflTransGen defs.Refers n name := by
  have hvisited {name : String} (hseen : s.Seen name) : name ∈ s.visited := by
    rcases hseen with hwaiting | hvisited
    · rw [hend] at hwaiting
      cases hwaiting
    · exact hvisited
  refine ⟨fun hname => h.reached name (.inr hname), ?_⟩
  rintro ⟨n, hn, hpath⟩
  -- along the path: what a visited name refers to has been seen, and nothing waits any more
  induction hpath with
  | refl => exact hvisited (h.start_seen n hn)
  | tail _ hrefers ih => exact hvisited (h.references_seen _ ih _ hrefers)

/-- What it has found are the leaves of expansion. -/
theorem Explores.found_eq (h : Explores defs names s) (hend : s.waiting = []) :
    s.found = leaves defs (SortedSet.ofList names) := by
  refine SortedSet.eq_of_mem_iff fun name => ?_
  rw [h.mem_found_iff, mem_leaves_iff, h.mem_visited_iff hend]
  simp only [SortedSet.mem_ofList]

/-- The definitions whose names have not been visited. -/
def pending (defs : Definitions) (visited : SortedSet String) : List (String × Formula) :=
  defs.entries.filter fun d => decide (¬ d.1 ∈ visited)

private theorem pending_insert (visited : SortedSet String) (name : String) :
    pending defs (visited.insert name) = (pending defs visited).filter fun d => decide (d.1 ≠ name) := by
  rw [pending, pending, List.filter_filter]
  refine List.filter_congr fun d _ => ?_
  rw [← Bool.decide_and, decide_eq_decide, SortedSet.mem_insert, not_or]

/-- The definitions not expanded yet, then the names to look at. -/
def size (defs : Definitions) (s : Search) : Nat × Nat := ((pending defs s.visited).length, s.waiting.length)

/-- A step expands a definition that was not expanded before, or makes the list of names shorter. -/
theorem Step.decreases (h : Step defs s t) : Prod.Lex (· < ·) (· < ·) (size defs t) (size defs s) := by
  cases h with
  | skip hvisited => exact .right _ (by simp)
  | @expand front back taken visited found f hnew hdef =>
    refine .left _ _ ?_
    dsimp only
    rw [pending_insert, List.length_filter_lt_length_iff_exists]
    have hpending : (taken, f) ∈ pending defs visited :=
      List.mem_filter.2 ⟨SortedMap.mem_entries_of_get? hdef, decide_eq_true hnew⟩
    exact ⟨(taken, f), hpending, by simp⟩
  | @record front back taken visited found hnew hdef =>
    have hle : (pending defs (visited.insert taken)).length ≤ (pending defs visited).length := by
      rw [pending_insert]
      exact List.length_filter_le _ _
    rcases Nat.lt_or_eq_of_le hle with hlt | heq
    · exact .left _ _ hlt
    · rw [size, size, heq]
      exact .right _ (by simp)

private theorem wellFounded_step (defs : Definitions) : WellFounded fun t s => Step defs s t :=
  Subrelation.wf (fun h => Step.decreases h) (InvImage.wf (size defs) (Prod.lex Nat.lt_wfRel Nat.lt_wfRel).wf)

/-- As long as a name waits, it can be taken. -/
theorem exists_step (hs : s.waiting ≠ []) : ∃ t, Step defs s t := by
  obtain ⟨waiting, visited, found⟩ := s
  obtain ⟨name, back, rfl⟩ := List.exists_cons_of_ne_nil hs
  change ∃ t, Step defs ⟨[] ++ name :: back, visited, found⟩ t
  by_cases hvisited : name ∈ visited
  · exact ⟨_, .skip hvisited⟩
  · cases hdef : defs.get? name with
    | none => exact ⟨_, .record hvisited hdef⟩
    | some f => exact ⟨_, .expand hvisited hdef⟩

/-- Every search can be brought to its end. -/
theorem exists_end (defs : Definitions) (s : Search) : ∃ t, ReflTransGen (Step defs) s t ∧ t.waiting = [] := by
  induction s using (wellFounded_step defs).induction with
  | h s ih =>
    by_cases hs : s.waiting = []
    · exact ⟨s, .refl, hs⟩
    · obtain ⟨t, hstep⟩ : ∃ t, Step defs s t := exists_step hs
      obtain ⟨u, hreaches, hend⟩ := ih t hstep
      exact ⟨u, .head hstep hreaches, hend⟩

end Search

/-- A set is what every search from some names comes to. -/
structure Finds (defs : Definitions) (names : List String) (found : SortedSet String) : Prop where
  /-- The set holds the names without a definition that a path of references leads to, from one of the names on. -/
  mem_iff : ∀ name, name ∈ found ↔ defs.get? name = none ∧ ∃ n ∈ names, ReflTransGen defs.Refers n name
  /-- No search goes on for ever, and one with a name to look at can go on, so there is one at its end. -/
  ends : ∀ s, ReflTransGen (Search.Step defs) (.start names) s → Acc (fun t s => Search.Step defs s t) s
  goes_on : ∀ s, ReflTransGen (Search.Step defs) (.start names) s → s.waiting ≠ [] → ∃ t, Search.Step defs s t
  finishes : ∃ s, ReflTransGen (Search.Step defs) (.start names) s ∧ s.waiting = [] ∧ s.found = found
  /-- At its end a search has found the set, whatever names it took first. -/
  found_eq : ∀ s, ReflTransGen (Search.Step defs) (.start names) s → s.waiting = [] → s.found = found
  /-- Neither the order nor the repetition of the names matters. -/
  same : ∀ others : List String, (∀ n, n ∈ others ↔ n ∈ names) →
    ∀ s, ReflTransGen (Search.Step defs) (.start others) s → s.waiting = [] → s.found = found

private theorem finds_leaves (defs : Definitions) (names : List String) :
    defs.Finds names (defs.leaves (SortedSet.ofList names)) where
  mem_iff name := by
    rw [mem_leaves_iff, and_comm]
    simp only [SortedSet.mem_ofList]
  ends s _ := (Search.wellFounded_step defs).apply s
  goes_on s _ := Search.exists_step
  finishes := by
    obtain ⟨s, hreaches, hend⟩ := Search.exists_end defs (.start names)
    exact ⟨s, hreaches, hend, (Search.explores_of_reaches hreaches).found_eq hend⟩
  found_eq s hreaches hend := (Search.explores_of_reaches hreaches).found_eq hend
  same others hothers s hreaches hend := by
    have hset : SortedSet.ofList others = SortedSet.ofList names :=
      SortedSet.eq_of_mem_iff fun n => by rw [SortedSet.mem_ofList, SortedSet.mem_ofList, hothers]
    rw [← hset]
    exact (Search.explores_of_reaches hreaches).found_eq hend

/-- The names that a mapping needs loaded, and those that a list of names reads from a store, are what searches through
the formulas of the mapping and through the calculated series of the store find. -/
theorem names_to_load_found :
    (∀ m : Mapping, m.formulas.Finds m.usedNames.toList m.namesToLoad) ∧
      ∀ (store : Store) (names : List String), store.formulas.Finds names (store.storedNames names) := by
  refine ⟨fun m => ?_, fun store names => finds_leaves store.formulas names⟩
  have hfinds := finds_leaves m.formulas m.usedNames.toList
  rwa [SortedSet.ofList_toList] at hfinds

namespace Search

/-- A step that takes another name than the one searched for. -/
def StepPast (defs : Definitions) (target : String) (s t : Search) : Prop := Step defs s t ∧ ¬ target ∈ t.visited

variable {defs : Definitions} {names : List String} {target : String} {s t : Search}

/-- A search that has not stopped is a search like any other, and has not looked at the name. -/
private theorem explores_of_reachesPast (h : ReflTransGen (StepPast defs target) (start names) s) :
    Explores defs names s ∧ ¬ target ∈ s.visited := by
  refine ⟨explores_of_reaches (ReflTransGen.mono (fun _ _ hstep => hstep.1) _ _ h), ?_⟩
  cases h with
  | refl => exact SortedSet.not_mem_empty target
  | tail _ hstep => exact hstep.2

private theorem wellFounded_stepPast (defs : Definitions) (target : String) :
    WellFounded fun t s => StepPast defs target s t :=
  Subrelation.wf (fun hstep => hstep.1) (wellFounded_step defs)

private theorem exists_stepPast (hnew : ¬ target ∈ s.visited) (hs : s.waiting ≠ []) (htarget : ¬ target ∈ s.waiting) :
    ∃ t, StepPast defs target s t := by
  obtain ⟨t, hstep⟩ : ∃ t, Step defs s t := exists_step hs
  obtain ⟨taken, hwaiting, _, hvisited, _⟩ := hstep.spec
  refine ⟨t, hstep, fun hmem => ?_⟩
  rcases (hvisited target).1 hmem with rfl | hold
  · exact htarget hwaiting
  · exact hnew hold

/-- Every search comes to the name or to its end. -/
theorem exists_stop (hnew : ¬ target ∈ s.visited) :
    ∃ t, ReflTransGen (StepPast defs target) s t ∧ (target ∈ t.waiting ∨ t.waiting = []) := by
  induction s using (wellFounded_stepPast defs target).induction with
  | h s ih =>
    by_cases htarget : target ∈ s.waiting
    · exact ⟨s, .refl, .inl htarget⟩
    · by_cases hs : s.waiting = []
      · exact ⟨s, .refl, .inr hs⟩
      · obtain ⟨t, hstep⟩ : ∃ t, StepPast defs target s t := exists_stepPast hnew hs htarget
        obtain ⟨u, hreaches, hstop⟩ := ih t hstep hstep.2
        exact ⟨u, .head hstep hreaches, hstop⟩

end Search

/-- An answer is what every search for a name among the references of a formula comes to. -/
structure Tells (defs : Definitions) (name : String) (f : Formula) (answer : Bool) : Prop where
  /-- No search goes on for ever. One with names to look at can take the name itself or go on past it. -/
  ends : ∀ s, ReflTransGen (Search.StepPast defs name) (.start f.names.toList) s →
    Acc (fun t s => Search.StepPast defs name s t) s
  goes_on : ∀ s, ReflTransGen (Search.StepPast defs name) (.start f.names.toList) s → s.waiting ≠ [] →
    name ∈ s.waiting ∨ ∃ t, Search.StepPast defs name s t
  stops : ∃ s, ReflTransGen (Search.StepPast defs name) (.start f.names.toList) s ∧
    (name ∈ s.waiting ∨ s.waiting = [])
  /-- The name can be taken only where the answer is that there would be a cycle, and no search with that answer
  ends before it is. -/
  eq_true : ∀ s, ReflTransGen (Search.StepPast defs name) (.start f.names.toList) s → name ∈ s.waiting → answer = true
  eq_false : ∀ s, ReflTransGen (Search.StepPast defs name) (.start f.names.toList) s → s.waiting = [] → answer = false

/-- The test for cycles tells what a search does that starts from the names of the new formula, goes through the
formulas there are and stops at the name to be defined. -/
theorem tells_wouldCycle (defs : Definitions) (name : String) (f : Formula) :
    defs.Tells name f (defs.wouldCycle name f) where
  ends s _ := (Search.wellFounded_stepPast defs name).apply s
  goes_on s hreaches hs := by
    by_cases hname : name ∈ s.waiting
    · exact .inl hname
    · exact .inr (Search.exists_stepPast (Search.explores_of_reachesPast hreaches).2 hs hname)
  stops := Search.exists_stop (SortedSet.not_mem_empty name)
  eq_true s hreaches hname := by
    obtain ⟨n, hn, hpath⟩ := (Search.explores_of_reachesPast hreaches).1.reached name (.inl hname)
    exact wouldCycle_iff.2 ⟨n, SortedSet.mem_ofList.1 hn, hpath⟩
  eq_false s hreaches hend := by
    obtain ⟨hexplores, hnew⟩ := Search.explores_of_reachesPast hreaches
    rw [← Bool.not_eq_true, wouldCycle_iff]
    rintro ⟨n, hn, hpath⟩
    exact hnew ((hexplores.mem_visited_iff hend).2 ⟨n, SortedSet.mem_ofList.2 hn, hpath⟩)

/-- A mapping refuses a formula for a cycle, or takes it up, as those searches tell. -/
theorem addFormula_as_told (m : Mapping) (name : String) (f : Formula) : ∃ answer, m.formulas.Tells name f answer ∧
    (Mapping.addFormula name f).apply m =
      if answer then (.error (.cycle name), m) else (.ok (), { m with formulas := m.formulas.insert name f }) :=
  ⟨_, tells_wouldCycle m.formulas name f, Mapping.apply_addFormula m name f⟩

end GridSeries.Definitions
