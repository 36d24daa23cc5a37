import GridSeries.Formula.Reach
import Mathlib.Logic.Relation

/-! References between definitions. The rounds of expansion find exactly the names that a path of references leads to,
so the test for cycles refuses a definition just when it would close one, and what was acyclic stays acyclic. -/
namespace GridSeries.Definitions
open Relation (ReflTransGen TransGen)

/-- One of the definitions has the first name and refers to the second. -/
def ListRefers (pending : List (String × Formula)) (a b : String) : Prop :=
  ∃ d ∈ pending, d.1 = a ∧ b ∈ d.2.references

/-- The definition of the first name refers to the second. -/
def Refers (defs : Definitions) (a b : String) : Prop := ∃ f, defs.get? a = some f ∧ b ∈ f.references

/-- No name leads back to itself. -/
def Acyclic (defs : Definitions) : Prop := ∀ name, ¬ TransGen defs.Refers name name

private theorem refers_iff {defs : Definitions} {a b : String} : defs.Refers a b ↔ ListRefers defs.entries a b := by
  constructor
  · rintro ⟨f, hf, hb⟩
    exact ⟨(a, f), SortedMap.mem_entries_of_get? hf, rfl, hb⟩
  · rintro ⟨⟨a, f⟩, hmem, rfl, hb⟩
    exact ⟨f, SortedMap.get?_of_mem_entries hmem, hb⟩

/-- A round adds what the found definitions refer to and sets those definitions aside; the same names can be reached
after it as before. -/
private theorem reach_expand_iff {pending : List (String × Formula)} {found : SortedSet String} {name : String} :
    (∃ n ∈ found.insertAll (references (pending.filter fun d => decide (d.1 ∈ found))),
      ReflTransGen (ListRefers (pending.filter fun d => decide (¬ d.1 ∈ found))) n name) ↔
    ∃ n ∈ found, ReflTransGen (ListRefers pending) n name := by
  constructor
  · rintro ⟨n, hn, hpath⟩
    have hpath : ReflTransGen (ListRefers pending) n name :=
      ReflTransGen.mono (fun a b ⟨d, hd, hab⟩ => ⟨d, (List.mem_filter.1 hd).1, hab⟩) n name hpath
    rcases SortedSet.mem_insertAll.1 hn with hn | hn
    · obtain ⟨d, hd, hn⟩ := List.mem_flatMap.1 hn
      obtain ⟨hd, hfound⟩ := List.mem_filter.1 hd
      exact ⟨d.1, of_decide_eq_true hfound, .head ⟨d, hd, rfl, hn⟩ hpath⟩
    · exact ⟨n, hn, hpath⟩
  · rintro ⟨n, hn, hpath⟩
    -- from the end of the path: a reference of a found definition is a new start
    induction hpath with
    | refl => exact ⟨n, SortedSet.mem_insertAll.2 (.inr hn), .refl⟩
    | @tail a b _ hab ih =>
      obtain ⟨d, hd, rfl, hb⟩ := hab
      by_cases hfound : d.1 ∈ found
      · refine ⟨b, SortedSet.mem_insertAll.2 (.inl ?_), .refl⟩
        exact List.mem_flatMap.2 ⟨d, List.mem_filter.2 ⟨hd, decide_eq_true hfound⟩, hb⟩
      · obtain ⟨n, hn, hpath⟩ := ih
        exact ⟨n, hn, hpath.tail ⟨d, List.mem_filter.2 ⟨hd, decide_eq_true hfound⟩, rfl, hb⟩⟩

/-- With a round for every definition and one more, expansion finds what can be reached, and nothing else. -/
theorem mem_close_iff {rounds : Nat} {pending : List (String × Formula)} {found : SortedSet String} {name : String}
    (h : pending.length < rounds) :
    name ∈ close rounds pending found ↔ ∃ n ∈ found, ReflTransGen (ListRefers pending) n name := by
  induction rounds generalizing pending found with
  | zero => omega
  | succ rounds ih =>
    unfold close
    dsimp only
    split
    · rename_i hready
      have hnone : ∀ d ∈ pending, ¬ d.1 ∈ found := by
        simpa [List.isEmpty_iff] using hready
      constructor
      · exact fun hn => ⟨name, hn, .refl⟩
      · rintro ⟨n, hn, hpath⟩
        rcases ReflTransGen.cases_head hpath with rfl | ⟨_, ⟨d, hd, rfl, _⟩, _⟩
        · exact hn
        · exact absurd hn (hnone d hd)
    · rename_i hready
      have hshorter : (pending.filter fun d => decide (¬ d.1 ∈ found)).length < pending.length := by
        rw [List.length_filter_lt_length_iff_exists]
        obtain ⟨d, hd⟩ := List.exists_mem_of_ne_nil _ fun hnil => hready (List.isEmpty_iff.2 hnil)
        obtain ⟨hd, hfound⟩ := List.mem_filter.1 hd
        exact ⟨d, hd, by simpa using hfound⟩
      rw [ih (by omega)]
      exact reach_expand_iff

/-- The names found by expansion are those that a path of references leads to. -/
theorem mem_reachable_iff {defs : Definitions} {start : SortedSet String} {name : String} :
    name ∈ reachable defs start ↔ ∃ n ∈ start, ReflTransGen defs.Refers n name := by
  have hrefers : ListRefers defs.entries = defs.Refers := by
    funext a b
    exact propext refers_iff.symm
  rw [reachable, SortedMap.size, mem_close_iff (Nat.lt_add_one _), hrefers]

/-- The names found that have no definition are those that a path of references ends in. -/
theorem mem_leaves_iff {defs : Definitions} {start : SortedSet String} {name : String} :
    name ∈ leaves defs start ↔ (∃ n ∈ start, ReflTransGen defs.Refers n name) ∧ defs.get? name = none := by
  rw [leaves, SortedSet.mem_filter, mem_reachable_iff, SortedMap.contains]
  cases defs.get? name with
  | none => simp
  | some f => simp

/-- A definition is taken to close a cycle when one of the names it refers to leads to its own. -/
theorem wouldCycle_iff {defs : Definitions} {name : String} {f : Formula} :
    defs.wouldCycle name f = true ↔ ∃ n ∈ f.references, ReflTransGen defs.Refers n name := by
  rw [wouldCycle, decide_eq_true_eq, mem_reachable_iff]
  simp only [Formula.names, SortedSet.mem_ofList]

/-- Without definitions there is no cycle. -/
theorem acyclic_empty : Acyclic ∅ := by
  intro name hcycle
  obtain ⟨_, ⟨f, hf, _⟩, _⟩ := TransGen.head'_iff.1 hcycle
  cases hf

variable {defs : Definitions} {name : String} {f : Formula}

private theorem refers_insert {a b : String} :
    Refers (defs.insert name f) a b ↔ if a = name then b ∈ f.references else defs.Refers a b := by
  simp only [Refers, SortedMap.get?_insert]
  split
  · simp
  · rfl

private theorem reach_of_reach_insert {a : String} (h : ReflTransGen (Refers (defs.insert name f)) a name) :
    ReflTransGen defs.Refers a name := by
  induction h using ReflTransGen.head_induction_on with
  | refl => exact .refl
  | @head a b hab _ ih =>
    rw [refers_insert] at hab
    split at hab
    · rename_i heq
      exact heq ▸ .refl
    · exact .head hab ih

/-- The way to a name does not use the definition of the name, so a new one does not cut it off. -/
private theorem reach_insert_of_reach {a : String} (h : ReflTransGen defs.Refers a name) :
    ReflTransGen (Refers (defs.insert name f)) a name := by
  induction h using ReflTransGen.head_induction_on with
  | refl => exact .refl
  | @head a b hab _ ih =>
    by_cases heq : a = name
    · exact heq ▸ .refl
    · exact .head (refers_insert.2 (by rwa [if_neg heq])) ih

private theorem path_insert {a b : String} (h : TransGen (Refers (defs.insert name f)) a b) :
    TransGen defs.Refers a b ∨ ∃ n ∈ f.references, ReflTransGen (Refers (defs.insert name f)) a name ∧
      ReflTransGen (Refers (defs.insert name f)) n b := by
  induction h with
  | @single b hab =>
    rw [refers_insert] at hab
    split at hab
    · rename_i heq
      exact .inr ⟨b, hab, heq ▸ .refl, .refl⟩
    · exact .inl (.single hab)
  | @tail b c hpath hbc ih =>
    by_cases heq : b = name
    · rw [refers_insert, if_pos heq] at hbc
      exact .inr ⟨c, hbc, heq ▸ hpath.to_reflTransGen, .refl⟩
    · rcases ih with hold | ⟨n, hn, hto, hfrom⟩
      · rw [refers_insert, if_neg heq] at hbc
        exact .inl (hold.tail hbc)
      · exact .inr ⟨n, hn, hto, hfrom.tail hbc⟩

/-- A definition that passes the test closes no cycle. -/
theorem Acyclic.insert (h : Acyclic defs) (hf : defs.wouldCycle name f = false) : Acyclic (defs.insert name f) := by
  intro x hcycle
  rcases path_insert hcycle with hold | ⟨n, hn, hto, hfrom⟩
  · exact h x hold
  · have hcycle := wouldCycle_iff.2 ⟨n, hn, reach_of_reach_insert (hfrom.trans hto)⟩
    rw [hf] at hcycle
    cases hcycle

/-- Among definitions without a cycle, the test fails exactly those that would close one. -/
theorem Acyclic.insert_iff (h : Acyclic defs) : Acyclic (defs.insert name f) ↔ defs.wouldCycle name f = false := by
  refine ⟨fun hinsert => ?_, h.insert⟩
  cases hc : defs.wouldCycle name f with
  | false => rfl
  | true =>
    obtain ⟨n, hn, hpath⟩ := wouldCycle_iff.1 hc
    have hfirst : Refers (defs.insert name f) name n := refers_insert.2 (by rwa [if_pos rfl])
    exact absurd (.head' hfirst (reach_insert_of_reach hpath)) (hinsert name)

/-- A definition that fails the test among some of a set of definitions lies on a cycle of the whole set. -/
theorem cycle_of_wouldCycle {before : Definitions} (hb : ∀ d ∈ before.entries, d ∈ defs.entries)
    (hf : (name, f) ∈ defs.entries) (hc : before.wouldCycle name f = true) : TransGen defs.Refers name name := by
  obtain ⟨n, hn, hpath⟩ := wouldCycle_iff.1 hc
  have hpath : ReflTransGen defs.Refers n name :=
    ReflTransGen.mono (fun a b ⟨g, hg, hab⟩ => ⟨g, SortedMap.get?_of_mem_entries
      (hb (a, g) (SortedMap.mem_entries_of_get? hg)), hab⟩) n name hpath
  exact .head' ⟨f, SortedMap.get?_of_mem_entries hf, hn⟩ hpath

/-- Definitions without a cycle can be added one by one, in any order: none closes a cycle with those before it. -/
theorem Acyclic.wouldCycle_eq_false (h : Acyclic defs) {before : Definitions}
    (hb : ∀ d ∈ before.entries, d ∈ defs.entries) (hf : (name, f) ∈ defs.entries) :
    before.wouldCycle name f = false := by
  cases hc : before.wouldCycle name f with
  | false => rfl
  | true => exact absurd (cycle_of_wouldCycle hb hf hc) (h name)

end GridSeries.Definitions
