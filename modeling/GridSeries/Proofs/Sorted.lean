import GridSeries.Sorted.Map
import Mathlib.Data.List.Basic

/-! Sorted maps and sets made from lists: what is in them, and that listing and gathering again changes nothing. -/
namespace GridSeries

/-- A set is that of its own elements. -/
theorem SortedSet.ofList_toList {α : Type} [Ord α] [Std.TransOrd α] [Std.LawfulEqOrd α] (s : SortedSet α) :
    SortedSet.ofList s.toList = s :=
  SortedSet.eq_of_mem_iff fun _ => SortedSet.mem_ofList

/-- An empty set has no elements. -/
theorem SortedSet.isEmpty_iff {α : Type} [Ord α] {s : SortedSet α} : s.isEmpty = true ↔ ∀ a, ¬ a ∈ s := by
  rw [SortedSet.isEmpty, List.isEmpty_iff, List.eq_nil_iff_forall_not_mem]
  rfl

/-- A set with an element is not empty. -/
theorem SortedSet.isEmpty_eq_false {α : Type} [Ord α] [Std.TransOrd α] [Std.LawfulEqOrd α] {s : SortedSet α}
    (h : s ≠ ∅) : s.isEmpty = false := by
  refine Bool.eq_false_iff.2 fun hempty => h (SortedSet.eq_of_mem_iff fun a => ?_)
  exact iff_of_false (SortedSet.isEmpty_iff.1 hempty a) (SortedSet.not_mem_empty a)

/-- Elements can be inserted in either order. -/
theorem SortedSet.insert_comm {α : Type} [Ord α] [Std.TransOrd α] [Std.LawfulEqOrd α] (s : SortedSet α) (a b : α) :
    (s.insert a).insert b = (s.insert b).insert a := by
  refine SortedSet.eq_of_mem_iff fun c => ?_
  simp only [SortedSet.mem_insert]
  exact or_left_comm

/-- Elements can be erased in either order. -/
theorem SortedSet.erase_comm {α : Type} [Ord α] [Std.TransOrd α] [DecidableEq α] (s : SortedSet α) (a b : α) :
    (s.erase a).erase b = (s.erase b).erase a := by
  refine SortedSet.eq_of_mem_iff fun c => ?_
  simp only [SortedSet.mem_erase]
  exact and_right_comm

/-- No element is listed twice. -/
theorem SortedSet.nodup_toList {α : Type} [Ord α] [Std.TransOrd α] (s : SortedSet α) : s.toList.Nodup := by
  refine s.increasing.imp fun {a b} hlt heq => ?_
  rw [heq, show compare b b = .eq from Std.ReflCmp.compare_self] at hlt
  cases hlt

namespace SortedMap

variable {κ ν μ : Type} [Ord κ] [Std.TransOrd κ] [Std.LawfulEqOrd κ]

omit [Std.LawfulEqOrd κ] in
/-- No key has two entries. -/
theorem nodup_keys (m : SortedMap κ ν) : (m.entries.map (·.1)).Nodup := by
  refine List.pairwise_map.2 (m.increasing.imp fun {a b} hlt heq => ?_)
  rw [heq, show compare b.1 b.1 = .eq from Std.ReflCmp.compare_self] at hlt
  cases hlt

/-- Entries of different keys can be inserted in either order. -/
theorem insert_comm [DecidableEq κ] (m : SortedMap κ ν) {k l : κ} (h : k ≠ l) (v w : ν) :
    (m.insert k v).insert l w = (m.insert l w).insert k v := by
  apply eq_of_get?_eq
  intro i
  simp only [get?_insert]
  by_cases hk : i = k
  · rw [if_neg fun hl => h (hk.symm.trans hl), if_pos hk, if_pos hk]
  · rw [if_neg hk, if_neg hk]

/-- Of two values for one key, the later stays. -/
theorem insert_insert [DecidableEq κ] (m : SortedMap κ ν) (k : κ) (v w : ν) :
    (m.insert k v).insert k w = m.insert k w := by
  apply eq_of_get?_eq
  intro i
  simp only [get?_insert]
  by_cases hk : i = k
  · rw [if_pos hk, if_pos hk]
  · rw [if_neg hk, if_neg hk, if_neg hk]

private theorem get?_insertAll_of_not_mem [DecidableEq κ] (m : SortedMap κ ν) {l : List (κ × ν)} {k : κ}
    (h : ¬ k ∈ l.map (·.1)) : (m.insertAll l).get? k = m.get? k := by
  induction l generalizing m with
  | nil => rfl
  | cons e rest ih =>
    rw [List.map_cons, List.mem_cons, not_or] at h
    exact (ih (m.insert e.1 e.2) h.2).trans (by rw [get?_insert, if_neg h.1])

private theorem get?_insertAll_of_mem [DecidableEq κ] (m : SortedMap κ ν) {l : List (κ × ν)} {k : κ} {v : ν}
    (hl : (l.map (·.1)).Nodup) (h : (k, v) ∈ l) : (m.insertAll l).get? k = some v := by
  induction l generalizing m with
  | nil => cases h
  | cons e rest ih =>
    obtain ⟨hfirst, hrest⟩ := List.nodup_cons.1 hl
    rcases List.mem_cons.1 h with rfl | h
    · exact (get?_insertAll_of_not_mem (m.insert k v) hfirst).trans (by rw [get?_insert, if_pos rfl])
    · exact ih (m.insert e.1 e.2) hrest h

/-- A map made from a list has no other entries. -/
theorem mem_of_mem_ofList {l : List (κ × ν)} {e : κ × ν} (h : e ∈ (ofList l).entries) : e ∈ l := by
  have hall (l : List (κ × ν)) {m : SortedMap κ ν} (h : e ∈ (m.insertAll l).entries) : e ∈ m.entries ∨ e ∈ l := by
    induction l generalizing m with
    | nil => exact .inl h
    | cons d rest ih =>
      rcases ih (m := m.insert d.1 d.2) h with h | h
      · rcases of_mem_place h with rfl | h
        · exact .inr List.mem_cons_self
        · exact .inl h
      · exact .inr (List.mem_cons_of_mem d h)
  rcases hall l h with h | h
  · cases h
  · exact h

/-- A list without repeated keys holds the entries of its map. -/
theorem mem_entries_ofList [DecidableEq κ] {l : List (κ × ν)} (hl : (l.map (·.1)).Nodup) {e : κ × ν} :
    e ∈ (ofList l).entries ↔ e ∈ l :=
  ⟨mem_of_mem_ofList, fun he => mem_entries_of_get? (get?_insertAll_of_mem ∅ hl he)⟩

/-- In whatever order its entries are gathered, the map is the same. -/
theorem ofList_eq_of_perm [DecidableEq κ] {m : SortedMap κ ν} {l : List (κ × ν)} (h : l.Perm m.entries) :
    ofList l = m := by
  have hkeys : (l.map (·.1)).Nodup := (h.map (·.1)).nodup_iff.2 m.nodup_keys
  apply eq_of_get?_eq
  intro k
  apply Option.ext
  intro v
  rw [← mem_entries_iff, ← mem_entries_iff, mem_entries_ofList hkeys]
  exact h.mem_iff

/-- Gathering the entries of a map again gives the map. -/
theorem ofList_entries [DecidableEq κ] (m : SortedMap κ ν) : ofList m.entries = m := ofList_eq_of_perm (.refl _)

omit [Std.TransOrd κ] [Std.LawfulEqOrd κ] in
private theorem place_map (f : ν → μ) (k : κ) (v : ν) (l : List (κ × ν)) :
    place k (f v) (l.map fun e => (e.1, f e.2)) = (place k v l).map fun e => (e.1, f e.2) := by
  induction l with
  | nil => rfl
  | cons e rest ih =>
    simp only [List.map_cons, place]
    cases compare k e.1 with
    | lt => rfl
    | eq => rfl
    | gt => rw [ih]; rfl

/-- Changing the values of a list changes those of its map. -/
theorem entries_ofList_map (f : ν → μ) (l : List (κ × ν)) :
    (ofList (l.map fun e => (e.1, f e.2))).entries = (ofList l).entries.map fun e => (e.1, f e.2) := by
  have hall {m : SortedMap κ ν} {n : SortedMap κ μ} (h : n.entries = m.entries.map fun e => (e.1, f e.2)) :
      (n.insertAll (l.map fun e => (e.1, f e.2))).entries = (m.insertAll l).entries.map fun e => (e.1, f e.2) := by
    induction l generalizing m n with
    | nil => exact h
    | cons e rest ih =>
      exact ih (m := m.insert e.1 e.2) (n := n.insert e.1 (f e.2))
        ((congrArg (place e.1 (f e.2)) h).trans (place_map f e.1 e.2 m.entries))
  exact hall rfl

/-- A map is gathered from what its entries are written as, when each entry is added to those before it. -/
theorem foldlM_entries {ε β : Type} [DecidableEq κ] {write : κ × ν → β}
    {step : SortedMap κ ν → β → Except ε (SortedMap κ ν)} (m : SortedMap κ ν)
    (h : ∀ acc : SortedMap κ ν, (∀ d ∈ acc.entries, d ∈ m.entries) → ∀ e ∈ m.entries, acc.get? e.1 = none →
      step acc (write e) = .ok (acc.insert e.1 e.2)) :
    (m.entries.map write).foldlM step ∅ = .ok m := by
  have hall (l : List (κ × ν)) (hl : (l.map (·.1)).Nodup) (hm : ∀ e ∈ l, e ∈ m.entries) (acc : SortedMap κ ν)
      (hacc : ∀ d ∈ acc.entries, d ∈ m.entries) (hnew : ∀ e ∈ l, acc.get? e.1 = none) :
      (l.map write).foldlM step acc = .ok (acc.insertAll l) := by
    induction l generalizing acc with
    | nil => rfl
    | cons e rest ih =>
      obtain ⟨hfirst, hrest⟩ := List.nodup_cons.1 hl
      have he := h acc hacc e (hm e (by simp)) (hnew e (by simp))
      rw [List.map_cons, List.foldlM_cons, he]
      refine ih hrest (fun d hd => hm d (List.mem_cons_of_mem e hd)) _ (fun d hd => ?_) (fun d hd => ?_)
      · rcases of_mem_place hd with rfl | hd
        · exact hm (e.1, e.2) (by simp)
        · exact hacc d hd
      · rw [get?_insert, if_neg fun heq => hfirst (List.mem_map.2 ⟨d, hd, heq⟩)]
        exact hnew d (List.mem_cons_of_mem e hd)
  have hwhole := hall m.entries m.nodup_keys (fun _ he => he) ∅ (fun _ hd => nomatch hd) fun _ _ => rfl
  rw [hwhole]
  exact congrArg Except.ok (ofList_entries m)

end SortedMap
end GridSeries
