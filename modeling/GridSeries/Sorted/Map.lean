import GridSeries.Sorted.Set

/-! Finite maps kept as lists of entries with strictly increasing keys. Two maps with the same look-ups are the same
value, and listing a map always lists it in key order. -/
namespace GridSeries

/-- A finite map: its entries, with strictly increasing keys. -/
@[ext]
structure SortedMap (κ ν : Type) [Ord κ] where
  entries : List (κ × ν)
  increasing : entries.Pairwise (fun a b => compare a.1 b.1 = .lt)
deriving DecidableEq, Repr

namespace SortedMap

variable {κ ν : Type} [Ord κ]

def empty : SortedMap κ ν := ⟨[], .nil⟩

instance : EmptyCollection (SortedMap κ ν) := ⟨empty⟩

instance : Inhabited (SortedMap κ ν) := ⟨empty⟩

def size (m : SortedMap κ ν) : Nat := m.entries.length

def isEmpty (m : SortedMap κ ν) : Bool := m.entries.isEmpty

def keys (m : SortedMap κ ν) : SortedSet κ :=
  ⟨m.entries.map (·.1), List.pairwise_map.2 m.increasing⟩

def values (m : SortedMap κ ν) : List ν := m.entries.map (·.2)

def lookup (k : κ) : List (κ × ν) → Option ν
  | [] => none
  | (k', v) :: rest => if compare k k' = .eq then some v else lookup k rest

def get? (m : SortedMap κ ν) (k : κ) : Option ν := lookup k m.entries

def contains (m : SortedMap κ ν) (k : κ) : Bool := (m.get? k).isSome

def getD (m : SortedMap κ ν) (k : κ) (v : ν) : ν := (m.get? k).getD v

/-- Puts an entry at its place, instead of the entry with that key if there is one. -/
def place (k : κ) (v : ν) : List (κ × ν) → List (κ × ν)
  | [] => [(k, v)]
  | (k', v') :: rest =>
    match compare k k' with
    | .lt => (k, v) :: (k', v') :: rest
    | .eq => (k, v) :: rest
    | .gt => (k', v') :: place k v rest

/-- Placing an entry adds no other. -/
theorem of_mem_place {k : κ} {v : ν} {e : κ × ν} {l : List (κ × ν)} (h : e ∈ place k v l) :
    e = (k, v) ∨ e ∈ l := by
  induction l with
  | nil => simpa [place] using h
  | cons hd rest ih =>
    unfold place at h
    split at h
    next => simpa using h
    next => simp only [List.mem_cons] at h ⊢; grind
    next => simp only [List.mem_cons] at h ⊢; grind

/-- Placing an entry keeps the keys in order. -/
theorem place_increasing [Std.TransOrd κ] [Std.LawfulEqOrd κ] (k : κ) (v : ν) {l : List (κ × ν)}
    (h : l.Pairwise (fun a b => compare a.1 b.1 = .lt)) :
    (place k v l).Pairwise (fun a b => compare a.1 b.1 = .lt) := by
  induction l with
  | nil => simp [place]
  | cons hd rest ih =>
    have hb := List.pairwise_cons.1 h
    unfold place
    split
    next hk =>
      refine List.pairwise_cons.2 ⟨fun e he => ?_, h⟩
      rcases List.mem_cons.1 he with rfl | he
      · exact hk
      · exact Std.TransCmp.lt_trans hk (hb.1 e he)
    next hk =>
      have heq : k = hd.1 := Std.LawfulEqOrd.eq_of_compare hk
      exact List.pairwise_cons.2 ⟨fun e he => heq ▸ hb.1 e he, hb.2⟩
    next hk =>
      refine List.pairwise_cons.2 ⟨fun e he => ?_, ih hb.2⟩
      rcases of_mem_place he with rfl | he
      · exact Std.OrientedCmp.lt_of_gt hk
      · exact hb.1 e he

private theorem lookup_place [Std.TransOrd κ] [Std.LawfulEqOrd κ] [DecidableEq κ] (k k' : κ) (v : ν)
    (l : List (κ × ν)) : lookup k' (place k v l) = if k' = k then some v else lookup k' l := by
  have self (a : κ) : compare a a = .eq := Std.ReflCmp.compare_self
  have eqIff (a b : κ) : compare a b = .eq ↔ a = b :=
    ⟨fun h => Std.LawfulEqOrd.eq_of_compare h, fun h => h ▸ self a⟩
  induction l with
  | nil => simp [place, lookup, eqIff]
  | cons hd rest ih =>
    unfold place
    split
    next => simp [lookup, eqIff]
    next hk =>
      have := (eqIff _ _).1 hk
      simp only [lookup, eqIff]
      split <;> simp_all
    next hk =>
      simp only [lookup, eqIff, ih]
      have hne : k ≠ hd.1 := by
        intro h
        rw [h, self] at hk
        cases hk
      grind

section Lawful

variable [Std.TransOrd κ] [Std.LawfulEqOrd κ]

def insert (m : SortedMap κ ν) (k : κ) (v : ν) : SortedMap κ ν :=
  ⟨place k v m.entries, place_increasing k v m.increasing⟩

/-- Inserting an entry changes what is found for its key only. -/
@[simp]
theorem get?_insert [DecidableEq κ] (m : SortedMap κ ν) (k k' : κ) (v : ν) :
    (m.insert k v).get? k' = if k' = k then some v else m.get? k' :=
  lookup_place k k' v m.entries

/-- Adds every entry of a list; of two entries with one key the later stands. -/
def insertAll (m : SortedMap κ ν) (l : List (κ × ν)) : SortedMap κ ν :=
  l.foldl (fun m e => m.insert e.1 e.2) m

def ofList (l : List (κ × ν)) : SortedMap κ ν := (∅ : SortedMap κ ν).insertAll l

end Lawful

@[simp]
theorem get?_empty (k : κ) : (∅ : SortedMap κ ν).get? k = none := rfl

/-- What is found for a key is an entry. -/
theorem mem_entries_of_get? [Std.LawfulEqOrd κ] {m : SortedMap κ ν} {k : κ} {v : ν} (h : m.get? k = some v) :
    (k, v) ∈ m.entries := by
  have (l : List (κ × ν)) (h : lookup k l = some v) : (k, v) ∈ l := by
    induction l with
    | nil => simp [lookup] at h
    | cons hd rest ih =>
      unfold lookup at h
      split at h
      next hk =>
        have hkey : k = hd.1 := Std.LawfulEqOrd.eq_of_compare hk
        have hval : hd.2 = v := Option.some.inj h
        subst hkey hval
        exact List.mem_cons_self
      next => exact List.mem_cons_of_mem _ (ih h)
  exact this m.entries h

/-- Every entry is found by its key. -/
theorem get?_of_mem_entries [Std.TransOrd κ] {m : SortedMap κ ν} {k : κ} {v : ν}
    (h : (k, v) ∈ m.entries) : m.get? k = some v := by
  have (l : List (κ × ν)) (hs : l.Pairwise (fun a b => compare a.1 b.1 = .lt)) (h : (k, v) ∈ l) :
      lookup k l = some v := by
    induction l with
    | nil => simp at h
    | cons hd rest ih =>
      have hb := List.pairwise_cons.1 hs
      unfold lookup
      rcases List.mem_cons.1 h with rfl | hmem
      · simp
      · have hlt := hb.1 _ hmem
        have hne : ¬ compare k hd.1 = .eq := by
          rw [Std.OrientedCmp.gt_of_lt hlt]
          simp
        simp [hne, ih hb.2 hmem]
  exact this m.entries m.increasing h

theorem mem_entries_iff [Std.TransOrd κ] [Std.LawfulEqOrd κ] {m : SortedMap κ ν} {k : κ} {v : ν} :
    (k, v) ∈ m.entries ↔ m.get? k = some v :=
  ⟨get?_of_mem_entries, mem_entries_of_get?⟩

/-- The keys are those for which something is found. -/
theorem mem_keys_iff [Std.TransOrd κ] [Std.LawfulEqOrd κ] {m : SortedMap κ ν} {k : κ} :
    k ∈ m.keys ↔ ∃ v, m.get? k = some v := by
  rw [SortedSet.mem_def, keys, List.mem_map]
  constructor
  · rintro ⟨⟨k', v⟩, hmem, rfl⟩
    exact ⟨v, get?_of_mem_entries hmem⟩
  · rintro ⟨v, h⟩
    exact ⟨(k, v), mem_entries_of_get? h, rfl⟩

/-- Maps are determined by their look-ups. -/
theorem eq_of_get?_eq [Std.TransOrd κ] [Std.LawfulEqOrd κ] {m n : SortedMap κ ν}
    (h : ∀ k, m.get? k = n.get? k) : m = n := by
  apply SortedMap.ext
  have nodup : ∀ u : SortedMap κ ν, u.entries.Nodup := fun u =>
    u.increasing.imp fun hlt heq => by
      subst heq
      rw [show compare _ _ = Ordering.eq from Std.ReflCmp.compare_self] at hlt
      cases hlt
  refine List.Perm.eq_of_pairwise ?_ m.increasing n.increasing ?_
  rotate_left
  · refine (List.perm_ext_iff_of_nodup (nodup m) (nodup n)).2 fun e => ?_
    rw [show e = (e.1, e.2) from rfl, mem_entries_iff, mem_entries_iff, h]
  · intro a b _ _ hab hba
    rw [Std.OrientedCmp.gt_of_lt hab] at hba
    cases hba

end SortedMap
end GridSeries
