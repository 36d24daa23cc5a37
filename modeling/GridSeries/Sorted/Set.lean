/-! Finite sets kept as strictly increasing lists. Two sets with the same members are the same value, and listing a
set always lists it in order. -/
namespace GridSeries

/-- A finite set: its members, strictly increasing. -/
@[ext]
structure SortedSet (α : Type) [Ord α] where
  toList : List α
  increasing : toList.Pairwise (fun a b => compare a b = .lt)
deriving DecidableEq, Repr

namespace SortedSet

variable {α : Type} [Ord α]

instance : Membership α (SortedSet α) := ⟨fun s a => a ∈ s.toList⟩

theorem mem_def {a : α} {s : SortedSet α} : a ∈ s ↔ a ∈ s.toList := Iff.rfl

instance [DecidableEq α] (a : α) (s : SortedSet α) : Decidable (a ∈ s) :=
  inferInstanceAs (Decidable (a ∈ s.toList))

def empty : SortedSet α := ⟨[], .nil⟩

instance : EmptyCollection (SortedSet α) := ⟨empty⟩

instance : Inhabited (SortedSet α) := ⟨empty⟩

@[simp]
theorem not_mem_empty (a : α) : ¬ a ∈ (∅ : SortedSet α) := List.not_mem_nil

def size (s : SortedSet α) : Nat := s.toList.length

def isEmpty (s : SortedSet α) : Bool := s.toList.isEmpty

/-- Puts an element at its place in an increasing list, unless it is there. -/
def place (a : α) : List α → List α
  | [] => [a]
  | b :: rest =>
    match compare a b with
    | .lt => a :: b :: rest
    | .eq => b :: rest
    | .gt => b :: place a rest

private theorem mem_place [Std.LawfulEqOrd α] {a c : α} {l : List α} : c ∈ place a l ↔ c = a ∨ c ∈ l := by
  induction l with
  | nil => simp [place]
  | cons b rest ih =>
    unfold place
    split
    next => simp
    next h =>
      have hab : a = b := Std.LawfulEqOrd.eq_of_compare h
      simp [hab]
    next => simp only [List.mem_cons, ih]; grind

/-- Placing an element keeps the others in order. -/
theorem place_increasing [Std.TransOrd α] [Std.LawfulEqOrd α] (a : α) {l : List α}
    (h : l.Pairwise (fun a b => compare a b = .lt)) : (place a l).Pairwise (fun a b => compare a b = .lt) := by
  induction l with
  | nil => simp [place]
  | cons b rest ih =>
    have hb := List.pairwise_cons.1 h
    unfold place
    split
    next hab =>
      refine List.pairwise_cons.2 ⟨fun c hc => ?_, h⟩
      rcases List.mem_cons.1 hc with rfl | hc
      · exact hab
      · exact Std.TransCmp.lt_trans hab (hb.1 c hc)
    next => exact h
    next hab =>
      refine List.pairwise_cons.2 ⟨fun c hc => ?_, ih hb.2⟩
      rcases mem_place.1 hc with rfl | hc
      · exact Std.OrientedCmp.lt_of_gt hab
      · exact hb.1 c hc

variable [Std.TransOrd α] [Std.LawfulEqOrd α]

def insert (s : SortedSet α) (a : α) : SortedSet α :=
  ⟨place a s.toList, place_increasing a s.increasing⟩

@[simp]
theorem mem_insert {s : SortedSet α} {a c : α} : c ∈ s.insert a ↔ c = a ∨ c ∈ s := mem_place

def insertAll (s : SortedSet α) (l : List α) : SortedSet α :=
  l.foldl insert s

@[simp]
theorem mem_insertAll {s : SortedSet α} {l : List α} {c : α} : c ∈ s.insertAll l ↔ c ∈ l ∨ c ∈ s := by
  induction l generalizing s with
  | nil => simp [insertAll]
  | cons a l ih =>
    have : c ∈ (s.insert a).insertAll l ↔ c ∈ l ∨ c ∈ s.insert a := ih
    simp only [insertAll, List.foldl_cons] at this ⊢
    simp only [this, mem_insert, List.mem_cons]
    grind

def ofList (l : List α) : SortedSet α := (∅ : SortedSet α).insertAll l

@[simp]
theorem mem_ofList {l : List α} {c : α} : c ∈ ofList l ↔ c ∈ l := by simp [ofList]

def union (s t : SortedSet α) : SortedSet α := s.insertAll t.toList

@[simp]
theorem mem_union {s t : SortedSet α} {c : α} : c ∈ s.union t ↔ c ∈ s ∨ c ∈ t := by
  rw [union, mem_insertAll]
  exact or_comm

omit [Std.TransOrd α] [Std.LawfulEqOrd α] in
def filter (s : SortedSet α) (p : α → Bool) : SortedSet α :=
  ⟨s.toList.filter p, s.increasing.filter p⟩

omit [Std.TransOrd α] [Std.LawfulEqOrd α] in
@[simp]
theorem mem_filter {s : SortedSet α} {p : α → Bool} {c : α} : c ∈ s.filter p ↔ c ∈ s ∧ p c = true :=
  List.mem_filter

omit [Std.TransOrd α] [Std.LawfulEqOrd α] in
def erase [DecidableEq α] (s : SortedSet α) (a : α) : SortedSet α :=
  s.filter (fun b => decide (b ≠ a))

omit [Std.TransOrd α] [Std.LawfulEqOrd α] in
@[simp]
theorem mem_erase [DecidableEq α] {s : SortedSet α} {a c : α} : c ∈ s.erase a ↔ c ∈ s ∧ c ≠ a := by
  simp [erase]

omit [Std.TransOrd α] [Std.LawfulEqOrd α] in
/-- The members of the first set that the second lacks. -/
def diff [DecidableEq α] (s t : SortedSet α) : SortedSet α :=
  s.filter (fun a => decide (¬ a ∈ t))

omit [Std.TransOrd α] [Std.LawfulEqOrd α] in
@[simp]
theorem mem_diff [DecidableEq α] {s t : SortedSet α} {c : α} : c ∈ s.diff t ↔ c ∈ s ∧ ¬ c ∈ t := by
  simp [diff]

omit [Std.LawfulEqOrd α] in
/-- Sets are determined by their members. -/
theorem eq_of_mem_iff {s t : SortedSet α} (h : ∀ a, a ∈ s ↔ a ∈ t) : s = t := by
  apply SortedSet.ext
  have nodup : ∀ u : SortedSet α, u.toList.Nodup := fun u =>
    u.increasing.imp fun hlt heq => by
      subst heq
      rw [show compare _ _ = Ordering.eq from Std.ReflCmp.compare_self] at hlt
      cases hlt
  refine List.Perm.eq_of_pairwise ?_ s.increasing t.increasing ?_
  rotate_left
  · exact (List.perm_ext_iff_of_nodup (nodup s) (nodup t)).2 h
  · intro a b _ _ hab hba
    rw [Std.OrientedCmp.gt_of_lt hab] at hba
    cases hba

end SortedSet
end GridSeries
