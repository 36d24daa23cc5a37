import GridSeries.Mapping.Check
import GridSeries.Proofs.Document.Holds
import GridSeries.Proofs.Mapping.Run

/-! Agreement of the two directions of an index. It is what the integrity check tests, no more and no less, and no run
of changes and documents ever breaks it. -/
namespace GridSeries

namespace Bindings

variable {b : Bindings} {k : Key}

/-- What the reverse index has for a key are its series. -/
theorem seriesFor_of_get? {names : List String} (h : b.reverse.get? k = some names) : b.seriesFor k = names := by
  rw [seriesFor, SortedMap.getD, h]
  rfl

/-- A key with a series is in the reverse index. -/
theorem get?_of_mem_seriesFor {series : String} (h : series ∈ b.seriesFor k) :
    b.reverse.get? k = some (b.seriesFor k) := by
  cases hnames : b.reverse.get? k with
  | none =>
    rw [seriesFor, SortedMap.getD, hnames] at h
    cases h
  | some names => rw [seriesFor_of_get? hnames]

/-- A key is among those a series feeds exactly when the series is among those of the key, and no key is listed
without a series. -/
structure Agrees (b : Bindings) : Prop where
  mem_iff : ∀ series k, k ∈ (b.keysFor? series).getD ∅ ↔ series ∈ b.seriesFor k
  nonempty : ∀ k, b.reverse.get? k ≠ some []

private theorem agrees_empty : empty.Agrees where
  mem_iff _ k := ⟨fun h => absurd h (SortedSet.not_mem_empty k), fun h => absurd h List.not_mem_nil⟩
  nonempty _ h := by cases h

/-- Agreement is a matter of the two directions alone. -/
theorem Agrees.congr {a b : Bindings} (h : a.Agrees) (hf : b.forward = a.forward) (hr : b.reverse = a.reverse) :
    b.Agrees := by
  obtain ⟨hm, hn⟩ := h
  unfold keysFor? seriesFor at hm
  constructor
  · unfold keysFor? seriesFor
    rw [hf, hr]
    exact hm
  · rw [hr]
    exact hn

/-- A link adds its key to those of its series, and to no other. -/
theorem keysFor?_link (b : Bindings) (series t : String) (k : Key) (h : ¬ series ∈ b.seriesFor k) :
    (b.link series k).keysFor? t =
      if t = series then some (((b.keysFor? series).getD ∅).insert k) else b.keysFor? t := by
  rw [link, if_neg h]
  exact SortedMap.get?_insert ..

/-- A link adds its series to the end of those of its key, and to no other. -/
theorem get?_reverse_link (b : Bindings) (series : String) (k l : Key) (h : ¬ series ∈ b.seriesFor k) :
    (b.link series k).reverse.get? l =
      if l = k then some (b.seriesFor k ++ [series]) else b.reverse.get? l := by
  rw [link, if_neg h]
  exact SortedMap.get?_insert ..

/-- The same, read as lists of series. -/
theorem seriesFor_link (b : Bindings) (series : String) (k l : Key) (h : ¬ series ∈ b.seriesFor k) :
    (b.link series k).seriesFor l = if l = k then b.seriesFor k ++ [series] else b.seriesFor l := by
  rw [seriesFor, SortedMap.getD, get?_reverse_link b series k l h]
  split
  · rfl
  · rfl

/-- Linking a pair adds it to both directions and touches no other pair. -/
theorem Agrees.link {b : Bindings} (h : b.Agrees) (series : String) (k : Key) : (b.link series k).Agrees := by
  by_cases hs : series ∈ b.seriesFor k
  · rwa [Bindings.link, if_pos hs]
  · constructor
    · intro t l
      have hbase := h.mem_iff t l
      rw [keysFor?_link b series t k hs, seriesFor_link b series k l hs]
      by_cases ht : t = series <;> by_cases hk : l = k
      · subst ht hk
        simp
      · subst ht
        simp [hk, hbase]
      · subst hk
        simp [ht, hbase]
      · simp [ht, hk, hbase]
    · intro l
      rw [get?_reverse_link b series k l hs]
      by_cases hk : l = k
      · simp [hk]
      · simpa [hk] using h.nonempty l

private theorem reverseFault?_eq_none_iff {c : Category} {b : Bindings} {k : Key} {series : List String} :
    reverseFault? c b k series = none ↔ series ≠ [] ∧ ∀ s ∈ series, k ∈ (b.keysFor? s).getD ∅ := by
  rw [reverseFault?]
  cases series with
  | nil => simp
  | cons s rest => simp [List.find?_eq_none]

private theorem forwardFault?_eq_none_iff {c : Category} {b : Bindings} {series : String} {keys : SortedSet Key} :
    forwardFault? c b series keys = none ↔ ∀ k ∈ keys, series ∈ b.seriesFor k := by
  simp [forwardFault?, List.find?_eq_none, SortedSet.mem_def]

private theorem indexFault?_eq_none_iff {c : Category} {b : Bindings} : indexFault? c b = none ↔ b.Agrees := by
  simp only [indexFault?, Option.or_eq_none_iff, List.findSome?_eq_none_iff, reverseFault?_eq_none_iff,
    forwardFault?_eq_none_iff]
  constructor
  · rintro ⟨hr, hf⟩
    constructor
    · intro series k
      constructor
      · intro hk
        cases hs : b.keysFor? series with
        | none => rw [hs] at hk; exact absurd hk (SortedSet.not_mem_empty k)
        | some keys =>
          rw [hs] at hk
          exact hf (series, keys) (SortedMap.mem_entries_of_get? hs) k hk
      · intro hs
        exact (hr (k, _) (SortedMap.mem_entries_of_get? (get?_of_mem_seriesFor hs))).2 series hs
    · intro k hk
      exact (hr (k, []) (SortedMap.mem_entries_of_get? hk)).1 rfl
  · intro h
    constructor
    · rintro ⟨k, names⟩ he
      have hk := SortedMap.get?_of_mem_entries he
      refine ⟨fun hn => h.nonempty k (hn ▸ hk), fun s hs => (h.mem_iff s k).2 ?_⟩
      rwa [seriesFor_of_get? hk]
    · rintro ⟨series, keys⟩ he k hk
      have hs := SortedMap.get?_of_mem_entries he
      refine (h.mem_iff series k).1 ?_
      rw [keysFor?, hs]
      exact hk

end Bindings

namespace Mapping

/-- Changing a category leaves the others. -/
@[simp]
theorem category_modifyCategory (m : Mapping) (c d : Category) (f : Bindings → Bindings) :
    (m.modifyCategory c f).category d = if d = c then f (m.category d) else m.category d :=
  PerCategory.get_modify ..

/-- The check of the index passes exactly when the directions of all categories agree. -/
theorem checkIndex_eq_ok_iff {m : Mapping} : m.checkIndex = .ok () ↔ ∀ c, (m.category c).Agrees := by
  have hall : (Category.all.findSome? fun c => (m.category c).indexFault? c) = none ↔
      ∀ c, (m.category c).Agrees := by
    simp only [List.findSome?_eq_none_iff, Bindings.indexFault?_eq_none_iff]
    exact ⟨fun h c => h c (Category.mem_all c), fun h c _ => h c⟩
  rw [← hall]
  rw [checkIndex]
  cases Category.all.findSome? fun c => (m.category c).indexFault? c with
  | none => simp
  | some cause => simp

/-- A binding that is recorded is linked in both directions; what else is recorded lies outside the index. -/
theorem agrees_linkIn {b : Bindings} (h : b.Agrees) (c : Category) (series : String) (k : Key) :
    (linkIn c series k b).Agrees := by
  rw [linkIn]
  split
  · exact h
  · split
    · exact (h.link series k).congr rfl rfl
    · exact h.link series k

/-- The directions agree at every origin, and every step keeps it so. -/
theorem invariant_agrees : Invariant fun m => ∀ c, (m.category c).Agrees where
  empty c := by
    simpa [category, Mapping.empty] using Bindings.agrees_empty
  document h := by
    obtain ⟨fields, hholds⟩ := Document.exists_holds_of_parse h
    exact checkIndex_eq_ok_iff.1 hholds.index
  bound {m c series k w} h _ d := by
    change ((m.modifyCategory c (linkIn c series k)).category d).Agrees
    rw [category_modifyCategory]
    split
    · exact agrees_linkIn (h d) c series k
    · exact h d
  sets {m} c {f} h hf d := by
    rw [category_modifyCategory]
    split
    · exact (h d).congr (hf _).1 (hf _).2
    · exact h d
  formula h _ := h
  outages _ h := h
  ignoreLimits _ h := h

/-- After every run, wherever it starts and whatever was refused on the way, the two directions of every category
agree and the integrity check passes. Of any mapping at all, the check accepts exactly those whose categories agree. -/
theorem run_agrees_and_checkIndex_iff :
    (∀ (o : Origin) (steps : List Step),
      (∀ c, ((o.mapping.run steps).category c).Agrees) ∧ (o.mapping.run steps).checkIndex = .ok ()) ∧
    ∀ m : Mapping, m.checkIndex = .ok () ↔ ∀ c, (m.category c).Agrees := by
  refine ⟨fun o steps => ?_, fun m => checkIndex_eq_ok_iff⟩
  have h := invariant_agrees.run o steps
  exact ⟨h, checkIndex_eq_ok_iff.2 h⟩

end Mapping
end GridSeries
