import GridSeries.Proofs.Mapping.Exclusion
import Mathlib.Data.String.Basic

/-! What the check of the bindings decides. It accepts exactly the mappings in which no load is bound on a total beside
one of its parts and no equipment is excused from being bound, bound, and not counted as unmapped. Of a mapping that it
refuses it names the smallest load of the first kind, or else equipment of the second kind. -/
namespace GridSeries

namespace Bindings

variable {b : Bindings} {k : Key} {q : Quantity}

/-- A piece of equipment is bound on a quantity. -/
def BoundOn (b : Bindings) (id : String) (q : Quantity) : Prop :=
  ∃ k, b.isBound k = true ∧ k.id = id ∧ k.driven = .builtin q

/-- A piece of equipment is bound on a total and on a part of it. -/
def Overlaps (b : Bindings) (id : String) (total part : Quantity) : Prop :=
  part.PartOf total ∧ b.BoundOn id total ∧ b.BoundOn id part

/-- A piece of equipment may stay without a series, has one all the same, and does not count as unmapped. -/
def ExcusedInVain (b : Bindings) (id : String) : Prop :=
  id ∈ b.ignoredUnmapped ∧ ¬ id ∈ b.unmapped ∧ ∃ k, b.isBound k = true ∧ k.id = id

private theorem boundOn_iff : b.BoundOn k.id q ↔ b.isBound (k.withQuantity q) = true := by
  constructor
  · rintro ⟨l, hl, hid, hq⟩
    have heq : l = k.withQuantity q := Key.eq_of_parts hq hid
    exact heq ▸ hl
  · intro h
    exact ⟨k.withQuantity q, h, rfl, rfl⟩

private theorem overlaps_of_contradiction? {total part : Quantity} (h : b.contradiction? k = some (total, part)) :
    b.Overlaps k.id total part := by
  obtain ⟨t, _, ht⟩ := List.exists_of_findSome?_eq_some h
  split at ht
  · rename_i htotal
    obtain ⟨p, hp, heq⟩ := Option.map_eq_some_iff.1 ht
    cases heq
    have hpart : b.isBound (k.withQuantity part) = true := by simpa using List.find?_some hp
    exact ⟨Quantity.mem_components_iff_partOf.1 (List.mem_of_find?_eq_some hp), boundOn_iff.2 htotal,
      boundOn_iff.2 hpart⟩
  · cases ht

/-- Nothing is found for a key when its equipment is bound on no total beside a part. -/
theorem contradiction?_eq_none_iff : b.contradiction? k = none ↔ ∀ total part, ¬ b.Overlaps k.id total part := by
  constructor
  · rintro h total part ⟨hpartOf, htotal, hpart⟩
    have hmem : total ∈ [Quantity.p0, Quantity.q0] := by cases hpartOf <;> decide
    have hnone := List.findSome?_eq_none_iff.1 h total hmem
    rw [if_pos (boundOn_iff.1 htotal), Option.map_eq_none_iff, List.find?_eq_none] at hnone
    exact hnone part (Quantity.mem_components_iff_partOf.2 hpartOf) (boundOn_iff.1 hpart)
  · intro h
    cases hfound : b.contradiction? k with
    | none => rfl
    | some pair => exact absurd (overlaps_of_contradiction? hfound) (h pair.1 pair.2)

end Bindings

private theorem Key.id_le_of_compare {k l : Key} (h : compare k l = .lt) : k.id ≤ l.id := by
  rcases Ordering.then_eq_lt.1 h with hlt | ⟨heq, _⟩
  · exact le_of_lt (compare_lt_iff_lt.1 hlt)
  · exact le_of_eq (Std.LawfulEqOrd.eq_of_compare heq)

private theorem Category.all_ordered : Category.all.Pairwise fun c d => c.index < d.index := by decide

private theorem findSome?_first {α β : Type} {R : α → α → Prop} {l : List α} (hl : l.Pairwise R) {f : α → Option β}
    {b : β} (h : l.findSome? f = some b) : ∃ a ∈ l, f a = some b ∧ ∀ d ∈ l, f d ≠ none → d = a ∨ R a d := by
  obtain ⟨before, a, after, rfl, ha, hbefore⟩ := List.findSome?_eq_some_iff.1 h
  refine ⟨a, by simp, ha, fun d hd hfound => ?_⟩
  rcases List.mem_append.1 hd with hd | hd
  · exact absurd (hbefore d hd) hfound
  · rcases List.mem_cons.1 hd with rfl | hd
    · exact .inl rfl
    · exact .inr ((List.pairwise_cons.1 (List.pairwise_append.1 hl).2.1).1 d hd)

namespace Mapping

variable {m : Mapping}

/-- The answer that a check of the bindings owes to a mapping: it is consistent, or the least load that is bound on a
total and a part is named, or, when there is none, equipment that is excused in vain, of the first category that has
any, with the first series of one of its keys. -/
inductive Verdict (m : Mapping) : Except Fault Unit → Prop
  | consistent (hloads : ∀ id total part, ¬ (m.category .load).Overlaps id total part)
      (hexcused : ∀ c id, ¬ (m.category c).ExcusedInVain id) : Verdict m (.ok ())
  | overlap {id : String} {total part : Quantity} (hoverlap : (m.category .load).Overlaps id total part)
      (hleast : ∀ other t p, (m.category .load).Overlaps other t p → id ≤ other) :
      Verdict m (.error (.contradiction id total.name part.name))
  | excused {c : Category} {k : Key} {series : String}
      (hloads : ∀ id total part, ¬ (m.category .load).Overlaps id total part)
      (hexcused : (m.category c).ExcusedInVain k.id)
      (hfirst : ∀ d, d.index < c.index → ∀ other, ¬ (m.category d).ExcusedInVain other)
      (hseries : (m.category c).primarySeries? k = some series) :
      Verdict m (.error (.unmappedButBound k.id series))

/-- No load is found when none is bound on a total and a part. -/
theorem loadContradiction?_eq_none_iff :
    m.loadContradiction? = none ↔ ∀ id total part, ¬ (m.category .load).Overlaps id total part := by
  simp only [loadContradiction?, List.findSome?_eq_none_iff, Option.map_eq_none_iff,
    Bindings.contradiction?_eq_none_iff]
  constructor
  · rintro h id total part hoverlap
    obtain ⟨k, hk, rfl, _⟩ := hoverlap.2.1
    exact h k (mem_boundKeys_iff.2 hk) total part hoverlap
  · exact fun h k _ => h k.id

/-- The load that is found is the least of those that are bound on a total and a part. -/
theorem of_loadContradiction?_eq_some {fault : Fault} (h : m.loadContradiction? = some fault) :
    ∃ id total part, fault = .contradiction id total.name part.name ∧
      (m.category .load).Overlaps id total part ∧
      ∀ other t p, (m.category .load).Overlaps other t p → id ≤ other := by
  obtain ⟨k, _, hk, hleast⟩ := findSome?_first (m.category .load).reverse.keys.increasing h
  obtain ⟨⟨total, part⟩, hfound, rfl⟩ := Option.map_eq_some_iff.1 hk
  refine ⟨k.id, total, part, rfl, Bindings.overlaps_of_contradiction? hfound, fun other t p hoverlap => ?_⟩
  obtain ⟨l, hl, rfl, _⟩ := hoverlap.2.1
  have hother : (m.category .load).contradiction? l ≠ none := fun hnone =>
    Bindings.contradiction?_eq_none_iff.1 hnone t p hoverlap
  rcases hleast l (mem_boundKeys_iff.2 hl) (fun hnone => hother (Option.map_eq_none_iff.1 hnone)) with rfl | hlt
  · exact le_refl _
  · exact Key.id_le_of_compare hlt

/-- Nothing is found in a category when none of its equipment is excused in vain. -/
theorem unmappedContradiction?_eq_none_iff {c : Category} :
    m.unmappedContradiction? c = none ↔ ∀ id, ¬ (m.category c).ExcusedInVain id := by
  simp only [unmappedContradiction?, Option.map_eq_none_iff, List.find?_eq_none]
  constructor
  · rintro h id ⟨hignored, hunmapped, k, hk, rfl⟩
    obtain ⟨names, hnames⟩ := isBound_iff.1 hk
    have hnone := h (k, names) (SortedMap.mem_entries_of_get? hnames)
    simp [hignored, hunmapped] at hnone
  · rintro h ⟨k, names⟩ he htest
    have hk : (m.category c).isBound k = true := isBound_iff.2 ⟨names, SortedMap.get?_of_mem_entries he⟩
    have htest : k.id ∈ (m.category c).ignoredUnmapped ∧ ¬ k.id ∈ (m.category c).unmapped := by simpa using htest
    exact h k.id ⟨htest.1, htest.2, k, hk, rfl⟩

/-- What is found in a category whose directions agree is equipment that is excused in vain, and the first series of one
of its keys. -/
theorem of_unmappedContradiction?_eq_some {c : Category} {fault : Fault} (hagrees : (m.category c).Agrees)
    (h : m.unmappedContradiction? c = some fault) :
    ∃ k series, fault = .unmappedButBound k.id series ∧ (m.category c).ExcusedInVain k.id ∧
      (m.category c).primarySeries? k = some series := by
  obtain ⟨⟨k, names⟩, hfound, rfl⟩ := Option.map_eq_some_iff.1 h
  have hget := SortedMap.get?_of_mem_entries (List.mem_of_find?_eq_some hfound)
  have htest : k.id ∈ (m.category c).ignoredUnmapped ∧ ¬ k.id ∈ (m.category c).unmapped := by
    simpa using List.find?_some hfound
  have hseries := Bindings.seriesFor_of_get? hget
  cases names with
  | nil => exact absurd hget (hagrees.nonempty k)
  | cons series rest =>
    refine ⟨k, series, rfl, ⟨htest.1, htest.2, k, isBound_iff.2 ⟨_, hget⟩, rfl⟩, ?_⟩
    rw [Bindings.primarySeries?, hseries]
    rfl

/-- The check gives a mapping whose directions agree the answer that it owes. -/
theorem verdict_checkBound (hagrees : ∀ c, (m.category c).Agrees) : Verdict m m.checkBound := by
  rw [checkBound]
  cases hload : m.loadContradiction? with
  | some fault =>
    obtain ⟨id, total, part, rfl, hoverlap, hleast⟩ := of_loadContradiction?_eq_some hload
    exact .overlap hoverlap hleast
  | none =>
    have hloads := loadContradiction?_eq_none_iff.1 hload
    rw [Option.none_or]
    cases hany : Category.all.findSome? m.unmappedContradiction? with
    | none =>
      refine .consistent hloads fun c => ?_
      exact unmappedContradiction?_eq_none_iff.1 (List.findSome?_eq_none_iff.1 hany c (Category.mem_all c))
    | some fault =>
      obtain ⟨c, _, hc, hfirst⟩ := findSome?_first Category.all_ordered hany
      obtain ⟨k, series, rfl, hexcused, hseries⟩ := of_unmappedContradiction?_eq_some (hagrees c) hc
      refine .excused hloads hexcused (fun d hd => ?_) hseries
      by_contra hother
      rw [← unmappedContradiction?_eq_none_iff] at hother
      rcases hfirst d (Category.mem_all d) hother with rfl | hlt
      · exact Nat.lt_irrefl _ hd
      · exact Nat.lt_asymm hd hlt

/-- From wherever a run starts, whatever is done and whatever documents are read, the check accepts exactly the mappings
in which no load is bound on a total and a part of it and no equipment is excused in vain, and of every other mapping it
names what it owes. -/
theorem checkBound_decides (o : Origin) (steps : List Step) :
    ((o.mapping.run steps).checkBound = .ok () ↔
      (∀ id total part, ¬ ((o.mapping.run steps).category .load).Overlaps id total part) ∧
        ∀ c id, ¬ ((o.mapping.run steps).category c).ExcusedInVain id) ∧
      Verdict (o.mapping.run steps) (o.mapping.run steps).checkBound := by
  have hverdict := verdict_checkBound (invariant_agrees.run o steps)
  refine ⟨⟨fun hok => ?_, fun ⟨hloads, hexcused⟩ => ?_⟩, hverdict⟩
  · rw [hok] at hverdict
    cases hverdict with
    | consistent hloads hexcused => exact ⟨hloads, hexcused⟩
  · cases hanswer : (o.mapping.run steps).checkBound with
    | ok u => rfl
    | error fault =>
      rw [hanswer] at hverdict
      cases hverdict with
      | overlap hoverlap _ => exact absurd hoverlap (hloads _ _ _)
      | excused _ hin _ _ => exact absurd hin (hexcused _ _)

end Mapping
end GridSeries
