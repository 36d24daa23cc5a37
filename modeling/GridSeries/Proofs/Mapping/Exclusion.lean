import GridSeries.Proofs.Mapping.Log
import GridSeries.Proofs.Mapping.Sound

/-! Totals and their parts. Changes never bind a total of a piece of equipment beside one of its parts, nor a quantity
that its category does not take; the check of a mapping that they made can only fail for equipment that was excused from
being bound. -/
namespace GridSeries

namespace Quantity

/-- The first quantity is a part of the second. -/
inductive PartOf : Quantity → Quantity → Prop
  | fixedActivePower : PartOf fixedActivePower p0
  | variableActivePower : PartOf variableActivePower p0
  | fixedReactivePower : PartOf fixedReactivePower q0
  | variableReactivePower : PartOf variableReactivePower q0

/-- The components of a quantity are its parts. -/
theorem mem_components_iff_partOf {q r : Quantity} : r ∈ q.components ↔ r.PartOf q := by
  constructor
  · intro h
    cases q with
    | p0 =>
      rcases List.mem_pair.1 h with rfl | rfl
      · exact .fixedActivePower
      · exact .variableActivePower
    | q0 =>
      rcases List.mem_pair.1 h with rfl | rfl
      · exact .fixedReactivePower
      · exact .variableReactivePower
    | _ => cases h
  · intro h
    cases h <;> decide

private theorem mem_rivals_iff {q r : Quantity} : r ∈ q.rivals ↔ q.PartOf r ∨ r.PartOf q := by
  have htotal : q.aggregate? = some r ↔ q.PartOf r := mem_components_iff.symm.trans mem_components_iff_partOf
  rw [rivals, List.mem_append, Option.mem_toList, htotal, mem_components_iff_partOf]

end Quantity

namespace Key

/-- Two keys of one piece of equipment, one on a total and the other on a part of it. -/
def Rivals (k l : Key) : Prop :=
  k.id = l.id ∧ ∃ q r, k.driven = .builtin q ∧ l.driven = .builtin r ∧ (q.PartOf r ∨ r.PartOf q)

variable {k l : Key} {q : Quantity}

/-- Keys are rivals of each other. -/
theorem Rivals.symm (h : k.Rivals l) : l.Rivals k := by
  obtain ⟨hid, q, r, hk, hl, hparts⟩ := h
  exact ⟨hid.symm, r, q, hl, hk, hparts.symm⟩

private theorem Rivals.irrefl (h : k.Rivals k) : False := by
  obtain ⟨_, q, r, hq, hr, hparts⟩ := h
  cases hq.symm.trans hr
  rcases hparts with hpart | hpart <;> cases hpart

/-- The rivals of a key are those of its quantity, for the same equipment. -/
theorem rivals_iff (hq : k.driven = .builtin q) : k.Rivals l ↔ ∃ r ∈ q.rivals, l = k.withQuantity r := by
  constructor
  · rintro ⟨hid, q', r, hk, hl, hparts⟩
    cases hq.symm.trans hk
    exact ⟨r, Quantity.mem_rivals_iff.2 hparts, Key.eq_of_parts hl hid.symm⟩
  · rintro ⟨r, hr, rfl⟩
    exact ⟨rfl, q, r, hq, rfl, Quantity.mem_rivals_iff.1 hr⟩

end Key

namespace Mapping

variable {m : Mapping} {c d : Category} {b : Bindings} {series : String} {k l : Key} {w : Option Weight}

/-- A key is admitted when none of its rivals is bound. -/
theorem checkRivals_eq_ok_iff :
    m.checkRivals c k = .ok () ↔ ∀ l, k.Rivals l → ¬ (m.category c).isBound l = true := by
  rw [checkRivals]
  cases hq : k.driven with
  | extension family name =>
    refine ⟨fun _ l hrivals => ?_, fun _ => rfl⟩
    obtain ⟨_, q, _, hk, _⟩ := hrivals
    cases hq.symm.trans hk
  | builtin q =>
    have hall : m.boundRival? c k q = none ↔ ∀ l, k.Rivals l → ¬ (m.category c).isBound l = true := by
      simp only [boundRival?, List.find?_eq_none, Key.rivals_iff hq]
      constructor
      · rintro h l ⟨r, hr, rfl⟩
        exact h r hr
      · exact fun h r hr => h _ ⟨r, hr, rfl⟩
    rw [← hall]
    dsimp only [Variable.quantity?]
    cases m.boundRival? c k q with
    | none => simp
    | some r => simp

/-- A key is bound when the reverse index has it. -/
theorem isBound_iff : b.isBound l = true ↔ ∃ names, b.reverse.get? l = some names :=
  Option.isSome_iff_exists

/-- The bound keys are those of the reverse index. -/
theorem mem_boundKeys_iff : l ∈ b.boundKeys ↔ b.isBound l = true :=
  SortedMap.mem_keys_iff.trans isBound_iff.symm

/-- A binding leaves the other keys as they were; its own key has the series among its own. -/
theorem get?_reverse_linkIn (b : Bindings) (c : Category) (series : String) (k l : Key) :
    (linkIn c series k b).reverse.get? l =
      if l = k then some (if series ∈ b.seriesFor k then b.seriesFor k else b.seriesFor k ++ [series])
      else b.reverse.get? l := by
  rw [linkIn]
  split
  · rename_i hmem
    by_cases hl : l = k
    · subst hl
      rw [if_pos rfl]
      exact Bindings.get?_of_mem_seriesFor hmem
    · rw [if_neg hl]
  · rename_i hmem
    rw [← Bindings.get?_reverse_link b series k l hmem]
    cases isPrimaryKey c k <;> rfl

/-- After a binding, its key is bound, and so is what was bound before. -/
theorem isBound_linkIn : (linkIn c series k b).isBound l = true ↔ l = k ∨ b.isBound l = true := by
  rw [isBound_iff, get?_reverse_linkIn]
  by_cases hl : l = k
  · simp [hl]
  · simp [hl, isBound_iff]

/-- The other categories have the keys they had. -/
theorem isBound_bound :
    ((m.bound c series k w).category d).isBound l = true ↔
      (d = c ∧ l = k) ∨ (m.category d).isBound l = true := by
  change ((m.modifyCategory c (linkIn c series k)).category d).isBound l = true ↔ _
  rw [category_modifyCategory]
  by_cases hd : d = c
  · rw [if_pos hd, isBound_linkIn]
    simp [hd]
  · simp [hd]

/-- What the rules of binding make of the bindings of a category: it takes every quantity that is bound, and no total is
bound beside a part of it. -/
structure Coherent (c : Category) (b : Bindings) : Prop where
  fits : ∀ k, b.isBound k = true → k.driven.fits c = true
  apart : ∀ k l, b.isBound k = true → b.isBound l = true → ¬ k.Rivals l

private theorem coherent_empty (c : Category) : Coherent c .empty where
  fits _ hk := by cases hk
  apart _ _ hk := by cases hk

/-- Coherence is a matter of the keys that are bound. -/
theorem Coherent.congr {a : Bindings} (h : Coherent c a) (hr : b.reverse = a.reverse) : Coherent c b := by
  obtain ⟨hfits, hapart⟩ := h
  unfold Bindings.isBound at hfits hapart
  constructor
  · unfold Bindings.isBound
    rwa [hr]
  · unfold Bindings.isBound
    rwa [hr]

/-- A binding that is admitted fits in with those that are there. -/
theorem coherent_bound (h : ∀ d, Coherent d (m.category d)) (hb : m.checkBind c series k w = .ok ()) (d : Category) :
    Coherent d ((m.bound c series k w).category d) := by
  obtain ⟨_, hfits, hrivals, _⟩ := checkBind_eq_ok_iff.1 hb
  rw [checkRivals_eq_ok_iff] at hrivals
  constructor
  · intro l hl
    rcases isBound_bound.1 hl with ⟨rfl, rfl⟩ | hold
    · exact hfits
    · exact (h d).fits l hold
  · intro l l' hl hl' hpair
    rcases isBound_bound.1 hl with ⟨rfl, rfl⟩ | hold
    · rcases isBound_bound.1 hl' with ⟨_, rfl⟩ | hold'
      · exact hpair.irrefl
      · exact hrivals l' hpair hold'
    · rcases isBound_bound.1 hl' with ⟨rfl, rfl⟩ | hold'
      · exact hrivals l hpair.symm hold
      · exact (h d).apart l l' hold hold' hpair

/-- One change keeps all categories coherent, refused or not. -/
theorem coherent_after (h : ∀ c, Coherent c (m.category c)) (ch : Change) (d : Category) :
    Coherent d ((m.after ch).category d) := by
  cases hb : m.binding? ch with
  | none => exact (h d).congr ((sameBindings_of_binding?_eq_none hb).reverse d)
  | some b =>
    obtain ⟨hcheck, hafter⟩ := after_of_binding?_eq_some hb
    rw [hafter]
    exact coherent_bound h hcheck d

/-- So does a history. -/
theorem coherent_afterAll (h : ∀ c, Coherent c (m.category c)) (history : List Change) (d : Category) :
    Coherent d ((m.afterAll history).category d) := by
  induction history generalizing m with
  | nil => exact h d
  | cons ch rest ih => exact ih (coherent_after h ch)

private theorem coherent_start (start : Start) (c : Category) : Coherent c (start.mapping.category c) := by
  refine Coherent.congr ?_ ((sameBindings_start start).reverse c)
  rw [category, empty, PerCategory.get_replicate]
  exact coherent_empty c

private theorem Coherent.contradiction?_eq_none (h : Coherent c b) (k : Key) : b.contradiction? k = none := by
  rw [Bindings.contradiction?, List.findSome?_eq_none_iff]
  intro total _
  split
  · rename_i htotal
    rw [Option.map_eq_none_iff, List.find?_eq_none]
    intro part hpart hbound
    exact h.apart _ _ htotal hbound
      ⟨rfl, total, part, rfl, rfl, .inr (Quantity.mem_components_iff_partOf.1 hpart)⟩
  · rfl

/-- A mapping whose directions agree and whose loads are coherent passes its check, or fails it for equipment that was
excused from being bound. -/
theorem check_of_coherent (hagrees : ∀ c, (m.category c).Agrees) (hload : Coherent .load (m.category .load)) :
    m.check = .ok () ∨ ∃ id series, m.check = .error (.unmappedButBound id series) := by
  have hcontradiction : m.loadContradiction? = none := by
    rw [loadContradiction?, List.findSome?_eq_none_iff]
    intro k _
    rw [hload.contradiction?_eq_none k]
    rfl
  rw [check, checkIndex_eq_ok_iff.2 hagrees, Outcome.ok_bind, checkBound, hcontradiction, Option.none_or]
  cases hfound : Category.all.findSome? m.unmappedContradiction? with
  | none => exact .inl rfl
  | some fault =>
    obtain ⟨c, _, hc⟩ := List.exists_of_findSome?_eq_some hfound
    obtain ⟨e, _, rfl⟩ := Option.map_eq_some_iff.1 hc
    exact .inr ⟨_, _, rfl⟩

/-- Whatever is done to a mapping that starts without bindings: no category ever has a total of a piece of equipment
bound beside one of its parts or a quantity bound that it does not take, and the check never ends in a disagreement of the
two directions or a contradiction. -/
theorem totals_apart_from_parts (start : Start) (history : List Change) :
    (∀ c, Coherent c ((start.mapping.afterAll history).category c)) ∧
      ((start.mapping.afterAll history).check = .ok () ∨
        ∃ id series, (start.mapping.afterAll history).check = .error (.unmappedButBound id series)) := by
  have hcoherent := coherent_afterAll (coherent_start start) history
  have hstart (c : Category) : (start.mapping.category c).Agrees :=
    (invariant_agrees.empty c).congr ((sameBindings_start start).forward c) ((sameBindings_start start).reverse c)
  exact ⟨hcoherent, check_of_coherent (invariant_agrees.afterAll hstart history) (hcoherent .load)⟩

end Mapping
end GridSeries
