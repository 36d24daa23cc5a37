import GridSeries.Proofs.Document.Directions
import GridSeries.Proofs.Json.RoundTrip
import GridSeries.Proofs.Mapping.Exclusion
import GridSeries.Proofs.Sorted
import Mathlib.Data.Set.Card

/-! The counts of a category. They are taken from the reverse direction of the index alone. The count of equipment and
that of keys are what the forward direction has them be, and so is the count of keys with several series, but for keys
for which a document lists one series more than once: it takes the repetition for another series. -/
namespace GridSeries

private theorem encard_of_nodup {α : Type} {l : List α} (h : l.Nodup) : {a | a ∈ l}.encard = l.length := by
  classical
  rw [← List.coe_toFinset, Set.encard_coe_eq_coe_finsetCard, List.toFinset_card_of_nodup h]

/-- A list with several places has two different members, or one member at all of them. -/
private theorem one_lt_length_iff {α : Type} {l : List α} :
    1 < l.length ↔ (∃ a b, a ≠ b ∧ a ∈ l ∧ b ∈ l) ∨ ∃ a n, l = List.replicate (n + 2) a := by
  constructor
  · intro h
    by_cases hpair : ∃ a b, a ≠ b ∧ a ∈ l ∧ b ∈ l
    · exact .inl hpair
    · cases l with
      | nil => cases h
      | cons a rest =>
        have hall : ∀ b ∈ a :: rest, b = a := by
          intro b hb
          by_contra hne
          exact hpair ⟨b, a, hne, hb, List.mem_cons_self⟩
        obtain ⟨n, hn⟩ := Nat.exists_eq_add_of_le' h
        exact .inr ⟨a, n, List.eq_replicate_iff.2 ⟨hn, hall⟩⟩
  · rintro (⟨a, b, hne, ha, hb⟩ | ⟨a, n, rfl⟩)
    · by_contra hshort
      match l with
      | [] => cases ha
      | [c] => exact hne ((List.mem_singleton.1 ha).trans (List.mem_singleton.1 hb).symm)
      | c :: d :: rest => exact hshort (by simp)
    · simp

namespace Bindings

variable {b : Bindings} {k : Key}

/-- The series feeds the key, as the forward direction has it. -/
def Feeds (b : Bindings) (s : String) (k : Key) : Prop := k ∈ (b.keysFor? s).getD ∅

/-- The keys that some series feeds. -/
def fed (b : Bindings) : Set Key := {k | ∃ s, b.Feeds s k}

/-- The keys that two different series feed. -/
def contested (b : Bindings) : Set Key := {k | ∃ s t, s ≠ t ∧ b.Feeds s k ∧ b.Feeds t k}

/-- The keys for which the reverse direction lists one series, and that more than once. -/
def repeated (b : Bindings) : Set Key := {k | ∃ s n, b.seriesFor k = List.replicate (n + 2) s}

private theorem Agrees.mem_fed_iff (h : b.Agrees) : k ∈ b.fed ↔ b.isBound k = true := by
  rw [Mapping.isBound_iff]
  constructor
  · rintro ⟨s, hs⟩
    exact ⟨_, get?_of_mem_seriesFor ((h.mem_iff s k).1 hs)⟩
  · rintro ⟨names, hget⟩
    obtain ⟨s, rest, rfl⟩ := List.exists_cons_of_ne_nil fun hnil => h.nonempty k (hnil ▸ hget)
    refine ⟨s, (h.mem_iff s k).2 ?_⟩
    rw [seriesFor_of_get? hget]
    exact List.mem_cons_self

/-- A key lists several series when it is contested, or when one series is listed for it again. -/
theorem Agrees.one_lt_seriesFor_iff (h : b.Agrees) :
    1 < (b.seriesFor k).length ↔ k ∈ b.contested ∪ b.repeated := by
  have hmem (s : String) : b.Feeds s k ↔ s ∈ b.seriesFor k := h.mem_iff s k
  rw [one_lt_length_iff]
  simp only [contested, repeated, hmem, Set.mem_union, Set.mem_ofPred_eq]

private theorem Agrees.not_repeated_of_contested (h : b.Agrees) : ∀ k ∈ b.contested, k ∉ b.repeated := by
  rintro k ⟨s, t, hne, hs, ht⟩ ⟨u, n, hu⟩
  have hmem (s : String) (hs : b.Feeds s k) : s = u := List.eq_of_mem_replicate (hu ▸ (h.mem_iff s k).1 hs)
  exact hne ((hmem s hs).trans (hmem t ht).symm)

end Bindings

namespace Mapping

variable {m : Mapping} {c : Category}

private theorem encard_mappedCount (h : (m.category c).Agrees) :
    {id | ∃ k ∈ (m.category c).fed, k.id = id}.encard = m.mappedCount c := by
  rw [mappedCount, SortedSet.size, ← encard_of_nodup (SortedSet.nodup_toList _)]
  refine congrArg Set.encard (Set.ext fun id => ?_)
  simp only [Set.mem_ofPred_eq, ← SortedSet.mem_def, SortedSet.mem_ofList, List.mem_map, h.mem_fed_iff,
    mem_boundKeys_iff]

private theorem encard_mappedCountOn (h : (m.category c).Agrees) (v : Variable) :
    {k | k ∈ (m.category c).fed ∧ k.driven = v}.encard =
      ((m.category c).boundKeys.countP fun k => decide (k.driven = v) : Nat) := by
  have hnodup : ((m.category c).boundKeys.filter fun k => decide (k.driven = v)).Nodup :=
    (SortedSet.nodup_toList _).filter _
  rw [List.countP_eq_length_filter, ← encard_of_nodup hnodup]
  refine congrArg Set.encard (Set.ext fun k => ?_)
  simp only [Set.mem_ofPred_eq, List.mem_filter, decide_eq_true_eq, h.mem_fed_iff, mem_boundKeys_iff]

/-- The count of keys with several series counts the contested keys and those with a series listed again. -/
theorem encard_multiMappedCount (h : (m.category c).Agrees) :
    (m.category c).contested.encard + (m.category c).repeated.encard = m.multiMappedCount c := by
  have hnodup : (((m.category c).reverse.entries.filter fun e => decide (1 < e.2.length)).map (·.1)).Nodup :=
    (SortedMap.nodup_keys _).sublist (List.filter_sublist.map _)
  rw [← Set.encard_union_eq (Set.disjoint_left.2 h.not_repeated_of_contested), multiMappedCount,
    List.countP_eq_length_filter, ← List.length_map (·.1), ← encard_of_nodup hnodup]
  refine congrArg Set.encard (Set.ext fun k => ?_)
  rw [← h.one_lt_seriesFor_iff]
  simp only [Set.mem_ofPred_eq, List.mem_map, List.mem_filter, decide_eq_true_eq]
  constructor
  · intro hlong
    obtain ⟨s, hs⟩ := List.exists_mem_of_length_pos (Nat.zero_lt_of_lt hlong)
    exact ⟨(k, _), ⟨SortedMap.mem_entries_of_get? (Bindings.get?_of_mem_seriesFor hs), hlong⟩, rfl⟩
  · rintro ⟨⟨l, names⟩, ⟨he, hlong⟩, rfl⟩
    rwa [Bindings.seriesFor_of_get? (SortedMap.get?_of_mem_entries he)]

/-- A binding leaves a key with one series listed again only if it brings it no other series. -/
private theorem mem_repeated_linkIn {b : Bindings} {series : String} {k l : Key} :
    l ∈ (linkIn c series k b).repeated ↔ l ∈ b.repeated ∧ (k = l → series ∈ b.seriesFor l) := by
  simp only [Bindings.repeated, Set.mem_ofPred_eq, seriesFor_linkIn]
  split
  · rename_i hnew
    refine iff_of_false ?_ fun h => hnew.2 (h.2 hnew.1)
    rintro ⟨s, n, hs⟩
    -- the series before the new one are that series as well, and there is one of them at least
    have hall : ∀ t ∈ b.seriesFor l ++ [series], t = s := fun t ht => List.eq_of_mem_replicate (hs ▸ ht)
    have hlength : 0 < (b.seriesFor l).length := by
      have := congrArg List.length hs
      simp only [List.length_append, List.length_singleton, List.length_replicate] at this
      omega
    obtain ⟨t, ht⟩ := List.exists_mem_of_length_pos hlength
    have heq : t = series := (hall t (by simp [ht])).trans (hall series (by simp)).symm
    exact hnew.2 (heq ▸ ht)
  · rename_i hold
    exact (and_iff_left fun hk => by_contra fun hnew => hold ⟨hk, hnew⟩).symm

/-- What one change does to such a key: the series listed for it stay as they are, unless a binding brings another. -/
theorem mem_repeated_after (m : Mapping) (ch : Change) (c : Category) (k : Key) :
    k ∈ ((m.after ch).category c).repeated ↔
      k ∈ (m.category c).repeated ∧
        ∀ b ∈ m.binding? ch, b.category = c → b.key = k → b.series ∈ (m.category c).seriesFor k := by
  cases hb : m.binding? ch with
  | none =>
    have hreverse := (sameBindings_of_binding?_eq_none hb).reverse c
    simp [Bindings.repeated, Bindings.seriesFor, hreverse]
  | some b =>
    rw [(after_of_binding?_eq_some hb).2]
    change k ∈ ((m.modifyCategory b.category (linkIn b.category b.series b.key)).category c).repeated ↔ _
    rw [category_modifyCategory]
    by_cases hc : c = b.category
    · rw [if_pos hc, mem_repeated_linkIn]
      simp [hc]
    · rw [if_neg hc]
      refine (and_iff_left fun d hd hcategory => ?_).symm
      cases hd
      exact absurd hcategory.symm hc

private theorem seriesFor_after_of_repeated {ch : Change} {k : Key} (h : k ∈ ((m.after ch).category c).repeated) :
    ((m.after ch).category c).seriesFor k = (m.category c).seriesFor k := by
  have hkept := ((mem_repeated_after m ch c k).1 h).2
  cases hb : m.binding? ch with
  | none =>
    have hreverse := (sameBindings_of_binding?_eq_none hb).reverse c
    rw [Bindings.seriesFor, Bindings.seriesFor, hreverse]
  | some b =>
    rw [(after_of_binding?_eq_some hb).2]
    change ((m.modifyCategory b.category (linkIn b.category b.series b.key)).category c).seriesFor k = _
    rw [category_modifyCategory]
    split
    · rename_i hc
      rw [seriesFor_linkIn, if_neg fun hnew => hnew.2 (hkept b hb hc.symm hnew.1)]
    · rfl

/-- A history leaves a key with one series listed again as long as it binds no other series to it. -/
theorem mem_repeated_afterAll (m : Mapping) (history : List Change) (c : Category) (k : Key) :
    k ∈ ((m.afterAll history).category c).repeated ↔
      k ∈ (m.category c).repeated ∧
        ∀ b ∈ m.log history, b.category = c → b.key = k → b.series ∈ (m.category c).seriesFor k := by
  induction history generalizing m with
  | nil => simp [log]
  | cons ch rest ih =>
    rw [afterAll_cons, ih]
    have hsame : k ∈ ((m.after ch).category c).repeated →
        ((∀ b ∈ (m.after ch).log rest, b.category = c → b.key = k →
          b.series ∈ ((m.after ch).category c).seriesFor k) ↔
        ∀ b ∈ (m.after ch).log rest, b.category = c → b.key = k → b.series ∈ (m.category c).seriesFor k) := by
      intro h
      rw [seriesFor_after_of_repeated h]
    rw [and_congr_right hsame, mem_repeated_after, and_assoc, log]
    simp only [List.mem_append, Option.mem_toList, or_imp, forall_and, Option.mem_def]

end Mapping

namespace Document

variable {r : Registry}

/-- A reverse section gives each key the series that its entry lists, and every other key what it had. -/
private theorem get?_foldlM_readReverseEntry {place : String} {entries : List Json}
    {before reverse : SortedMap Key (List String)}
    (h : entries.foldlM (readReverseEntry r place) before = .ok reverse) (k : Key) (names : List String) :
    reverse.get? k = some names ↔
      (∃ e ∈ entries, keyIn? r e = some k ∧ seriesListIn e = names) ∨ before.get? k = some names := by
  induction entries generalizing before with
  | nil =>
    cases h
    simp
  | cons e rest ih =>
    rw [List.foldlM_cons] at h
    obtain ⟨next, hnext, h⟩ := Outcome.bind_eq_ok_iff.1 h
    obtain ⟨key, hkey, hnew, rfl⟩ := readReverseEntry_eq_ok hnext
    rw [ih h, SortedMap.get?_insert, List.exists_mem_cons_iff, hkey, Option.some_inj]
    by_cases hk : k = key
    · subst hk
      simp [hnew, or_comm]
    · have hne : ¬ key = k := fun heq => hk heq.symm
      rw [if_neg hk]
      simp [hne]

/-- The reverse section of the document lists one series for the key, and that more than once. -/
def Repeats (r : Registry) (v : Json) (c : Category) (k : Key) : Prop :=
  ∃ e ∈ reverseEntries v c, keyIn? r e = some k ∧ ∃ s n, seriesListIn e = List.replicate (n + 2) s

private theorem mem_repeated_iff {v : Json} {m : Mapping} (h : read r v = .ok m) (c : Category) (k : Key) :
    k ∈ (m.category c).repeated ↔ Repeats r v c k := by
  obtain ⟨fields, hfields, hholds⟩ := read_eq_ok_iff.1 h
  have hread := (directions_of_readCategory (readCategory_of_readCategories hholds.categories c)).2
  rw [← eq_object_of_fieldsOf hfields] at hread
  have hget (names : List String) : (m.category c).reverse.get? k = some names ↔
      ∃ e ∈ reverseEntries v c, keyIn? r e = some k ∧ seriesListIn e = names :=
    (get?_foldlM_readReverseEntry hread k names).trans (or_iff_left nofun)
  constructor
  · rintro ⟨s, n, hs⟩
    have hlisted : s ∈ (m.category c).seriesFor k := by simp [hs]
    obtain ⟨e, he, hkey, hlist⟩ := (hget _).1 (Bindings.get?_of_mem_seriesFor hlisted)
    exact ⟨e, he, hkey, s, n, hlist.trans hs⟩
  · rintro ⟨e, he, hkey, s, n, hlist⟩
    exact ⟨s, n, Bindings.seriesFor_of_get? ((hget _).2 ⟨e, he, hkey, hlist⟩)⟩

end Document

namespace Mapping

/-- The document that a run starts from lists one series for a key more than once; no other start does. -/
def Origin.Repeats : Origin → Category → Key → Prop
  | document registry text _ _, c, k => ∃ v, Json.read? text = some v ∧ Document.Repeats registry v.normalize c k
  | empty, _, _ => False
  | network _, _, _ => False

private theorem not_mem_repeated_start (start : Start) (c : Category) (k : Key) :
    ¬ k ∈ (start.mapping.category c).repeated := by
  rintro ⟨s, n, hs⟩
  rw [Bindings.seriesFor, (sameBindings_start start).reverse c, category, empty, PerCategory.get_replicate] at hs
  cases hs

private theorem mem_repeated_origin (o : Origin) (c : Category) (k : Key) :
    k ∈ (o.mapping.category c).repeated ↔ o.Repeats c k := by
  cases o with
  | empty => exact iff_of_false (not_mem_repeated_start .empty c k) id
  | network equipment => exact iff_of_false (not_mem_repeated_start (.network equipment) c k) id
  | document registry text m accepted =>
    obtain ⟨v, hv, hread⟩ := Document.parse_eq_ok_iff.1 accepted
    change k ∈ (m.category c).repeated ↔ ∃ v, Json.read? text = some v ∧ Document.Repeats registry v.normalize c k
    simp only [Document.mem_repeated_iff hread, hv, Option.some.injEq, exists_eq_left']

/-- From wherever a run starts and whatever is done in between, the counts of a category are those of the forward
direction: the ids of the keys that are fed, the keys that are fed on a variable that the category takes, and the keys
that two different series feed. Only to the last are added the keys for which the document at the start lists one series
more than once, until a binding brings them another. -/
theorem counts_agree (o : Origin) (history : List Change) (c : Category) :
    {id | ∃ k ∈ ((o.mapping.afterAll history).category c).fed, k.id = id}.encard =
        (o.mapping.afterAll history).mappedCount c ∧
      (∀ v n, (o.mapping.afterAll history).mappedCountOn? c v = some n ↔
        v.fits c = true ∧
          {k | k ∈ ((o.mapping.afterAll history).category c).fed ∧ k.driven = v}.encard = n) ∧
      ((o.mapping.afterAll history).category c).contested.encard +
          ((o.mapping.afterAll history).category c).repeated.encard =
        (o.mapping.afterAll history).multiMappedCount c ∧
      ∀ k, k ∈ ((o.mapping.afterAll history).category c).repeated ↔
        o.Repeats c k ∧
          ∀ b ∈ o.mapping.log history, b.category = c → b.key = k → b.series ∈ (o.mapping.category c).seriesFor k := by
  have hagrees := invariant_agrees.afterAll (invariant_agrees.origin o) history c
  refine ⟨encard_mappedCount hagrees, fun v n => ?_, encard_multiMappedCount hagrees, fun k => ?_⟩
  · rw [encard_mappedCountOn hagrees, Nat.cast_inj, mappedCountOn?]
    cases v.fits c with
    | true => simp
    | false => simp
  · rw [mem_repeated_afterAll, mem_repeated_origin]

/-- A document that lists the one series of its one key twice. -/
def repeating : Json :=
  Document.generators [Document.forwardOf "ts" [generatorKey]] [Document.reverseOf generatorKey ["ts", "ts"]]

def repeatingMapping : Mapping := Mapping.empty.modifyCategory .generator fun b =>
  { b with
    forward := b.forward.insert "ts" (.ofList [generatorKey])
    reverse := b.reverse.insert generatorKey ["ts", "ts"] }

private theorem parse_repeating : Document.parse .standard repeating.compact = .ok repeatingMapping := by
  have htext : Json.read? repeating.compact = some repeating := Json.read?_compact_of_one rfl (by decide +kernel)
  exact Document.parse_eq_ok_iff.2 ⟨_, htext, rfl⟩

private theorem multiMappedCount_repeating : repeatingMapping.multiMappedCount .generator = 1 := by decide +kernel

private theorem encard_contested_repeating : (repeatingMapping.category .generator).contested.encard = 0 := by
  have hsum := encard_multiMappedCount (invariant_agrees.document parse_repeating .generator)
  have hrepeated : 1 ≤ (repeatingMapping.category .generator).repeated.encard :=
    Set.one_le_encard_iff_nonempty.2 ⟨generatorKey, "ts", 0, by decide +kernel⟩
  rw [multiMappedCount_repeating] at hsum
  by_contra hsome
  have htwo := add_le_add (Order.one_le_iff_ne_zero.2 hsome) hrepeated
  rw [hsum] at htwo
  exact absurd (Nat.cast_le.1 (htwo : ((2 : ℕ) : ℕ∞) ≤ ((1 : ℕ) : ℕ∞))) (by decide)

def secondSeries : Change := .bind .generator "other" generatorKey none

/-- The series counts twice for the key. Once another is bound to it, the count is what the forward direction has. -/
theorem repeating_counted :
    (repeatingMapping.category .generator).contested.encard = 0 ∧
      repeatingMapping.multiMappedCount .generator = 1 ∧
      ((repeatingMapping.after secondSeries).category .generator).contested.encard = 1 ∧
      (repeatingMapping.after secondSeries).multiMappedCount .generator = 1 := by
  obtain ⟨_, _, hsum, hrepeated⟩ := counts_agree (.document _ _ _ parse_repeating) [secondSeries] .generator
  have hcount : (repeatingMapping.after secondSeries).multiMappedCount .generator = 1 := by decide +kernel
  have hnone : ((repeatingMapping.after secondSeries).category .generator).repeated = ∅ := by
    refine Set.eq_empty_of_forall_notMem fun k hk => ?_
    obtain ⟨hstart, hbrought⟩ := (hrepeated k).1 hk
    obtain ⟨s, n, hs⟩ := (mem_repeated_origin (.document _ _ _ parse_repeating) .generator k).2 hstart
    have hlisted : (repeatingMapping.category .generator).seriesFor k =
        (if k = generatorKey then some ["ts", "ts"] else none).getD [] :=
      congrArg (Option.getD · []) (SortedMap.get?_insert ∅ generatorKey k ["ts", "ts"])
    by_cases hkey : k = generatorKey
    · subst hkey
      exact absurd (hbrought ⟨.generator, "other", generatorKey, none⟩ (by decide +kernel) rfl rfl) (by decide +kernel)
    · rw [if_neg hkey] at hlisted
      cases hlisted.symm.trans hs
  change ((repeatingMapping.after secondSeries).category .generator).contested.encard +
    ((repeatingMapping.after secondSeries).category .generator).repeated.encard =
      (repeatingMapping.after secondSeries).multiMappedCount .generator at hsum
  rw [hnone, Set.encard_empty, add_zero, hcount] at hsum
  exact ⟨encard_contested_repeating, multiMappedCount_repeating, hsum, hcount⟩

/-- The count of keys with several series is not that of the keys that two series feed. -/
theorem repetition_taken_for_another :
    ¬ ∀ (o : Origin) (history : List Change) (c : Category),
      ((o.mapping.afterAll history).category c).contested.encard = (o.mapping.afterAll history).multiMappedCount c := by
  intro hclaim
  have hcount : (repeatingMapping.category .generator).contested.encard = repeatingMapping.multiMappedCount .generator :=
    hclaim (.document _ _ _ parse_repeating) [] .generator
  rw [encard_contested_repeating, multiMappedCount_repeating] at hcount
  cases Nat.cast_injective (hcount : ((0 : ℕ) : ℕ∞) = ((1 : ℕ) : ℕ∞))

end Mapping
end GridSeries
