import GridSeries.Proofs.Document.Directions
import GridSeries.Proofs.Json.RoundTrip
import GridSeries.Proofs.Mapping.Log

/-! Whether a run reads the series that feed its keys. The bound series are listed beside the index. Every binding lists
its own series, so the list can only fall behind where it was not made by bindings: a document carries the index and the
list apart, and may bind a series that it does not list. -/
namespace GridSeries

namespace Document

/-- The series that a document lists as bound. -/
def listedSeries (v : Json) : List String := (v.itemsAt boundSeriesField).filterMap Json.text?

/-- The document binds a series to a key without listing it. -/
def LeavesOut (r : Registry) (v : Json) (s : String) : Prop :=
  (∃ c k, (s, k) ∈ standingPairs r v c) ∧ ¬ s ∈ listedSeries v

private theorem mem_boundSeries_iff {r : Registry} {v : Json} {m : Mapping} (h : read r v = .ok m) (s : String) :
    s ∈ m.boundSeries ↔ s ∈ listedSeries v := by
  obtain ⟨fields, hfields, hholds⟩ := read_eq_ok_iff.1 h
  have hsection := hholds.boundSeries
  rw [eq_object_of_fieldsOf hfields, listedSeries, Json.itemsAt, Json.at?]
  unfold optional at hsection
  split at hsection
  · rename_i hnone
    rw [hnone, ← Except.ok.inj hsection]
    simp
  · rename_i v hfield
    obtain ⟨texts, htexts, hset⟩ := Outcome.bind_eq_ok_iff.1 hsection
    obtain ⟨items, hitems, htexts⟩ := Outcome.bind_eq_ok_iff.1 htexts
    have hview : items.filterMap Json.text? = texts := Outcome.filterMap_of_mapM (fun i s => text?_of_textOf) htexts
    rw [hfield, eq_array_of_itemsOf hitems, ← Except.ok.inj hset, SortedSet.mem_ofList]
    simp only [hview]

end Document

namespace Mapping

/-- A series feeds a key in some category. -/
def Feeds (m : Mapping) (s : String) : Prop := ∃ c k, k ∈ ((m.category c).keysFor? s).getD ∅

/-- A series feeds a key, and the bound series lack it. -/
def Unlisted (m : Mapping) (s : String) : Prop := m.Feeds s ∧ ¬ s ∈ m.boundSeries

private theorem SameBindings.unlisted_iff {m n : Mapping} (h : SameBindings m n) (s : String) :
    n.Unlisted s ↔ m.Unlisted s := by
  simp only [Unlisted, Feeds, Bindings.keysFor?, h.forward, h.boundSeries]

private theorem feeds_bound_of_ne {m : Mapping} {c : Category} {series s : String} {k : Key} {w : Option Weight}
    (hs : series ≠ s) : (m.bound c series k w).Feeds s ↔ m.Feeds s := by
  have hkept (d : Category) : ((m.bound c series k w).category d).keysFor? s = (m.category d).keysFor? s := by
    change ((m.modifyCategory c (linkIn c series k)).category d).keysFor? s = _
    rw [category_modifyCategory]
    split
    · rw [keysFor?_linkIn, if_neg fun h => hs h.1]
    · rfl
  simp only [Feeds, hkept]

/-- One change leaves a series unlisted unless it binds it, and no change makes one unlisted. -/
theorem unlisted_after (m : Mapping) (ch : Change) (s : String) :
    (m.after ch).Unlisted s ↔ m.Unlisted s ∧ ∀ b ∈ m.binding? ch, b.series ≠ s := by
  cases hb : m.binding? ch with
  | none =>
    rw [(sameBindings_of_binding?_eq_none hb).unlisted_iff]
    simp
  | some b =>
    rw [(after_of_binding?_eq_some hb).2]
    have hlist : s ∈ (m.bound b.category b.series b.key b.weight).boundSeries ↔ s = b.series ∨ s ∈ m.boundSeries :=
      SortedSet.mem_insert
    by_cases hs : b.series = s
    · subst hs
      simp [Unlisted, hlist]
    · simp [Unlisted, hlist, feeds_bound_of_ne hs, hs, Ne.symm hs]

/-- A history leaves a series unlisted as long as it does not bind it. -/
theorem unlisted_afterAll (m : Mapping) (history : List Change) (s : String) :
    (m.afterAll history).Unlisted s ↔ m.Unlisted s ∧ ∀ b ∈ m.log history, b.series ≠ s := by
  induction history generalizing m with
  | nil => simp [log]
  | cons ch rest ih =>
    rw [afterAll_cons, ih, unlisted_after, and_assoc, log]
    simp only [List.mem_append, Option.mem_toList, or_imp, forall_and, Option.mem_def]

/-- The document that a run starts from leaves a series out; nothing else can. -/
def Origin.LeavesOut : Origin → String → Prop
  | document registry text _ _, s => ∃ v, Json.read? text = some v ∧ Document.LeavesOut registry v.normalize s
  | empty, _ => False
  | network _, _ => False

private theorem not_unlisted_empty (s : String) : ¬ Mapping.empty.Unlisted s := by
  rintro ⟨⟨c, k, hk⟩, _⟩
  rw [category, Mapping.empty, PerCategory.get_replicate] at hk
  exact SortedSet.not_mem_empty k hk

private theorem unlisted_origin (o : Origin) (s : String) : o.mapping.Unlisted s ↔ o.LeavesOut s := by
  cases o with
  | empty => exact iff_of_false (not_unlisted_empty s) id
  | network equipment =>
    refine iff_of_false (fun h => not_unlisted_empty s ?_) id
    exact ((sameBindings_start (.network equipment)).unlisted_iff s).1 h
  | document registry text m accepted =>
    obtain ⟨v, hv, hread⟩ := Document.parse_eq_ok_iff.1 accepted
    change m.Unlisted s ↔ ∃ v, Json.read? text = some v ∧ Document.LeavesOut registry v.normalize s
    simp only [Unlisted, Feeds, Document.mem_keysFor?_iff hread, Document.mem_boundSeries_iff hread, hv,
      Option.some.injEq, exists_eq_left', Document.LeavesOut]

private theorem mem_usedNames_iff {m : Mapping} {s : String} :
    s ∈ m.usedNames ↔ s ∈ m.boundSeries ∨ s ∈ m.outages.keys ∨ ∃ k, (m.weight k).seriesName? = some s := by
  have hweights : s ∈ m.weights.values.filterMap Weight.seriesName? ↔ ∃ k, (m.weight k).seriesName? = some s := by
    simp only [SortedMap.values, List.mem_filterMap, List.mem_map, exists_exists_and_eq_and]
    constructor
    · rintro ⟨⟨k, w⟩, he, hw⟩
      refine ⟨k, ?_⟩
      rw [weight, SortedMap.getD, SortedMap.get?_of_mem_entries he]
      exact hw
    · rintro ⟨k, hk⟩
      cases hw : m.weights.get? k with
      | none =>
        rw [weight, SortedMap.getD, hw] at hk
        cases hk
      | some w =>
        rw [weight, SortedMap.getD, hw] at hk
        exact ⟨(k, w), SortedMap.mem_entries_of_get? hw, hk⟩
  rw [usedNames, SortedSet.mem_insertAll, hweights, SortedSet.mem_union, or_comm, or_assoc]

/-- From wherever a run starts and whatever is done in between, a series that feeds a key is read, but for one case: the
document at the start bound it without listing it, no binding since was of that series, and it gives neither outages nor
the weight of a key. -/
theorem fed_series_unread_iff (o : Origin) (history : List Change) (s : String)
    (h : (o.mapping.afterAll history).Feeds s) :
    ¬ s ∈ (o.mapping.afterAll history).usedNames ↔
      (o.LeavesOut s ∧ ∀ b ∈ o.mapping.log history, b.series ≠ s) ∧
        ¬ s ∈ (o.mapping.afterAll history).outages.keys ∧
        ∀ k, ((o.mapping.afterAll history).weight k).seriesName? ≠ some s := by
  have hunlisted : ¬ s ∈ (o.mapping.afterAll history).boundSeries ↔
      o.LeavesOut s ∧ ∀ b ∈ o.mapping.log history, b.series ≠ s := by
    rw [← unlisted_origin, ← unlisted_afterAll]
    exact (and_iff_right h).symm
  rw [mem_usedNames_iff, not_or, not_or, hunlisted, not_exists]

/-- A document that binds a series to a key and lists none. -/
def unlisted : Json :=
  Document.generators [Document.forwardOf "ts" [generatorKey]] [Document.reverseOf generatorKey ["ts"]]

def unlistedMapping : Mapping := Mapping.empty.modifyCategory .generator fun b => b.link "ts" generatorKey

def rebinding : Change := .bind .generator "ts" generatorKey none

/-- The document is accepted; its series feeds a key, before and after it is bound once more, and is not read before. -/
theorem unlisted_accepted : ∃ m, Document.parse .standard unlisted.compact = .ok m ∧ m.Feeds "ts" ∧
    ¬ "ts" ∈ m.usedNames ∧ (m.after rebinding).Feeds "ts" ∧
    m.log [rebinding] = [⟨.generator, "ts", generatorKey, none⟩] := by
  have htext : Json.read? unlisted.compact = some unlisted := Json.read?_compact_of_one rfl (by decide +kernel)
  have hread : Document.read .standard unlisted.normalize = .ok unlistedMapping := rfl
  exact ⟨unlistedMapping, Document.parse_eq_ok_iff.2 ⟨_, htext, hread⟩,
    ⟨.generator, generatorKey, by decide +kernel⟩, by decide +kernel,
    ⟨.generator, generatorKey, by decide +kernel⟩, by decide +kernel⟩

/-- Binding the series once more changes nothing in the index, but lists it, and so it is read. -/
theorem rebound_series_read : ∃ m, Document.parse .standard unlisted.compact = .ok m ∧ ¬ "ts" ∈ m.usedNames ∧
    "ts" ∈ (m.after rebinding).usedNames := by
  obtain ⟨m, hm, _, hunread, hfeeds, hlog⟩ := unlisted_accepted
  refine ⟨m, hm, hunread, by_contra fun hstill => ?_⟩
  obtain ⟨⟨_, hbound⟩, _⟩ := (fed_series_unread_iff (.document .standard _ m hm) [rebinding] "ts" hfeeds).1 hstill
  have hmade : ⟨.generator, "ts", generatorKey, none⟩ ∈ m.log [rebinding] := by simp [hlog]
  exact hbound _ hmade rfl

/-- A document is accepted although it binds a series that it does not list, and the series is not read. -/
theorem unlisted_series_unread :
    ¬ ∀ (o : Origin) (history : List Change) (s : String), (o.mapping.afterAll history).Feeds s →
      s ∈ (o.mapping.afterAll history).usedNames := by
  intro hclaim
  obtain ⟨m, hm, hfeeds, hunread, _⟩ := unlisted_accepted
  exact hunread (hclaim (.document .standard _ m hm) [] "ts" hfeeds)

end Mapping
end GridSeries
