import GridSeries.Proofs.Mapping.Exclusion
import GridSeries.Proofs.Sorted

/-! The order of bindings. Two of them on different keys can change places, so a run of bindings may be made in any order
that keeps those of each key in theirs. -/
namespace GridSeries

/-- Changes of different entries, and changes of one entry that commute, can be made in either order. -/
private theorem PerCategory.modify_comm {α : Type} (t : PerCategory α) {c d : Category} {f g : α → α}
    (h : c = d → ∀ a, f (g a) = g (f a)) : (t.modify c f).modify d g = (t.modify d g).modify c f := by
  apply PerCategory.eq_of_get_eq
  intro i
  simp only [PerCategory.get_modify]
  by_cases hc : i = c
  · by_cases hd : i = d
    · rw [if_pos hc, if_pos hd, if_pos hd, if_pos hc]
      exact (h (hc.symm.trans hd) _).symm
    · rw [if_neg hd, if_pos hc, if_pos hc, if_neg hd]
  · rw [if_neg hc, if_neg hc]

/-- Bindings are determined by the keys of each series, the series of each key, and their sets. -/
private theorem Bindings.eq_of_views {a b : Bindings} (hforward : ∀ series, a.keysFor? series = b.keysFor? series)
    (hreverse : ∀ k, a.reverse.get? k = b.reverse.get? k) (hunmapped : a.unmapped = b.unmapped)
    (hsets : a.declared = b.declared ∧ a.ignoredUnmapped = b.ignoredUnmapped ∧ a.disconnected = b.disconnected ∧
      a.outsideMain = b.outsideMain) : a = b := by
  obtain ⟨hdeclared, hignored, hdisconnected, houtside⟩ := hsets
  rw [Bindings.mk.injEq]
  exact ⟨SortedMap.eq_of_get?_eq hforward, SortedMap.eq_of_get?_eq hreverse, hdeclared, hunmapped, hignored,
    hdisconnected, houtside⟩

namespace Mapping

def Binding.make (b : Binding) : Update Mapping Unit := Mapping.bind b.category b.series b.key b.weight

/-- Makes bindings one after the other; one that is refused ends it. -/
def makeAll (bindings : List Binding) : Update Mapping Unit := bindings.forM Binding.make

/-- The mapping admits a binding. -/
def Admits (m : Mapping) (b : Binding) : Prop := m.checkBind b.category b.series b.key b.weight = .ok ()

def recording (m : Mapping) (b : Binding) : Mapping := m.bound b.category b.series b.key b.weight

variable {m n : Mapping} {a b : Binding} {rest : List Binding}

/-- All bindings of a list are made when the first is admitted and all others are made after it. -/
private theorem makeAll_cons_iff :
    (makeAll (b :: rest)).apply m = (.ok (), n) ↔ m.Admits b ∧ (makeAll rest).apply (m.recording b) = (.ok (), n) := by
  change (b.make >>= fun _ => makeAll rest).apply m = _ ↔ _
  rw [Update.apply_bind, Binding.make, apply_bind, Admits]
  cases m.checkBind b.category b.series b.key b.weight with
  | ok u => simp [recording]
  | error fault => simp

/-- A new binding on a primary quantity takes its equipment off those without a series. -/
theorem unmapped_linkIn (x : Bindings) (c : Category) (series : String) (k : Key) :
    (linkIn c series k x).unmapped =
      if ¬ series ∈ x.seriesFor k ∧ isPrimaryKey c k = true then x.unmapped.erase k.id else x.unmapped := by
  rw [linkIn]
  split
  · rename_i hmem
    rw [if_neg fun h => h.1 hmem]
  · rename_i hmem
    have hlink : (x.link series k).unmapped = x.unmapped := by rw [Bindings.link, if_neg hmem]
    cases hprimary : isPrimaryKey c k with
    | true => rw [if_pos rfl, if_pos ⟨hmem, rfl⟩, hlink]
    | false => simp [hlink]

/-- The other sets stay as they are. -/
theorem sets_linkIn (x : Bindings) (c : Category) (series : String) (k : Key) :
    (linkIn c series k x).declared = x.declared ∧ (linkIn c series k x).ignoredUnmapped = x.ignoredUnmapped ∧
      (linkIn c series k x).disconnected = x.disconnected ∧ (linkIn c series k x).outsideMain = x.outsideMain := by
  unfold linkIn Bindings.link
  split
  · exact ⟨rfl, rfl, rfl, rfl⟩
  · cases isPrimaryKey c k <;> exact ⟨rfl, rfl, rfl, rfl⟩

/-- Bindings on different keys of a category can be recorded in either order: neither changes whether the other is new. -/
theorem linkIn_comm (c : Category) (s t : String) {k l : Key} (h : k ≠ l) (x : Bindings) :
    linkIn c s k (linkIn c t l x) = linkIn c t l (linkIn c s k x) := by
  have hk : (linkIn c t l x).seriesFor k = x.seriesFor k := by
    rw [seriesFor_linkIn, if_neg fun heq => h heq.1.symm]
  have hl : (linkIn c s k x).seriesFor l = x.seriesFor l := by
    rw [seriesFor_linkIn, if_neg fun heq => h heq.1]
  have hforward (u : String) : (linkIn c s k (linkIn c t l x)).keysFor? u =
      (linkIn c t l (linkIn c s k x)).keysFor? u := by
    simp only [keysFor?_linkIn, hk, hl]
    by_cases hs : s = u ∧ ¬ s ∈ x.seriesFor k
    · by_cases ht : t = u ∧ ¬ t ∈ x.seriesFor l
      · simp only [if_pos hs, if_pos ht, Option.getD_some, SortedSet.insert_comm _ l k]
      · simp only [if_pos hs, if_neg ht]
    · simp only [if_neg hs]
  have hreverse (i : Key) : (linkIn c s k (linkIn c t l x)).reverse.get? i =
      (linkIn c t l (linkIn c s k x)).reverse.get? i := by
    simp only [get?_reverse_linkIn, hk, hl]
    by_cases hi : i = k
    · have hne : ¬ i = l := fun heq => h (hi.symm.trans heq)
      simp only [if_pos hi, if_neg hne]
    · simp only [if_neg hi]
  have hunmapped : (linkIn c s k (linkIn c t l x)).unmapped = (linkIn c t l (linkIn c s k x)).unmapped := by
    simp only [unmapped_linkIn, hk, hl]
    by_cases hs : ¬ s ∈ x.seriesFor k ∧ isPrimaryKey c k = true
    · by_cases ht : ¬ t ∈ x.seriesFor l ∧ isPrimaryKey c l = true
      · simp only [if_pos hs, if_pos ht, SortedSet.erase_comm _ l.id k.id]
      · simp only [if_pos hs, if_neg ht]
    · simp only [if_neg hs]
  exact Bindings.eq_of_views hforward hreverse hunmapped (by simp only [sets_linkIn, and_self])

/-- Bindings on different keys can be recorded in either order. -/
theorem recording_comm (h : a.key ≠ b.key) : (m.recording a).recording b = (m.recording b).recording a := by
  have hcategories : (m.categories.modify a.category (linkIn a.category a.series a.key)).modify b.category
        (linkIn b.category b.series b.key) =
      (m.categories.modify b.category (linkIn b.category b.series b.key)).modify a.category
        (linkIn a.category a.series a.key) := by
    refine PerCategory.modify_comm _ fun hc x => ?_
    rw [hc]
    exact linkIn_comm _ _ _ h x
  have hweights : ((m.recording a).recording b).weights = ((m.recording b).recording a).weights := by
    unfold recording bound
    cases a.weight with
    | none => cases b.weight <;> rfl
    | some v =>
      cases b.weight with
      | none => rfl
      | some w => exact SortedMap.insert_comm m.weights h v w
  unfold recording bound at hweights ⊢
  rw [Mapping.mk.injEq]
  exact ⟨hcategories, hweights, rfl, SortedSet.insert_comm _ _ _, rfl, rfl⟩

/-- Two bindings that are admitted one after the other are admitted the other way round as well: what the second must not
stand beside, the first must not either. -/
theorem Admits.swap (ha : m.Admits a) (hb : (m.recording a).Admits b) : m.Admits b ∧ (m.recording b).Admits a := by
  unfold Admits recording at *
  rw [checkBind_eq_ok_iff, checkRivals_eq_ok_iff] at ha hb ⊢
  obtain ⟨hseriesA, hfitsA, hrivalsA, hweightA⟩ := ha
  obtain ⟨hseriesB, hfitsB, hrivalsB, hweightB⟩ := hb
  rw [checkBind_eq_ok_iff, checkRivals_eq_ok_iff]
  refine ⟨⟨hseriesB, hfitsB, fun l hl hbound => ?_, hweightB⟩, hseriesA, hfitsA, fun l hl hbound => ?_, hweightA⟩
  · exact hrivalsB l hl (isBound_bound.2 (.inr hbound))
  · rcases isBound_bound.1 hbound with ⟨hcategory, rfl⟩ | hold
    · exact hrivalsB a.key hl.symm (isBound_bound.2 (.inl ⟨hcategory.symm, rfl⟩))
    · exact hrivalsA l hl hold

/-- Two neighbours on different keys can change places in a run. -/
theorem makeAll_swap (h : a.key ≠ b.key) (hmade : (makeAll (a :: b :: rest)).apply m = (.ok (), n)) :
    (makeAll (b :: a :: rest)).apply m = (.ok (), n) := by
  obtain ⟨ha, hmade⟩ := makeAll_cons_iff.1 hmade
  obtain ⟨hb, hmade⟩ := makeAll_cons_iff.1 hmade
  obtain ⟨hb, ha⟩ := ha.swap hb
  rw [recording_comm h] at hmade
  exact makeAll_cons_iff.2 ⟨hb, makeAll_cons_iff.2 ⟨ha, hmade⟩⟩

/-- A binding can be made after others, none of which is on its key. -/
theorem makeAll_postpone {before : List Binding} (h : ∀ a ∈ before, a.key ≠ b.key)
    (hmade : (makeAll (b :: (before ++ rest))).apply m = (.ok (), n)) :
    (makeAll (before ++ b :: rest)).apply m = (.ok (), n) := by
  induction before generalizing m with
  | nil => exact hmade
  | cons a before ih =>
    have hswapped := makeAll_swap (Ne.symm (h a List.mem_cons_self)) hmade
    obtain ⟨ha, hmade⟩ := makeAll_cons_iff.1 hswapped
    exact makeAll_cons_iff.2 ⟨ha, ih (fun d hd => h d (List.mem_cons_of_mem a hd)) hmade⟩

/-- The same bindings in another order, in which those on each key stand as they did. -/
structure Reorders (bindings other : List Binding) : Prop where
  perm : other.Perm bindings
  sameKey : ∀ k, (other.filter fun b => decide (b.key = k)) = bindings.filter fun b => decide (b.key = k)

/-- Only the keys that are bound matter. -/
theorem reorders_iff {bindings other : List Binding} :
    Reorders bindings other ↔ other.Perm bindings ∧ ∀ a ∈ bindings,
      (other.filter fun b => decide (b.key = a.key)) = bindings.filter fun b => decide (b.key = a.key) := by
  refine ⟨fun h => ⟨h.perm, fun a _ => h.sameKey a.key⟩, fun ⟨hperm, hkeys⟩ => ⟨hperm, fun k => ?_⟩⟩
  by_cases hk : ∃ a ∈ bindings, a.key = k
  · obtain ⟨a, ha, rfl⟩ := hk
    exact hkeys a ha
  · have hnone : ∀ a ∈ bindings, ¬ decide (a.key = k) = true := fun a ha h => hk ⟨a, ha, of_decide_eq_true h⟩
    rw [List.filter_eq_nil_iff.2 hnone, List.filter_eq_nil_iff.2 fun a ha => hnone a (hperm.mem_iff.1 ha)]

instance (bindings other : List Binding) : Decidable (Reorders bindings other) := decidable_of_iff _ reorders_iff.symm

/-- The first binding of one order is the first on its key in the other, and without it the rest is reordered. -/
theorem Reorders.exists_append {other : List Binding} (h : Reorders (b :: rest) other) :
    ∃ before after, other = before ++ b :: after ∧ (∀ a ∈ before, a.key ≠ b.key) ∧
      Reorders rest (before ++ after) := by
  have hfirst := h.sameKey b.key
  rw [List.filter_cons_of_pos (by simp), List.filter_eq_cons_iff] at hfirst
  obtain ⟨before, after, rfl, hbefore, _, hafter⟩ := hfirst
  have hbefore : ∀ a ∈ before, a.key ≠ b.key := fun a ha heq => hbefore a ha (decide_eq_true heq)
  refine ⟨before, after, rfl, hbefore, (List.perm_middle.symm.trans h.perm).cons_inv, fun k => ?_⟩
  rw [List.filter_append]
  by_cases hk : b.key = k
  · have hnone : (before.filter fun a => decide (a.key = k)) = [] :=
      List.filter_eq_nil_iff.2 fun a ha heq => hbefore a ha ((of_decide_eq_true heq).trans hk.symm)
    rw [hnone, List.nil_append, ← hk]
    exact hafter
  · have hsame := h.sameKey k
    rwa [List.filter_append, List.filter_cons_of_neg (by simpa using hk), List.filter_cons_of_neg (by simpa using hk)]
      at hsame

/-- Bindings that are all made in one order are all made in every order that keeps those on each key in theirs, and the
mapping they leave is the same. -/
theorem makeAll_of_reorders {bindings other : List Binding} (hmade : (makeAll bindings).apply m = (.ok (), n))
    (horder : Reorders bindings other) : (makeAll other).apply m = (.ok (), n) := by
  induction bindings generalizing m other with
  | nil =>
    rw [horder.perm.eq_nil]
    exact hmade
  | cons b rest ih =>
    obtain ⟨before, after, rfl, hbefore, hrest⟩ := horder.exists_append
    obtain ⟨hb, hmade⟩ := makeAll_cons_iff.1 hmade
    exact makeAll_postpone hbefore (makeAll_cons_iff.2 ⟨hb, ih hmade hrest⟩)

def fixedPart : Key := ⟨.builtin .fixedActivePower, "L1", by decide, rfl⟩

def variablePart : Key := fixedPart.withQuantity .variableActivePower

/-- Two candidates for one part of a load, the second with a weight, around the other part and a generator. -/
def partsOfLoad : List Binding :=
  [⟨.load, "flat", fixedPart, none⟩, ⟨.load, "swing", variablePart, none⟩, ⟨.generator, "flat", generatorKey, none⟩,
    ⟨.load, "spare", fixedPart, some (.series "area")⟩]

/-- The same with the generator first and the other part last. -/
def partsOfLoadSorted : List Binding :=
  [⟨.generator, "flat", generatorKey, none⟩, ⟨.load, "flat", fixedPart, none⟩,
    ⟨.load, "spare", fixedPart, some (.series "area")⟩, ⟨.load, "swing", variablePart, none⟩]

/-- Made in this order, they end in the same mapping. -/
theorem partsOfLoad_sorted :
    (makeAll partsOfLoadSorted).apply .empty = (.ok (), (makeAll partsOfLoad).after .empty) := by
  have hmade : (makeAll partsOfLoad).apply .empty = (.ok (), (makeAll partsOfLoad).after .empty) := by rfl
  exact makeAll_of_reorders hmade (by decide +kernel)

end Mapping
end GridSeries
