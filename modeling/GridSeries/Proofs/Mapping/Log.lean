import GridSeries.Proofs.Mapping.Integrity
import Mathlib.Data.List.Basic

/-! The log of a history: the bindings that its changes make, in order, without those that were refused. In a history
that starts without bindings, the index, the weights and the bound series are all views of the log. -/
namespace GridSeries.Mapping

/-- A binding that was made. -/
structure Binding where
  category : Category
  series : String
  key : Key
  weight : Option Weight
deriving DecidableEq, Repr

/-- The binding that a change makes; none if it asks for none or is refused. -/
def binding? (m : Mapping) (ch : Change) : Option Binding :=
  match ch, (ch.update.apply m).1 with
  | .bind c series k weight, .ok () => some ⟨c, series, k, weight⟩
  | _, _ => none

def log (m : Mapping) : List Change → List Binding
  | [] => []
  | ch :: rest => (m.binding? ch).toList ++ log (m.after ch) rest

private theorem log_append (m : Mapping) (earlier later : List Change) :
    m.log (earlier ++ later) = m.log earlier ++ (m.afterAll earlier).log later := by
  induction earlier generalizing m with
  | nil => rfl
  | cons ch rest ih => simp only [List.cons_append, log, ih, afterAll_cons, List.append_assoc]

private theorem binding?_bind (m : Mapping) (c : Category) (series : String) (k : Key) (w : Option Weight) :
    m.binding? (.bind c series k w) =
      match m.checkBind c series k w with
      | .ok _ => some ⟨c, series, k, w⟩
      | .error _ => none := by
  unfold binding?
  rw [Change.update, apply_bind]
  cases m.checkBind c series k w with
  | ok u => rfl
  | error e => rfl

/-- The series of a key in a category: each once, the first one bound first. -/
def seriesOf (log : List Binding) (c : Category) (k : Key) : List String :=
  ((log.filter fun b => decide (b.category = c ∧ b.key = k)).map (·.series)).eraseDups

/-- The series of the first binding of a key in a category. -/
def firstOf? (log : List Binding) (c : Category) (k : Key) : Option String :=
  (log.find? fun b => decide (b.category = c ∧ b.key = k)).map (·.series)

/-- The keys of a series in a category, repeated as they were bound. -/
def keysOf (log : List Binding) (c : Category) (series : String) : List Key :=
  (log.filter fun b => decide (b.category = c ∧ b.series = series)).map (·.key)

/-- The weight last given to a key, in whatever category. -/
def weightOf? (log : List Binding) (k : Key) : Option Weight :=
  ((log.filter fun b => decide (b.key = k)).filterMap (·.weight)).getLast?

/-- The set of some keys; none if there are none. -/
def keySet? (keys : List Key) : Option (SortedSet Key) := if keys = [] then none else some (.ofList keys)

private theorem mem_seriesOf {log : List Binding} {c : Category} {k : Key} {series : String} :
    series ∈ seriesOf log c k ↔ ∃ b ∈ log, b.category = c ∧ b.key = k ∧ b.series = series := by
  simp [seriesOf, List.mem_eraseDups, and_assoc]

private theorem mem_keysOf {log : List Binding} {c : Category} {k : Key} {series : String} :
    k ∈ keysOf log c series ↔ series ∈ seriesOf log c k := by
  rw [mem_seriesOf]
  simp only [keysOf, List.mem_map, List.mem_filter, decide_eq_true_eq]
  constructor
  · rintro ⟨b, ⟨hb, hc, hs⟩, hk⟩
    exact ⟨b, hb, hc, hk, hs⟩
  · rintro ⟨b, hb, hc, hk, hs⟩
    exact ⟨b, ⟨hb, hc, hs⟩, hk⟩

private theorem head?_seriesOf (log : List Binding) (c : Category) (k : Key) :
    (seriesOf log c k).head? = firstOf? log c k := by
  rw [seriesOf, firstOf?, ← List.head?_filter, ← List.head?_map]
  cases (log.filter fun b => decide (b.category = c ∧ b.key = k)).map (·.series) with
  | nil => rfl
  | cons s rest => rw [List.eraseDups_cons]; rfl

/-- One more name joins the names before it unless it is one of them. -/
private theorem eraseDups_concat (l : List String) (s : String) :
    (l ++ [s]).eraseDups = if s ∈ l.eraseDups then l.eraseDups else l.eraseDups ++ [s] := by
  rw [List.eraseDups_append, List.removeAll]
  by_cases h : s ∈ l
  · simp [h, List.mem_eraseDups]
  · simp [h, List.mem_eraseDups, List.eraseDups_cons]

private theorem seriesOf_concat (log : List Binding) (b : Binding) (c : Category) (k : Key) :
    seriesOf (log ++ [b]) c k =
      if (b.category = c ∧ b.key = k) ∧ ¬ b.series ∈ seriesOf log c k then seriesOf log c k ++ [b.series]
      else seriesOf log c k := by
  by_cases hb : b.category = c ∧ b.key = k
  · have hfilter : ((log ++ [b]).filter fun b => decide (b.category = c ∧ b.key = k)).map (·.series) =
        (log.filter fun b => decide (b.category = c ∧ b.key = k)).map (·.series) ++ [b.series] := by
      simp [List.filter_append, hb]
    rw [seriesOf, hfilter, eraseDups_concat, ← seriesOf]
    by_cases hmem : b.series ∈ seriesOf log c k
    · rw [if_pos hmem, if_neg fun h => h.2 hmem]
    · rw [if_neg hmem, if_pos ⟨hb, hmem⟩]
  · rw [if_neg fun h => hb h.1, seriesOf, List.filter_append]
    simp [hb, seriesOf]

private theorem keysOf_concat (log : List Binding) (b : Binding) (c : Category) (series : String) :
    keysOf (log ++ [b]) c series =
      if b.category = c ∧ b.series = series then keysOf log c series ++ [b.key] else keysOf log c series := by
  by_cases hb : b.category = c ∧ b.series = series
  · simp [keysOf, List.filter_append, hb]
  · simp [keysOf, List.filter_append, hb]

private theorem weightOf?_concat (log : List Binding) (b : Binding) (k : Key) :
    weightOf? (log ++ [b]) k = if b.key = k then b.weight.or (weightOf? log k) else weightOf? log k := by
  by_cases hb : b.key = k
  · rw [weightOf?, List.filter_append, List.filterMap_append, List.getLast?_append]
    cases hw : b.weight <;> simp [hb, hw, weightOf?]
  · simp [weightOf?, List.filter_append, hb]

private theorem keySet?_concat (keys : List Key) (k : Key) :
    keySet? (keys ++ [k]) = some (((keySet? keys).getD ∅).insert k) := by
  have hset : (keySet? keys).getD ∅ = .ofList keys := by
    rw [keySet?]
    split
    · rename_i hnil
      rw [hnil]
      rfl
    · rfl
  rw [hset, keySet?, if_neg (by simp), SortedSet.ofList, SortedSet.insertAll, List.foldl_append]
  rfl

private theorem keySet?_concat_of_mem {keys : List Key} {k : Key} (h : k ∈ keys) :
    keySet? (keys ++ [k]) = keySet? keys := by
  rw [keySet?, keySet?, if_neg (by simp), if_neg (List.ne_nil_of_mem h)]
  refine congrArg some (SortedSet.eq_of_mem_iff fun l => ?_)
  simp only [SortedSet.mem_ofList, List.mem_append, List.mem_singleton]
  exact ⟨fun hl => hl.elim id fun heq => heq ▸ h, .inl⟩

/-- A recorded binding adds its series to its key, unless it was there. -/
theorem seriesFor_linkIn (b : Bindings) (c : Category) (series : String) (k l : Key) :
    (linkIn c series k b).seriesFor l =
      if k = l ∧ ¬ series ∈ b.seriesFor l then b.seriesFor l ++ [series] else b.seriesFor l := by
  have hlink (h : ¬ series ∈ b.seriesFor k) : (b.link series k).seriesFor l =
      if k = l ∧ ¬ series ∈ b.seriesFor l then b.seriesFor l ++ [series] else b.seriesFor l := by
    rw [Bindings.seriesFor_link b series k l h]
    by_cases hl : l = k
    · subst hl
      rw [if_pos rfl, if_pos ⟨rfl, h⟩]
    · rw [if_neg hl, if_neg fun hk => hl hk.1.symm]
  rw [linkIn]
  split
  · rename_i hmem
    rw [if_neg fun hl => hl.2 (hl.1 ▸ hmem)]
  · rename_i hmem
    rw [← hlink hmem]
    cases isPrimaryKey c k <;> rfl

/-- A recorded binding adds its key to its series, unless it was there. -/
theorem keysFor?_linkIn (b : Bindings) (c : Category) (series t : String) (k : Key) :
    (linkIn c series k b).keysFor? t =
      if series = t ∧ ¬ series ∈ b.seriesFor k then some (((b.keysFor? t).getD ∅).insert k) else b.keysFor? t := by
  rw [linkIn]
  split
  · rename_i hmem
    rw [if_neg fun ht => ht.2 hmem]
  · rename_i hmem
    have hlink := Bindings.keysFor?_link b series t k hmem
    have hkept : (if isPrimaryKey c k then { b.link series k with unmapped := (b.link series k).unmapped.erase k.id }
        else b.link series k).keysFor? t = (b.link series k).keysFor? t := by
      cases isPrimaryKey c k <;> rfl
    refine hkept.trans (hlink.trans ?_)
    by_cases ht : t = series
    · subst ht
      rw [if_pos rfl, if_pos ⟨rfl, hmem⟩]
    · rw [if_neg ht, if_neg fun h => ht h.1.symm]

/-- Two mappings with the same bindings: the index, the weights and the bound series. -/
structure SameBindings (m n : Mapping) : Prop where
  forward : ∀ c, (n.category c).forward = (m.category c).forward
  reverse : ∀ c, (n.category c).reverse = (m.category c).reverse
  weights : n.weights = m.weights
  boundSeries : n.boundSeries = m.boundSeries

/-- Every mapping has its own bindings. -/
theorem SameBindings.refl (m : Mapping) : SameBindings m m := ⟨fun _ => rfl, fun _ => rfl, rfl, rfl⟩

/-- The sets of a category are no part of the bindings. -/
theorem SameBindings.sets {m n : Mapping} (h : SameBindings m n) (c : Category) {f : Bindings → Bindings}
    (hf : ∀ b, (f b).forward = b.forward ∧ (f b).reverse = b.reverse) : SameBindings m (n.modifyCategory c f) where
  forward d := by
    rw [category_modifyCategory]
    split
    · exact (hf _).1.trans (h.forward d)
    · exact h.forward d
  reverse d := by
    rw [category_modifyCategory]
    split
    · exact (hf _).2.trans (h.reverse d)
    · exact h.reverse d
  weights := h.weights
  boundSeries := h.boundSeries

/-- A change that makes no binding leaves all bindings as they are. -/
theorem sameBindings_of_binding?_eq_none {m : Mapping} {ch : Change} (h : m.binding? ch = none) :
    SameBindings m (m.after ch) := by
  have sets (c : Category) {f : Bindings → Bindings}
      (hf : ∀ b, (f b).forward = b.forward ∧ (f b).reverse = b.reverse) : SameBindings m (m.modifyCategory c f) :=
    (SameBindings.refl m).sets c hf
  cases ch with
  | bind c series k w =>
    rw [binding?_bind] at h
    rw [after_bind]
    cases hb : m.checkBind c series k w with
    | ok u => simp [hb] at h
    | error e => exact .refl m
  | markUnmapped c id => exact sets c fun b => ⟨rfl, rfl⟩
  | markIgnoredUnmapped c id => exact sets c fun b => ⟨rfl, rfl⟩
  | markDisconnected c id => exact sets c fun b => ⟨rfl, rfl⟩
  | markOutsideMain c id => exact sets c fun b => ⟨rfl, rfl⟩
  | declare c id named => exact after_declare (fun k hn => hn.sets c fun b => ⟨rfl, rfl⟩) (.refl m) id named
  | addFormula name f =>
    rw [after_addFormula]
    split
    · exact .refl m
    · exact ⟨fun _ => rfl, fun _ => rfl, rfl, rfl⟩
  | addOutages series ids => exact ⟨fun _ => rfl, fun _ => rfl, rfl, rfl⟩
  | addIgnoreLimits series => exact ⟨fun _ => rfl, fun _ => rfl, rfl, rfl⟩

/-- A change that makes a binding was found admissible, and records that binding. -/
theorem after_of_binding?_eq_some {m : Mapping} {ch : Change} {b : Binding} (h : m.binding? ch = some b) :
    m.checkBind b.category b.series b.key b.weight = .ok () ∧
      m.after ch = m.bound b.category b.series b.key b.weight := by
  cases ch with
  | bind c series k w =>
    rw [binding?_bind] at h
    rw [after_bind]
    cases hc : m.checkBind c series k w with
    | ok u =>
      rw [hc] at h
      cases h
      exact ⟨hc, rfl⟩
    | error e =>
      rw [hc] at h
      cases h
  | _ => cases h

/-- The bindings of a mapping are what a log says, and nothing else. -/
structure Records (m : Mapping) (log : List Binding) : Prop where
  series : ∀ c k, (m.category c).seriesFor k = seriesOf log c k
  keys : ∀ c series, (m.category c).keysFor? series = keySet? (keysOf log c series)
  boundSeries : m.boundSeries = .ofList (log.map (·.series))
  weights : ∀ k, m.weights.get? k = weightOf? log k

private theorem records_empty : Records .empty [] where
  series c k := by
    rw [category, empty, PerCategory.get_replicate]
    rfl
  keys c series := by
    rw [category, empty, PerCategory.get_replicate]
    rfl
  boundSeries := rfl
  weights _ := rfl

/-- A log is as good for every mapping with the same bindings. -/
theorem Records.congr {m n : Mapping} {log : List Binding} (h : Records m log) (hn : SameBindings m n) :
    Records n log where
  series c k := by
    rw [Bindings.seriesFor, hn.reverse]
    exact h.series c k
  keys c series := by
    rw [Bindings.keysFor?, hn.forward]
    exact h.keys c series
  boundSeries := hn.boundSeries.trans h.boundSeries
  weights k := by
    rw [hn.weights]
    exact h.weights k

/-- A binding that is recorded is one more entry of the log. -/
theorem Records.bound {m : Mapping} {log : List Binding} (h : Records m log) (c : Category) (series : String) (k : Key)
    (w : Option Weight) : Records (m.bound c series k w) (log ++ [⟨c, series, k, w⟩]) where
  series d l := by
    change ((m.modifyCategory c (linkIn c series k)).category d).seriesFor l = _
    rw [category_modifyCategory, seriesOf_concat, ← h.series]
    by_cases hd : d = c
    · simp only [hd, seriesFor_linkIn, true_and, if_true]
    · rw [if_neg hd, if_neg fun hb => hd hb.1.1.symm]
  keys d t := by
    change ((m.modifyCategory c (linkIn c series k)).category d).keysFor? t = _
    rw [category_modifyCategory, keysOf_concat]
    by_cases hd : c = d
    · subst hd
      rw [if_pos rfl, keysFor?_linkIn, h.keys, h.series]
      by_cases ht : series = t
      · subst ht
        -- a pair that is bound once more is logged again and leaves the index as it is
        by_cases hmem : series ∈ seriesOf log c k
        · rw [if_neg fun hnew => hnew.2 hmem, if_pos ⟨rfl, rfl⟩]
          exact (keySet?_concat_of_mem (mem_keysOf.2 hmem)).symm
        · rw [if_pos ⟨rfl, hmem⟩, if_pos ⟨rfl, rfl⟩]
          exact (keySet?_concat _ k).symm
      · rw [if_neg fun hnew => ht hnew.1, if_neg fun hb => ht hb.2]
    · rw [if_neg fun heq => hd heq.symm, if_neg fun hb => hd hb.1]
      exact h.keys d t
  boundSeries := by
    change m.boundSeries.insert series = _
    rw [h.boundSeries, List.map_append, SortedSet.ofList, SortedSet.ofList, SortedSet.insertAll, SortedSet.insertAll,
      List.foldl_append]
    rfl
  weights l := by
    rw [weightOf?_concat, ← h.weights]
    cases w with
    | none =>
      change m.weights.get? l = _
      rw [Option.none_or, ite_self]
    | some w =>
      change (m.weights.insert k w).get? l = _
      rw [SortedMap.get?_insert]
      by_cases hk : l = k
      · rw [if_pos hk, if_pos hk.symm, Option.some_or]
      · rw [if_neg hk, if_neg fun heq => hk heq.symm]

/-- One change adds to the log what it binds, if anything. -/
theorem Records.after {m : Mapping} {log : List Binding} (h : Records m log) (ch : Change) :
    Records (m.after ch) (log ++ (m.binding? ch).toList) := by
  cases hb : m.binding? ch with
  | none =>
    rw [Option.toList_none, List.append_nil]
    exact h.congr (sameBindings_of_binding?_eq_none hb)
  | some b =>
    rw [(after_of_binding?_eq_some hb).2]
    exact h.bound b.category b.series b.key b.weight

/-- A history adds its own log. -/
theorem Records.afterAll {m : Mapping} {log : List Binding} (h : Records m log) (history : List Change) :
    Records (m.afterAll history) (log ++ m.log history) := by
  induction history generalizing m log with
  | nil => simpa [Mapping.log] using h
  | cons ch rest ih =>
    rw [afterAll_cons, Mapping.log, ← List.append_assoc]
    exact ih (h.after ch)

/-- Where a mapping may start that has no bindings yet: from nothing, or from the equipment of a network. -/
inductive Start where
  | empty
  | network (equipment : Category → List (String × Connection))

def Start.mapping : Start → Mapping
  | empty => .empty
  | network equipment => ofEquipment equipment

/-- Wherever it starts, a mapping has the bindings of the empty one. -/
theorem sameBindings_start (start : Start) : SameBindings .empty start.mapping := by
  cases start with
  | empty => exact .refl .empty
  | network equipment => exact ofEquipment_keeps (fun c _ hn hf => hn.sets c hf) (.refl .empty) equipment

private theorem records_start (start : Start) :
    Records start.mapping [] := records_empty.congr (sameBindings_start start)

/-- The bindings after a history are exactly its log. The primary series of a key is that of the first binding, and no
later change replaces it; a key weighs what the last binding that gave a weight says. Whatever makes no binding, refused
or not, leaves the bindings alone. -/
theorem history_is_log (start : Start) (history : List Change) :
    Records (start.mapping.afterAll history) (start.mapping.log history) ∧
    (∀ c k, ((start.mapping.afterAll history).category c).primarySeries? k =
      firstOf? (start.mapping.log history) c k) ∧
    (∀ later c k, ((start.mapping.afterAll (history ++ later)).category c).primarySeries? k =
      (((start.mapping.afterAll history).category c).primarySeries? k).or
        (firstOf? ((start.mapping.afterAll history).log later) c k)) ∧
    (∀ k, (start.mapping.afterAll history).weight k =
      (weightOf? (start.mapping.log history) k).getD .uniform) ∧
    ∀ ch, (start.mapping.afterAll history).binding? ch = none →
      SameBindings (start.mapping.afterAll history) ((start.mapping.afterAll history).after ch) := by
  have hrecords (history : List Change) : Records (start.mapping.afterAll history) (start.mapping.log history) :=
    (records_start start).afterAll history
  have hprimary (history : List Change) (c : Category) (k : Key) :
      ((start.mapping.afterAll history).category c).primarySeries? k = firstOf? (start.mapping.log history) c k := by
    rw [Bindings.primarySeries?, (hrecords history).series, head?_seriesOf]
  refine ⟨hrecords history, hprimary history, fun later c k => ?_, fun k => ?_,
    fun ch hch => sameBindings_of_binding?_eq_none hch⟩
  · rw [hprimary, hprimary, log_append, firstOf?, List.find?_append, Option.map_or]
    rfl
  · rw [weight, SortedMap.getD, (hrecords history).weights]

/-- Two candidates for a key, of which the second is bound once more with another weight; in between, a binding without
a series is refused and a mark is made. -/
def candidates : List Change :=
  [.bind .generator "wind" generatorKey none, .bind .generator "solar" generatorKey (some (.series "area")),
    .bind .generator "" generatorKey (some (.series "other")), .markUnmapped .generator "G1",
    .bind .generator "solar" generatorKey (some (.series "share")), .bind .generator "wind" generatorKey none]

/-- Two series for one generator, the first of which counts, with the last of two weights. -/
theorem candidates_logged :
    ((Mapping.empty.afterAll candidates).category .generator).seriesFor generatorKey = ["wind", "solar"] ∧
      ((Mapping.empty.afterAll candidates).category .generator).primarySeries? generatorKey = some "wind" ∧
      (Mapping.empty.afterAll candidates).weight generatorKey = .series "share" := by
  obtain ⟨hrecords, hprimary, _, hweight, _⟩ := history_is_log .empty candidates
  have hlog : Start.empty.mapping.log candidates =
      [⟨.generator, "wind", generatorKey, none⟩, ⟨.generator, "solar", generatorKey, some (.series "area")⟩,
        ⟨.generator, "solar", generatorKey, some (.series "share")⟩, ⟨.generator, "wind", generatorKey, none⟩] := by
    decide +kernel
  rw [hlog] at hrecords hprimary hweight
  exact ⟨hrecords.series .generator generatorKey, hprimary .generator generatorKey, hweight generatorKey⟩

end GridSeries.Mapping
