import GridSeries.Proofs.Mapping.Integrity

/-! The two directions of a document. The pairs that its forward and reverse sections list are compared as they stand in
the tree, entry by entry, with the pairs of the mapping that is read from it. -/
namespace GridSeries

namespace Json

def at? (name : String) : Json → Option Json
  | object fields => field? name fields
  | _ => none

/-- The items of the array in a field, none when there is no such array. -/
def itemsAt (name : String) (v : Json) : List Json :=
  match v.at? name with
  | some (array items) => items
  | _ => []

def text? : Json → Option String
  | string s => some s
  | _ => none

end Json

namespace Document

section Entries

variable (r : Registry) (e : Json)

/-- The series that an entry of a forward section is about. -/
def seriesIn? : Option String := (e.at? seriesField).bind Json.text?

def keysIn : List Key := (e.itemsAt keysField).filterMap fun k => (Key.ofJson r k).toOption

/-- The key that an entry of a reverse section is about. -/
def keyIn? : Option Key := (e.at? keyField).bind fun k => (Key.ofJson r k).toOption

def seriesListIn : List String := (e.itemsAt seriesListField).filterMap Json.text?

def forwardPairsIn : List (String × Key) := (seriesIn? e).toList.flatMap fun s => (keysIn r e).map fun k => (s, k)

def reversePairsIn : List (String × Key) := (keyIn? r e).toList.flatMap fun k => (seriesListIn e).map fun s => (s, k)

end Entries

/-- The entries of a forward section after which no entry is about the same series. -/
def standing : List Json → List Json
  | [] => []
  | e :: rest => if seriesIn? e ∈ rest.map seriesIn? then standing rest else e :: standing rest

section Pairs

variable (r : Registry) (v : Json) (c : Category)

def forwardEntries : List Json := v.itemsAt (sections c).forward

def reverseEntries : List Json := v.itemsAt (sections c).reverse

/-- The pairs that the forward section of a category lists. -/
def forwardPairs : List (String × Key) := (forwardEntries v c).flatMap (forwardPairsIn r)

/-- Those of them that the last entry of each series lists. -/
def standingPairs : List (String × Key) := (standing (forwardEntries v c)).flatMap (forwardPairsIn r)

/-- The pairs that the reverse section lists. -/
def reversePairs : List (String × Key) := (reverseEntries v c).flatMap (reversePairsIn r)

end Pairs

variable {r : Registry}

private theorem mem_forwardPairsIn {e : Json} {s : String} {k : Key} :
    (s, k) ∈ forwardPairsIn r e ↔ seriesIn? e = some s ∧ k ∈ keysIn r e := by
  simp [forwardPairsIn]

private theorem mem_reversePairsIn {e : Json} {s : String} {k : Key} :
    (s, k) ∈ reversePairsIn r e ↔ keyIn? r e = some k ∧ s ∈ seriesListIn e := by
  simp only [reversePairsIn, List.mem_flatMap, Option.mem_toList, List.mem_map, Prod.mk.injEq]
  constructor
  · rintro ⟨k, hk, s, hs, rfl, rfl⟩
    exact ⟨hk, hs⟩
  · rintro ⟨hk, hs⟩
    exact ⟨k, hk, s, hs, rfl, rfl⟩

private theorem standing_sublist (l : List Json) : (standing l).Sublist l := by
  induction l with
  | nil => exact .slnil
  | cons e rest ih =>
    rw [standing]
    split
    · exact ih.cons e
    · exact ih.cons_cons e

private theorem standing_of_nodup {l : List Json} (h : (l.map seriesIn?).Nodup) : standing l = l := by
  induction l with
  | nil => rfl
  | cons e rest ih =>
    obtain ⟨hfirst, hrest⟩ := List.nodup_cons.1 h
    rw [standing, if_neg hfirst, ih hrest]

private theorem at?_of_entryOf {place first second : String} {e a b : Json}
    (h : entryOf place first second e = .ok (a, b)) :
    e.at? first = some a ∧ e.at? second = some b := by
  unfold entryOf at h
  obtain ⟨fields, hfields, hvalues⟩ := Outcome.bind_eq_ok_iff.1 h
  rw [eq_object_of_fieldsOf hfields]
  split at hvalues
  · cases hvalues
  · split at hvalues
    · cases hvalues
    · cases hvalues
    · rename_i hfirst hsecond
      cases hvalues
      exact ⟨hfirst, hsecond⟩

/-- A text that is required has been found. -/
theorem text?_of_textOf {place : String} {e : Json} {s : String} (h : textOf place e = .ok s) : e.text? = some s := by
  unfold textOf at h
  split at h
  · cases h
    rfl
  · cases h

/-- An entry of a forward section is read as the keys of its series, which stand in place of those it had. -/
private theorem readForwardEntry_eq_ok {place : String} {forward next : SortedMap String (SortedSet Key)} {e : Json}
    (h : readForwardEntry r place forward e = .ok next) :
    ∃ series keys, seriesIn? e = some series ∧ (∀ k, k ∈ keys ↔ k ∈ keysIn r e) ∧
      next = forward.insert series keys := by
  unfold readForwardEntry at h
  obtain ⟨⟨a, b⟩, hentry, h⟩ := Outcome.bind_eq_ok_iff.1 h
  obtain ⟨series, hseries, h⟩ := Outcome.bind_eq_ok_iff.1 h
  obtain ⟨keys, hkeys, h⟩ := Outcome.bind_eq_ok_iff.1 h
  obtain ⟨hfirst, hsecond⟩ := at?_of_entryOf hentry
  refine ⟨series, keys, ?_, fun k => ?_, (Except.ok.inj h).symm⟩
  · rw [seriesIn?, hfirst]
    exact text?_of_textOf hseries
  · unfold keySetOf at hkeys
    obtain ⟨items, hitems, hkeys⟩ := Outcome.bind_eq_ok_iff.1 hkeys
    obtain ⟨list, hlist, hkeys⟩ := Outcome.bind_eq_ok_iff.1 hkeys
    cases hkeys
    have hview : items.filterMap (fun i => (Key.ofJson r i).toOption) = list :=
      Outcome.filterMap_of_mapM (fun i k hk => by rw [hk]; rfl) hlist
    rw [keysIn, Json.itemsAt, hsecond, eq_array_of_itemsOf hitems, SortedSet.mem_ofList, hview]

/-- An entry of a reverse section is read as the series of its key, which had none. -/
theorem readReverseEntry_eq_ok {place : String} {reverse next : SortedMap Key (List String)} {e : Json}
    (h : readReverseEntry r place reverse e = .ok next) :
    ∃ key, keyIn? r e = some key ∧ reverse.get? key = none ∧ next = reverse.insert key (seriesListIn e) := by
  unfold readReverseEntry at h
  obtain ⟨⟨a, b⟩, hentry, h⟩ := Outcome.bind_eq_ok_iff.1 h
  obtain ⟨key, hkey, h⟩ := Outcome.bind_eq_ok_iff.1 h
  obtain ⟨names, hnames, h⟩ := Outcome.bind_eq_ok_iff.1 h
  obtain ⟨hfirst, hsecond⟩ := at?_of_entryOf hentry
  unfold textsOf at hnames
  obtain ⟨items, hitems, hnames⟩ := Outcome.bind_eq_ok_iff.1 hnames
  have hview : items.filterMap Json.text? = names := Outcome.filterMap_of_mapM (fun i s => text?_of_textOf) hnames
  have hlist : seriesListIn e = names := by
    rw [seriesListIn, Json.itemsAt, hsecond, eq_array_of_itemsOf hitems]
    exact hview
  rw [hlist]
  cases hnew : reverse.get? key with
  | none =>
    rw [SortedMap.contains, hnew] at h
    refine ⟨key, ?_, hnew, (Except.ok.inj h).symm⟩
    rw [keyIn?, hfirst, Option.bind_some, hkey]
    rfl
  | some old =>
    rw [SortedMap.contains, hnew] at h
    cases h

/-- Of the entries of a forward section, the last one of a series gives its keys. -/
theorem foldlM_readForwardEntry {place : String} {entries : List Json}
    {before forward : SortedMap String (SortedSet Key)}
    (h : entries.foldlM (readForwardEntry r place) before = .ok forward) (s : String) (k : Key) :
    k ∈ forward.getD s ∅ ↔
      (s, k) ∈ (standing entries).flatMap (forwardPairsIn r) ∨
        ¬ some s ∈ entries.map seriesIn? ∧ k ∈ before.getD s ∅ := by
  induction entries generalizing before with
  | nil =>
    cases h
    simp [standing]
  | cons e rest ih =>
    rw [List.foldlM_cons] at h
    obtain ⟨next, hnext, h⟩ := Outcome.bind_eq_ok_iff.1 h
    obtain ⟨series, keys, hseries, hkeys, rfl⟩ := readForwardEntry_eq_ok hnext
    have hin : (s, k) ∈ forwardPairsIn r e ↔ series = s ∧ k ∈ keys := by
      rw [mem_forwardPairsIn, hseries, Option.some_inj, hkeys]
    rw [ih h, SortedMap.getD, SortedMap.get?_insert, standing, hseries, List.map_cons, hseries, List.mem_cons,
      Option.some_inj]
    by_cases hs : series = s
    · subst hs
      rw [if_pos rfl, Option.getD_some]
      -- the keys of this entry last only if no later entry is about its series
      by_cases hlater : some series ∈ rest.map seriesIn?
      · rw [if_pos hlater]
        simp only [hlater, or_true, not_true_eq_false, false_and]
      · rw [if_neg hlater, List.flatMap_cons, List.mem_append, hin]
        simp [hlater, or_comm]
    · have hother : ¬ (s, k) ∈ forwardPairsIn r e := fun hmem => hs (hin.1 hmem).1
      have hstanding : (s, k) ∈ (if some series ∈ rest.map seriesIn? then standing rest
          else e :: standing rest).flatMap (forwardPairsIn r) ↔
          (s, k) ∈ (standing rest).flatMap (forwardPairsIn r) := by
        split
        · rfl
        · rw [List.flatMap_cons, List.mem_append]
          exact or_iff_right hother
      have hne : ¬ s = series := fun heq => hs heq.symm
      rw [hstanding, if_neg hne, or_iff_right hne]
      rfl

/-- Of a reverse section, every entry gives its key its series, since no key has two entries. -/
theorem foldlM_readReverseEntry {place : String} {entries : List Json} {before reverse : SortedMap Key (List String)}
    (h : entries.foldlM (readReverseEntry r place) before = .ok reverse) (s : String) (k : Key) :
    s ∈ reverse.getD k [] ↔ (s, k) ∈ entries.flatMap (reversePairsIn r) ∨ s ∈ before.getD k [] := by
  induction entries generalizing before with
  | nil =>
    cases h
    simp
  | cons e rest ih =>
    rw [List.foldlM_cons] at h
    obtain ⟨next, hnext, h⟩ := Outcome.bind_eq_ok_iff.1 h
    obtain ⟨key, hkey, hnew, rfl⟩ := readReverseEntry_eq_ok hnext
    rw [ih h, List.flatMap_cons, List.mem_append, mem_reversePairsIn, hkey, Option.some_inj, SortedMap.getD,
      SortedMap.getD, SortedMap.get?_insert]
    by_cases hk : k = key
    · -- the key was new, so nothing is lost in its place
      subst hk
      rw [if_pos rfl, hnew]
      simp [or_comm]
    · have hne : ¬ key = k := fun heq => hk heq.symm
      rw [if_neg hk]
      simp [hne]

private theorem foldlM_of_optional {κ ν : Type} [Ord κ] {fields : List (String × Json)} {name : String}
    {step : SortedMap κ ν → Json → Except Fault (SortedMap κ ν)} {a : SortedMap κ ν}
    (h : (optional fields name ∅ fun v => do (← itemsOf name v).foldlM step ∅) = .ok a) :
    ((Json.object fields).itemsAt name).foldlM step ∅ = .ok a := by
  unfold optional at h
  rw [Json.itemsAt, Json.at?]
  split at h
  · rename_i hnone
    rw [hnone]
    exact h
  · rename_i v hv
    obtain ⟨items, hitems, h⟩ := Outcome.bind_eq_ok_iff.1 h
    rw [hv, eq_array_of_itemsOf hitems]
    exact h

/-- The two directions of a category that is read are the folds of the entries of its two sections. -/
theorem directions_of_readCategory {fields : List (String × Json)} {c : Category} {b : Bindings}
    (h : readCategory r fields c = .ok b) :
    ((Json.object fields).itemsAt (sections c).forward).foldlM (readForwardEntry r (sections c).forward) ∅ =
        .ok b.forward ∧
      ((Json.object fields).itemsAt (sections c).reverse).foldlM (readReverseEntry r (sections c).reverse) ∅ =
        .ok b.reverse := by
  unfold readCategory at h
  obtain ⟨forward, hforward, h⟩ := Outcome.bind_eq_ok_iff.1 h
  obtain ⟨reverse, hreverse, h⟩ := Outcome.bind_eq_ok_iff.1 h
  obtain ⟨declared, _, h⟩ := Outcome.bind_eq_ok_iff.1 h
  obtain ⟨unmapped, _, h⟩ := Outcome.bind_eq_ok_iff.1 h
  obtain ⟨ignored, _, h⟩ := Outcome.bind_eq_ok_iff.1 h
  obtain ⟨disconnected, _, h⟩ := Outcome.bind_eq_ok_iff.1 h
  obtain ⟨outside, _, h⟩ := Outcome.bind_eq_ok_iff.1 h
  cases h
  exact ⟨foldlM_of_optional hforward, foldlM_of_optional hreverse⟩

section Read

variable {v : Json} {m : Mapping} (h : read r v = .ok m) (c : Category) (s : String) (k : Key)
include h

/-- The forward index of a mapping that is read holds the pairs that stand in the forward section. -/
theorem mem_keysFor?_iff : k ∈ ((m.category c).keysFor? s).getD ∅ ↔ (s, k) ∈ standingPairs r v c := by
  obtain ⟨fields, hfields, hholds⟩ := read_eq_ok_iff.1 h
  rw [eq_object_of_fieldsOf hfields]
  have hread := (directions_of_readCategory (readCategory_of_readCategories hholds.categories c)).1
  have hempty : ¬ k ∈ (∅ : SortedMap String (SortedSet Key)).getD s ∅ := SortedSet.not_mem_empty k
  exact (foldlM_readForwardEntry hread s k).trans (or_iff_left fun hbefore => hempty hbefore.2)

/-- The reverse index holds the pairs of the reverse section. -/
theorem mem_seriesFor_iff : s ∈ (m.category c).seriesFor k ↔ (s, k) ∈ reversePairs r v c := by
  obtain ⟨fields, hfields, hholds⟩ := read_eq_ok_iff.1 h
  rw [eq_object_of_fieldsOf hfields]
  have hread := (directions_of_readCategory (readCategory_of_readCategories hholds.categories c)).2
  exact (foldlM_readReverseEntry hread s k).trans (or_iff_left List.not_mem_nil)

/-- What stands in the forward section of an accepted document is what its reverse section lists. -/
theorem mem_standingPairs_iff : (s, k) ∈ standingPairs r v c ↔ (s, k) ∈ reversePairs r v c := by
  obtain ⟨_, _, hholds⟩ := read_eq_ok_iff.1 h
  have hagrees := Mapping.checkIndex_eq_ok_iff.1 hholds.index c
  rw [← mem_keysFor?_iff h, ← mem_seriesFor_iff h]
  exact hagrees.mem_iff s k

end Read

/-- In every accepted document the last forward entries of the series list exactly the pairs of the reverse section,
and these are the pairs of the index. So nothing that the reverse section lists is dropped, and where no series has two
forward entries nothing that the forward section lists is. -/
theorem accepted_directions {v : Json} {m : Mapping} (h : read r v = .ok m) (c : Category) :
    (∀ s k, (s, k) ∈ standingPairs r v c ↔ (s, k) ∈ reversePairs r v c) ∧
      (∀ s k, k ∈ ((m.category c).keysFor? s).getD ∅ ↔ (s, k) ∈ reversePairs r v c) ∧
      (∀ s k, (s, k) ∈ reversePairs r v c → (s, k) ∈ forwardPairs r v c) ∧
      (((forwardEntries v c).map seriesIn?).Nodup → ∀ s k,
        ((s, k) ∈ forwardPairs r v c ↔ (s, k) ∈ reversePairs r v c) ∧
          ((s, k) ∈ forwardPairs r v c → k ∈ ((m.category c).keysFor? s).getD ∅)) := by
  have hstanding (s : String) (k : Key) := mem_standingPairs_iff h c s k
  have hindex (s : String) (k : Key) := mem_keysFor?_iff h c s k
  refine ⟨hstanding, fun s k => (hindex s k).trans (hstanding s k), fun s k hreverse => ?_, fun hnodup s k => ?_⟩
  · obtain ⟨e, he, hpair⟩ := List.mem_flatMap.1 ((hstanding s k).2 hreverse)
    exact List.mem_flatMap.2 ⟨e, (standing_sublist _).subset he, hpair⟩
  · have hall : standingPairs r v c = forwardPairs r v c := by
      rw [standingPairs, standing_of_nodup hnodup, forwardPairs]
    rw [← hall]
    exact ⟨hstanding s k, (hindex s k).2⟩

def forwardOf (series : String) (keys : List Key) : Json :=
  .object [(seriesField, .string series), (keysField, .array (keys.map Key.toJson))]

def reverseOf (key : Key) (series : List String) : Json :=
  .object [(keyField, key.toJson), (seriesListField, .strings series)]

/-- A document with both sections for generators. -/
def generators (forward reverse : List Json) : Json :=
  .object [(versionField, .ofNat DocumentFault.supportedVersion), ((sections .generator).forward, .array forward),
    ((sections .generator).reverse, .array reverse)]

def firstKey : Key := Mapping.generatorKey

def secondKey : Key := { Mapping.generatorKey with id := "G2", id_visible := by decide }

/-- One entry for a series with two keys. -/
def oneEntry : Json :=
  generators [forwardOf "ts" [firstKey, secondKey]] [reverseOf firstKey ["ts"], reverseOf secondKey ["ts"]]

/-- Two entries for the series, of which the reverse section knows the second. -/
def twoEntries : Json := generators [forwardOf "ts" [firstKey], forwardOf "ts" [secondKey]] [reverseOf secondKey ["ts"]]

/-- A series with both keys in one entry has both. -/
theorem oneEntry_keeps_both : ∃ m, read .standard oneEntry = .ok m ∧
    ∀ k ∈ [firstKey, secondKey], k ∈ ((m.category .generator).keysFor? "ts").getD ∅ := by
  obtain ⟨m, hm⟩ : ∃ m, read .standard oneEntry = .ok m := ⟨_, rfl⟩
  obtain ⟨_, _, _, hall⟩ := accepted_directions hm .generator
  refine ⟨m, hm, fun k hk => (hall (by decide +kernel) "ts" k).2 ?_⟩
  revert k
  decide +kernel

/-- The second entry for a series silently replaces the first one, whose pair is in neither index. -/
theorem twoEntries_drops_first :
    ¬ ∀ (r : Registry) (v : Json) (m : Mapping) (c : Category), read r v = .ok m → ∀ s k,
      ((s, k) ∈ forwardPairs r v c ↔ (s, k) ∈ reversePairs r v c) ∧
        ((s, k) ∈ forwardPairs r v c → k ∈ ((m.category c).keysFor? s).getD ∅) := by
  intro hclaim
  obtain ⟨m, hm⟩ : ∃ m, read .standard twoEntries = .ok m := ⟨_, rfl⟩
  have hforward : ("ts", firstKey) ∈ forwardPairs .standard twoEntries .generator := by decide +kernel
  have hreverse : ¬ ("ts", firstKey) ∈ reversePairs .standard twoEntries .generator := by decide +kernel
  exact hreverse ((hclaim _ _ m .generator hm "ts" firstKey).1.1 hforward)

end Document
end GridSeries
