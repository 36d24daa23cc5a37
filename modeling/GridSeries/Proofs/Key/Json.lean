import GridSeries.Proofs.Document.Entries
import GridSeries.Proofs.Variable.Registry

/-! Keys as JSON trees. A registry reads exactly the trees of the keys that it knows: whatever is read is written again
as the tree it was read from, and no tree but that of a key is read. -/
namespace GridSeries
open Json (field?_eq_some_iff)

private theorem Text.isBlank_eq_false_iff {s : String} :
    Text.isBlank s = false ↔ ∃ c ∈ s.toList, Text.isBlankChar c = false := by
  simp [Text.isBlank]

private theorem Variable.isNamed_iff {v : Variable} : v.isNamed = true ↔ v.family ≠ "" ∧ v.name ≠ "" := by
  cases v with
  | builtin q => exact iff_of_true rfl ⟨(by decide : builtinFamily ≠ ""), by cases q <;> decide⟩
  | extension family name => simp [isNamed, Variable.family, Variable.name]

private theorem SortedMap.entries_eq_pair {m : SortedMap String Json} {first second : String} {a b : Json}
    (h : compare first second = .lt) (hnames : ∀ f ∈ m.entries, f.1 = first ∨ f.1 = second)
    (hfirst : Json.field? first m.entries = some a) (hsecond : Json.field? second m.entries = some b) :
    m.entries = [(first, a), (second, b)] := by
  have hfield {name : String} {v : Json} : Json.field? name m.entries = some v ↔ (name, v) ∈ m.entries :=
    field?_eq_some_iff m.nodup_keys
  have hpair : ([(first, a), (second, b)] : List (String × Json)).Pairwise fun e d => compare e.1 d.1 = .lt := by
    simpa using h
  have hsame : m = ⟨_, hpair⟩ := by
    refine eq_of_get?_eq fun name => Option.ext fun v => ?_
    rw [← mem_entries_iff, ← mem_entries_iff]
    constructor
    · intro hv
      rcases hnames _ hv with hname | hname
      · cases hname
        cases hfirst.symm.trans (hfield.2 hv)
        exact List.mem_cons_self
      · cases hname
        cases hsecond.symm.trans (hfield.2 hv)
        exact List.mem_cons_of_mem _ List.mem_cons_self
    · intro hv
      rcases List.mem_cons.1 hv with hv | hv
      · cases hv
        exact hfield.1 hfirst
      · cases List.mem_singleton.1 hv
        exact hfield.1 hsecond
  rw [hsame]

/-- A variable is read from its tree, if the registry resolves it. -/
theorem Variable.ofJson_eq_ok_iff {r : Registry} {whole v : Json} {driven : Variable} :
    Variable.ofJson r whole v = .ok driven ↔ v = driven.toJson ∧ r.resolve driven.family driven.name = .ok driven := by
  constructor
  · intro h
    unfold Variable.ofJson at h
    split at h
    · obtain ⟨hfamily, hname⟩ := Registry.of_resolve_eq_ok h
      rw [Variable.toJson, hfamily, hname]
      exact ⟨rfl, h⟩
    · cases h
    · cases h
  · rintro ⟨rfl, h⟩
    exact h

private theorem Key.make_eq_ok_iff {driven : Variable} {id : String} {k : Key} :
    Key.make driven id = .ok k ↔ k.driven = driven ∧ k.id = id := by
  constructor
  · intro h
    rw [Key.make] at h
    split at h
    · cases h
    · split at h
      · cases h
        exact ⟨rfl, rfl⟩
      · cases h
  · rintro ⟨rfl, rfl⟩
    exact k.make_eq_ok

namespace Key

variable {r : Registry} {v : Json} {k : Key}

/-- The tree of a key lists the id before the variable. -/
theorem normalize_toJson (k : Key) :
    k.toJson.normalize = .object [(idField, .string k.id), (variableField, k.driven.toJson)] := by
  let fields : List (String × Json) := [(variableField, k.driven.toJson), (idField, .string k.id)]
  have hkeys : (fields.map (·.1)).Nodup := (by decide : [variableField, idField].Nodup)
  have hfield {f : String × Json} (hf : f ∈ fields) : Json.field? f.1 (SortedMap.ofList fields).entries = some f.2 :=
    (field?_eq_some_iff (SortedMap.ofList fields).nodup_keys).2 ((SortedMap.mem_entries_ofList hkeys).2 hf)
  have hnames : ∀ f ∈ (SortedMap.ofList fields).entries, f.1 = idField ∨ f.1 = variableField := by
    intro f hf
    have hf := SortedMap.mem_of_mem_ofList hf
    simp only [fields, List.mem_cons, List.not_mem_nil, or_false] at hf
    rcases hf with rfl | rfl
    · exact .inr rfl
    · exact .inl rfl
  exact congrArg Json.object (SortedMap.entries_eq_pair (by decide) hnames
    (hfield (List.mem_cons_of_mem _ List.mem_cons_self)) (hfield List.mem_cons_self))

/-- What is read is written as the tree it was read from. -/
theorem ofJson_eq_ok_iff : ofJson r v.normalize = .ok k ↔ v.normalize = k.toJson.normalize ∧ r.Knows k := by
  constructor
  · intro h
    cases v with
    | object fields =>
      rw [Json.normalize, ofJson] at h
      split at h
      · cases h
      · rename_i hfind
        split at h
        · rename_i tree id htree hid
          obtain ⟨driven, hdriven, hmake⟩ := Outcome.bind_eq_ok_iff.1 h
          obtain ⟨rfl, hknows⟩ := Variable.ofJson_eq_ok_iff.1 hdriven
          obtain ⟨rfl, rfl⟩ := make_eq_ok_iff.1 (Outcome.mapError_eq_ok_iff.1 hmake)
          have hnames : ∀ f ∈ Json.sortFields (Json.normalizeFields fields), f.1 = idField ∨ f.1 = variableField := by
            intro f hf
            simpa [imp_iff_or_not, or_comm] using List.find?_eq_none.1 hfind f hf
          rw [normalize_toJson, Json.normalize]
          exact ⟨congrArg Json.object (SortedMap.entries_eq_pair (by decide) hnames hid htree), hknows⟩
        · cases h
        · cases h
    | null => cases h
    | bool b => cases h
    | number n => cases h
    | string s => cases h
    | array items => cases h
  · rintro ⟨hv, hknows⟩
    rw [hv]
    exact ofJson_toJson hknows

/-- What a key needs to be read: an id that shows something, and a variable that has both its names and that the
registry resolves to itself. -/
structure Readable (r : Registry) (driven : Variable) (id : String) : Prop where
  visible : ∃ c ∈ id.toList, Text.isBlankChar c = false
  family : driven.family ≠ ""
  name : driven.name ≠ ""
  resolved : r.resolve driven.family driven.name = .ok driven

private theorem readable_iff : Readable r k.driven k.id ↔ r.Knows k := by
  refine ⟨Readable.resolved, fun hknows => ?_⟩
  obtain ⟨hfamily, hname⟩ := Variable.isNamed_iff.1 k.driven_named
  exact ⟨Text.isBlank_eq_false_iff.1 k.id_visible, hfamily, hname, hknows⟩

private theorem exists_of_readable {driven : Variable} {id : String} (h : Readable r driven id) :
    ∃ k : Key, k.driven = driven ∧ k.id = id :=
  ⟨⟨driven, id, Text.isBlank_eq_false_iff.2 h.visible, Variable.isNamed_iff.2 ⟨h.family, h.name⟩⟩, rfl, rfl⟩

/-- Reading keys is the exact inverse of writing them. A tree is read as a key exactly when it is that key's tree and
the key is readable; so what is read is written again as it was, no tree is read that is of no key, and no two are read
as one key. The registry may have any providers. -/
theorem keys_read_as_written (r : Registry) :
    (∀ k : Key, k.toJson.normalize = .object [(idField, .string k.id),
      (variableField, .object [(k.driven.family, .string k.driven.name)])]) ∧
    (∀ (v : Json) (k : Key),
      ofJson r v.normalize = .ok k ↔ v.normalize = k.toJson.normalize ∧ Readable r k.driven k.id) ∧
    (∀ v : Json, (∃ k, ofJson r v.normalize = .ok k) ↔
      ∃ driven id, v.normalize = .object [(idField, .string id),
        (variableField, .object [(driven.family, .string driven.name)])] ∧ Readable r driven id) ∧
    (∀ (v w : Json) (k : Key), ofJson r v.normalize = .ok k → ofJson r w.normalize = .ok k →
      v.normalize = w.normalize) := by
  have hread {v : Json} {k : Key} :
      ofJson r v.normalize = .ok k ↔ v.normalize = k.toJson.normalize ∧ Readable r k.driven k.id := by
    rw [readable_iff]
    exact ofJson_eq_ok_iff
  refine ⟨normalize_toJson, fun v k => hread, fun v => ⟨?_, ?_⟩, fun v w k hv hw => ?_⟩
  · rintro ⟨k, hk⟩
    obtain ⟨hv, hreadable⟩ := hread.1 hk
    exact ⟨k.driven, k.id, hv.trans k.normalize_toJson, hreadable⟩
  · rintro ⟨driven, id, hv, hreadable⟩
    obtain ⟨k, rfl, rfl⟩ := exists_of_readable hreadable
    exact ⟨k, hread.2 ⟨hv.trans k.normalize_toJson.symm, hreadable⟩⟩
  · exact (hread.1 hv).1.trans (hread.1 hw).1.symm

/-- A family may be called like the built-in one; its keys are then read as its own, in whichever order their fields
come. -/
theorem imitation_read :
    let r := Registry.empty.registerAll [.named "equipment" (SortedSet.ofList ["targetP"])]
    let k : Key := ⟨.extension "equipment" "targetP", "G1", by decide, by decide⟩
    let v : Json := .object [(idField, .string k.id), (variableField, k.driven.toJson)]
    ofJson r v.normalize = .ok k ∧ ofJson r k.toJson.normalize = .ok k ∧ v.normalize = k.toJson.normalize := by
  intro r k v
  obtain ⟨_, hread, _, hone⟩ := keys_read_as_written r
  have hreadable : Readable r k.driven k.id := ⟨⟨'G', by decide, by decide⟩, by decide, by decide, rfl⟩
  have hk : ofJson r k.toJson.normalize = .ok k := (hread _ k).2 ⟨rfl, hreadable⟩
  have hsame : v.normalize = k.toJson.normalize := by
    simp only [v, k]
    rfl
  have hv : ofJson r v.normalize = .ok k := (hread v k).2 ⟨hsame, hreadable⟩
  exact ⟨hv, hk, hone v k.toJson k hv hk⟩

end Key
end GridSeries
