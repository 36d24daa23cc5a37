import GridSeries.Proofs.Document.Sections

/-! How deep a written document nests and which numbers it has: apart from its version, the doubles of the mapping;
and only its formulas nest without a fixed bound. -/
namespace GridSeries

def Formula.constants : Formula → List Float
  | constant x => [x]
  | series _ => []
  | unary _ operand => operand.constants
  | binary _ left right => left.constants ++ right.constants

/-- The double is part of the mapping: as the weight of a key, or in a formula. -/
inductive Mapping.Carries (m : Mapping) (x : Float) : Prop where
  | weight {k : Key} : (k, .constant x) ∈ m.weights.entries → m.Carries x
  | formula {name : String} {f : Formula} : (name, f) ∈ m.formulas.entries → x ∈ f.constants → m.Carries x

open Json (Within within_string within_number within_array within_object)

variable {P : Json.Number → Prop}

private theorem Key.within_toJson (k : Key) : Within P 2 k.toJson := by
  have hdriven : Within P 1 k.driven.toJson := within_object fun f hf => by
    rw [List.mem_singleton.1 hf]
    exact within_string _
  refine within_object fun f hf => ?_
  rcases List.mem_pair.1 hf with rfl | rfl
  · exact hdriven
  · exact within_string _

private theorem Weight.within_toJson {w : Weight} (h : ∀ x, w = .constant x → P (.real x)) : Within P 1 w.toJson := by
  cases w with
  | constant x =>
    refine within_object fun f hf => ?_
    rw [List.mem_singleton.1 hf]
    exact within_number (h x rfl)
  | series name =>
    refine within_object fun f hf => ?_
    rw [List.mem_singleton.1 hf]
    exact within_string name

/-- The numbers of a written formula are its constants. -/
theorem Formula.numbers_toJson {f : Formula} {n : Json.Number} (h : n ∈ f.toJson.numbers) :
    ∃ x ∈ f.constants, n = .real x := by
  induction f with
  | constant x =>
    simp only [toJson, Json.numbers, Json.fieldsNumbers, Json.ofFloat, List.nil_append, List.append_nil,
      List.mem_singleton] at h
    exact ⟨x, List.mem_singleton_self x, h⟩
  | series name => simp [toJson, Json.numbers, Json.fieldsNumbers] at h
  | unary op operand ih =>
    simp only [toJson, Json.numbers, Json.fieldsNumbers, List.nil_append, List.append_nil] at h
    exact ih h
  | binary op left right ihl ihr =>
    simp only [toJson, Json.numbers, Json.fieldsNumbers, List.nil_append, List.append_nil, List.mem_append] at h
    rcases h with h | h
    · obtain ⟨x, hx, rfl⟩ := ihl h
      exact ⟨x, List.mem_append_left _ hx, rfl⟩
    · obtain ⟨x, hx, rfl⟩ := ihr h
      exact ⟨x, List.mem_append_right _ hx, rfl⟩

namespace Document

variable {m : Mapping} {d : Nat}

private theorem within_listValue {items : List Json} (h : ∀ w ∈ items, Within P d w) :
    ∀ v ∈ listValue items, Within P (d + 1) v := by
  intro v hv
  unfold listValue valueUnless at hv
  split at hv
  · cases hv
  · cases hv
    exact within_array h

private theorem within_names (s : SortedSet String) : ∀ v ∈ namesValue s, Within P (d + 1) v :=
  within_listValue fun w hw => by
    obtain ⟨name, _, rfl⟩ := List.mem_map.1 hw
    exact within_string name

private theorem within_pair {first second : String} {a b : Json} (ha : Within P d a) (hb : Within P d b) :
    Within P (d + 1) (.object [(first, a), (second, b)]) :=
  within_object fun f hf => by
    rcases List.mem_pair.1 hf with rfl | rfl
    · exact ha
    · exact hb

private theorem within_categoryTable (c : Category) (b : Bindings) :
    ∀ e ∈ categoryTable c b, ∀ v ∈ e.2, Within P 5 v := by
  have hkeys (s : SortedSet Key) : ∀ w ∈ s.toList.map Key.toJson, Within P 2 w := by
    intro w hw
    obtain ⟨k, _, rfl⟩ := List.mem_map.1 hw
    exact k.within_toJson
  have hforward : ∀ v ∈ listValue (b.forward.entries.map forwardEntry), Within P 5 v :=
    within_listValue fun w hw => by
      obtain ⟨e, _, rfl⟩ := List.mem_map.1 hw
      exact within_pair (within_string e.1) (within_array (hkeys e.2))
  have hreverse : ∀ v ∈ listValue (b.reverse.entries.map reverseEntry), Within P 5 v :=
    within_listValue fun w hw => by
      obtain ⟨e, _, rfl⟩ := List.mem_map.1 hw
      refine within_pair (e.1.within_toJson.mono (by omega)) (within_array (d := 2) fun u hu => ?_)
      obtain ⟨name, _, rfl⟩ := List.mem_map.1 hu
      exact within_string name
  have hdeclared : ∀ v ∈ listValue (b.declared.toList.map Key.toJson), Within P 5 v :=
    fun v hv => (within_listValue (hkeys b.declared) v hv).mono (by omega)
  simp only [categoryTable, List.forall_mem_cons]
  exact ⟨hforward, hreverse, hdeclared, within_names _, within_names _, within_names _, within_names _,
    fun _ he => nomatch he⟩

/-- The other sections have the doubles of the mapping, and nest as deep as its formulas. -/
private theorem within_globalTable (hcarries : ∀ x, m.Carries x → P (.real x)) (hd : 5 ≤ d)
    (hformulas : ∀ e ∈ m.formulas.entries, e.2.toJson.depth < d) : ∀ e ∈ globalTable m, ∀ v ∈ e.2, Within P d v := by
  obtain ⟨d, rfl⟩ : ∃ c, d = c + 1 := ⟨d - 1, by omega⟩
  have hweights : ∀ v ∈ listValue (m.weights.entries.map weightEntry), Within P (d + 1) v :=
    within_listValue fun w hw => by
      obtain ⟨⟨k, weight⟩, he, rfl⟩ := List.mem_map.1 hw
      have hweight : Within P 1 weight.toJson := Weight.within_toJson fun x hx => hcarries x (.weight (hx ▸ he))
      exact (within_pair k.within_toJson (hweight.mono (by omega))).mono (by omega)
  have hdefinitions : ∀ v ∈ valueUnless m.formulas.isEmpty
      (.object (m.formulas.entries.map fun e => (e.1, e.2.toJson))), Within P (d + 1) v := by
    intro v hv
    unfold valueUnless at hv
    split at hv
    · cases hv
    · cases hv
      refine within_object fun f hf => ?_
      obtain ⟨e, he, rfl⟩ := List.mem_map.1 hf
      refine ⟨Nat.le_of_lt_succ (hformulas e he), fun n hn => ?_⟩
      obtain ⟨x, hx, rfl⟩ := Formula.numbers_toJson hn
      exact hcarries x (.formula he hx)
  have houtages : ∀ v ∈ listValue (m.outages.entries.map outagesEntry), Within P (d + 1) v :=
    within_listValue fun w hw => by
      obtain ⟨e, _, rfl⟩ := List.mem_map.1 hw
      refine (within_pair (within_string e.1) (within_array (d := 0) fun u hu => ?_)).mono (by omega)
      obtain ⟨id, _, rfl⟩ := List.mem_map.1 hu
      exact within_string id
  simp only [globalTable, List.forall_mem_cons]
  exact ⟨hweights, hdefinitions, within_names _, within_names _, houtages, fun _ he => nomatch he⟩

/-- A document has no numbers but its version and the doubles of the mapping. It nests six deep, or as deep as its
formulas ask for. -/
theorem within_write (hversion : P (.whole DocumentFault.supportedVersion)) (hcarries : ∀ x, m.Carries x → P (.real x))
    (hd : 6 ≤ d) (hformulas : ∀ e ∈ m.formulas.entries, e.2.toJson.depth + 2 ≤ d) : Within P d (write m) := by
  obtain ⟨d, rfl⟩ : ∃ c, d = c + 1 := ⟨d - 1, by omega⟩
  have hcategories : ∀ e ∈ Category.all.flatMap fun c => categoryTable c (m.category c), ∀ v ∈ e.2,
      Within P d v := by
    intro e he v hv
    obtain ⟨c, _, he⟩ := List.mem_flatMap.1 he
    exact (within_categoryTable c _ e he v hv).mono (by omega)
  have hglobal : ∀ e ∈ globalTable m, ∀ v ∈ e.2, Within P d v :=
    within_globalTable hcarries (by omega) fun e he => Nat.lt_of_succ_le (Nat.le_of_succ_le_succ (hformulas e he))
  have htable : ∀ e ∈ table m, ∀ v ∈ e.2, Within P d v := by
    refine List.forall_mem_cons.2 ⟨fun v hv => ?_, List.forall_mem_append.2 ⟨hcategories, hglobal⟩⟩
    cases hv
    exact within_number hversion
  refine Within.normalize (within_object fun f hf => ?_)
  rw [allSections_eq] at hf
  obtain ⟨e, he, hv⟩ := List.mem_filterMap.1 hf
  obtain ⟨v, hsome, rfl⟩ := Option.map_eq_some_iff.1 hv
  exact htable e he v hsome

end Document
end GridSeries
