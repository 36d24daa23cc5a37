import GridSeries.Document.Read
import GridSeries.Proofs.Json.Normal
import GridSeries.Proofs.Outcome

/-! The parts of a document, one by one: what is written for a key, a weight, a formula, a list of names or an entry of
a section reads back from its normal form. -/
namespace GridSeries
open Json (normalFields normalize_object normalize_array field?_normalFields name_mem_of_mem_normalFields)

/-- A registry knows a key when it resolves the key's variable to that variable. -/
def Registry.Knows (r : Registry) (k : Key) : Prop := r.resolve k.driven.family k.driven.name = .ok k.driven

/-- The fields of a pair with different names, and no others. -/
private theorem normal_pair {first second : String} (h : first ≠ second) (a b : Json) :
    (normalFields [(first, a), (second, b)]).find? (fun f => f.1 != first && f.1 != second) = none ∧
      Json.field? first (normalFields [(first, a), (second, b)]) = some a.normalize ∧
      Json.field? second (normalFields [(first, a), (second, b)]) = some b.normalize := by
  have hnames : (([(first, a), (second, b)] : List (String × Json)).map (·.1)).Nodup := by simpa using h
  refine ⟨List.find?_eq_none.2 fun f hf => ?_, ?_, ?_⟩
  · have hname := name_mem_of_mem_normalFields hf
    simp only [List.map_cons, List.map_nil, List.mem_cons, List.not_mem_nil, or_false] at hname
    rcases hname with hname | hname <;> simp [hname]
  · rw [field?_normalFields hnames]
    simp [Json.field?]
  · rw [field?_normalFields hnames]
    simp [Json.field?, h]

/-- A key passes the checks that are made on its parts. -/
theorem Key.make_eq_ok (k : Key) : Key.make k.driven k.id = .ok k := by
  rw [Key.make, dif_neg (by simp [k.id_visible]), dif_pos k.driven_named]

/-- A key reads back in every registry that knows it. -/
theorem Key.ofJson_toJson {r : Registry} {k : Key} (h : r.Knows k) : Key.ofJson r k.toJson.normalize = .ok k := by
  have hne : Key.variableField ≠ Key.idField := by decide
  obtain ⟨hfind, hvariable, hid⟩ := normal_pair hne k.driven.toJson (.string k.id)
  have hdriven : ∀ whole, Variable.ofJson r whole k.driven.toJson.normalize = .ok k.driven := fun _ => h
  rw [Key.toJson, normalize_object, Key.ofJson, hfind]
  dsimp only
  rw [hvariable, hid]
  change (do
    let driven ← Variable.ofJson r _ k.driven.toJson.normalize
    (Key.make driven k.id).mapError Fault.key) = _
  rw [hdriven]
  change (Key.make k.driven k.id).mapError Fault.key = _
  rw [Key.make_eq_ok]
  rfl

/-- A weight reads back from its tree. -/
theorem Weight.ofJson?_toJson (w : Weight) : Weight.ofJson? w.toJson.normalize = some w := by
  cases w with
  | constant x => rfl
  | series name => rfl

/-- The name of an operator is read as that operator. -/
theorem UnaryOp.ofName?_name (op : UnaryOp) : UnaryOp.ofName? op.name = some op := by
  cases op <;> decide

/-- The same for operators of two operands. -/
theorem BinaryOp.ofName?_name (op : BinaryOp) : BinaryOp.ofName? op.name = some op := by
  cases op <;> decide

namespace Formula

/-- A tree with the formula it stands for. -/
def decoded (v : Json) : Part := ⟨v, decode? true v⟩

private theorem decodeFields_eq (fields : List (String × Json)) :
    decodeFields fields = fields.map fun f => (f.1, decoded f.2) := by
  induction fields with
  | nil => rfl
  | cons f rest ih => simp [decodeFields, decoded, ih]

/-- Where names do not repeat, the part that a name stands for once is the one that is found first. -/
private theorem once?_decoded {fields : List (String × Json)} (h : (fields.map (·.1)).Nodup) (name : String) :
    once? name (fields.map fun f => (f.1, decoded f.2)) = (Json.field? name fields).map decoded := by
  have hfilter : (fields.map fun f => (f.1, decoded f.2)).filter (fun f => f.1 == name) =
      ((Json.field? name fields).map fun v => (name, decoded v)).toList := by
    induction fields with
    | nil => rfl
    | cons f rest ih =>
      obtain ⟨hfirst, hrest⟩ := List.nodup_cons.1 h
      rw [List.map_cons, List.filter_cons, Json.field?]
      by_cases hname : f.1 = name
      · have hnone : (rest.map fun f => (f.1, decoded f.2)).filter (fun f => f.1 == name) = [] := by
          rw [List.filter_eq_nil_iff]
          intro g hg
          obtain ⟨d, hd, rfl⟩ := List.mem_map.1 hg
          simp only [beq_iff_eq]
          exact fun heq => hfirst (List.mem_map.2 ⟨d, hd, heq.trans hname.symm⟩)
        rw [if_pos (by simp [hname]), if_pos hname, hnone, hname]
        rfl
      · rw [if_neg (by simp [hname]), if_neg hname, ih hrest]
  rw [once?, hfilter]
  cases Json.field? name fields with
  | none => rfl
  | some v => rfl

/-- An object with the fields of a form, in whatever order, is decoded part by part. -/
private theorem decode?_object (form : Form) (values : List Json) {fields : List (String × Json)}
    (h : (fields.map (·.1)).Nodup) (htype : Json.field? "type" fields = some (.string form.name))
    (hparts : form.parts.map (Json.field? · fields) = values.map some) (numbered : Bool) :
    decode? numbered (Json.object fields).normalize = form.build? (values.map fun v => decoded v.normalize) := by
  have hkeys : ((normalFields fields).map (·.1)).Nodup := by
    rw [normalFields, List.map_map]
    exact (SortedMap.ofList fields).nodup_keys
  have honce (name : String) : once? name (decodeFields (normalFields fields)) =
      (Json.field? name fields).map fun v => decoded v.normalize := by
    rw [decodeFields_eq, once?_decoded hkeys, field?_normalFields h, Option.map_map]
    rfl
  -- forms are named in written trees, so it does not matter whether they could be given by number
  have hform : Form.ofJson? numbered (Json.string form.name).normalize = some form := by
    cases form <;> rfl
  have hmapM : form.parts.mapM (once? · (decodeFields (normalFields fields))) =
      some (values.map fun v => decoded v.normalize) := by
    apply Outcome.mapM_of_map_eq
    simp only [honce]
    rw [← Function.comp_def, ← List.map_map, hparts, List.map_map, List.map_map]
    rfl
  rw [normalize_object, decode?, ofFields?, honce, htype]
  change (Form.ofJson? numbered (Json.string form.name).normalize >>= fun form =>
    form.parts.mapM (once? · (decodeFields (normalFields fields))) >>= form.build?) = _
  rw [hform]
  change form.parts.mapM (once? · (decodeFields (normalFields fields))) >>= form.build? = _
  rw [hmapM]
  rfl

/-- A formula reads back, whether or not its form could be given by number. -/
theorem decode?_toJson (f : Formula) (numbered : Bool) : decode? numbered f.toJson.normalize = some f := by
  induction f generalizing numbered with
  | constant x => exact decode?_object .constant [.ofFloat x] (by simp) rfl rfl numbered
  | series name => exact decode?_object .series [.string name] (by simp) rfl rfl numbered
  | unary op operand ih =>
    rw [toJson, decode?_object .unary [.string op.name, operand.toJson] (by simp) rfl rfl]
    simp [Form.build?, decoded, ih, Json.normalize, operatorName?, UnaryOp.ofName?_name]
  | binary op left right ihl ihr =>
    rw [toJson, decode?_object .binary [.string op.name, left.toJson, right.toJson] (by simp) rfl rfl]
    simp [Form.build?, decoded, ihl, ihr, Json.normalize, operatorName?, BinaryOp.ofName?_name]

/-- A formula reads back from its tree. -/
theorem ofJson?_toJson (f : Formula) : ofJson? f.toJson.normalize = some f := decode?_toJson f false

end Formula

namespace Document

private theorem textsOf_strings (place : String) (l : List String) :
    textsOf place (Json.array (l.map .string)).normalize = .ok l := by
  have hitems := Outcome.mapM_map_eq_ok (f := textOf place) (g := Json.string) (h := id) (l := l) fun _ _ => rfl
  rw [normalize_array, List.map_map, textsOf, itemsOf]
  rw [List.map_id] at hitems
  exact hitems

/-- A list of names reads back as their set. -/
theorem nameSetOf_names (place : String) (s : SortedSet String) :
    nameSetOf place (Json.array (s.toList.map .string)).normalize = .ok s := by
  rw [nameSetOf, textsOf_strings]
  exact congrArg Except.ok s.ofList_toList

/-- A list of keys reads back as their set, in a registry that knows them. -/
theorem keySetOf_keys {r : Registry} (place : String) {s : SortedSet Key} (h : ∀ k ∈ s, r.Knows k) :
    keySetOf r place (Json.array (s.toList.map Key.toJson)).normalize = .ok s := by
  have hitems := Outcome.mapM_map_eq_ok (f := Key.ofJson r) (g := fun k : Key => k.toJson.normalize) (h := id)
    fun k hk => Key.ofJson_toJson (h k hk)
  rw [List.map_id] at hitems
  rw [normalize_array, List.map_map, keySetOf, itemsOf]
  change (do pure (SortedSet.ofList (← (s.toList.map fun k : Key => k.toJson.normalize).mapM (Key.ofJson r)))) = _
  rw [hitems]
  exact congrArg Except.ok s.ofList_toList

private theorem entryOf_pair {place first second : String} (h : first ≠ second) (a b : Json) :
    entryOf place first second (Json.object [(first, a), (second, b)]).normalize = .ok (a.normalize, b.normalize) := by
  obtain ⟨hfind, hfirst, hsecond⟩ := normal_pair h a b
  rw [normalize_object, entryOf, fieldsOf, Outcome.ok_bind, hfind]
  dsimp only
  rw [hfirst, hsecond]
  rfl

variable {r : Registry}

/-- An entry of a forward section adds the keys of its series. -/
theorem readForwardEntry_write {place : String} {forward : SortedMap String (SortedSet Key)}
    {e : String × SortedSet Key} (h : ∀ k ∈ e.2, r.Knows k) :
    readForwardEntry r place forward (forwardEntry e).normalize = .ok (forward.insert e.1 e.2) := by
  have hne : seriesField ≠ keysField := by decide
  rw [readForwardEntry, forwardEntry, entryOf_pair hne]
  change (keySetOf r keysField (keysJson e.2).normalize).bind _ = _
  rw [keysJson, keySetOf_keys keysField h]
  rfl

/-- An entry of a reverse section adds the series of its key, if there is none for the key yet. -/
theorem readReverseEntry_write {place : String} {reverse : SortedMap Key (List String)} {e : Key × List String}
    (h : r.Knows e.1) (hnew : reverse.get? e.1 = none) :
    readReverseEntry r place reverse (reverseEntry e).normalize = .ok (reverse.insert e.1 e.2) := by
  have hne : keyField ≠ seriesListField := by decide
  have habsent : reverse.contains e.1 = false := by simp [SortedMap.contains, hnew]
  rw [readReverseEntry, reverseEntry, entryOf_pair hne]
  change (Key.ofJson r e.1.toJson.normalize).bind _ = _
  rw [Key.ofJson_toJson h]
  change (textsOf seriesListField (Json.strings e.2).normalize).bind _ = _
  rw [Json.strings, textsOf_strings]
  dsimp only [Except.bind]
  rw [if_neg (by simp [habsent])]
  rfl

/-- An entry with a weight that passes its check adds the weight. -/
theorem readWeightEntry_write {weights : SortedMap Key Weight} {e : Key × Weight} (h : r.Knows e.1)
    (hw : e.2.check = .ok ()) :
    readWeightEntry r weights (weightEntry e).normalize = .ok (weights.insert e.1 e.2) := by
  have hne : keyField ≠ weightField := by decide
  rw [readWeightEntry, weightEntry, entryOf_pair hne]
  change (Key.ofJson r e.1.toJson.normalize).bind _ = _
  rw [Key.ofJson_toJson h]
  dsimp only [Except.bind]
  rw [Weight.ofJson?_toJson]
  dsimp only
  rw [hw]
  rfl

/-- An entry of outages adds them, if the series has none yet. -/
theorem readOutagesEntry_write {outages : SortedMap String (SortedSet String)} {e : String × SortedSet String}
    (hnew : outages.get? e.1 = none) :
    readOutagesEntry outages (outagesEntry e).normalize = .ok (outages.insert e.1 e.2) := by
  have hne : seriesField ≠ outageIdsField := by decide
  have hunion : (outages.getD e.1 ∅).union e.2 = e.2 := by
    rw [SortedMap.getD, hnew]
    exact e.2.ofList_toList
  rw [readOutagesEntry, outagesEntry, entryOf_pair hne]
  change (nameSetOf outageIdsField (Json.strings e.2.toList).normalize).bind _ = _
  rw [Json.strings, nameSetOf_names]
  change Except.ok (outages.insert e.1 ((outages.getD e.1 ∅).union e.2)) = _
  rw [hunion]

end Document
end GridSeries
