import GridSeries.Proofs.Json.Scan

/-! Reading what was printed: the machine that takes tokens builds the tree they came from, so a printed tree reads
back when its numbers do and it does not nest too deep. -/
namespace GridSeries.Json

private theorem exists_tokens_eq_cons (v : Json) : ∃ t ts, tokens v = t :: ts ∧ t ≠ .endArray := by
  cases v with
  | null => exact ⟨_, _, rfl, by decide⟩
  | bool b => exact ⟨_, _, rfl, by simp⟩
  | number n => exact ⟨_, _, rfl, by simp⟩
  | string s => exact ⟨_, _, rfl, by simp⟩
  | array items => exact ⟨_, _, rfl, by decide⟩
  | object fields => exact ⟨_, _, rfl, by decide⟩

private theorem foldlM_firstItem (v : Json) (ts : List Token) (stack : List Frame) :
    (tokens v ++ ts).foldlM Reading.step (.firstItem stack) =
      (tokens v ++ ts).foldlM Reading.step (.value (.array [] :: stack)) := by
  obtain ⟨t, rest, ht, hne⟩ := exists_tokens_eq_cons v
  have hstep : Reading.step (.firstItem stack) t = Reading.step (.value (.array [] :: stack)) t := by
    cases t <;> first | rfl | exact absurd rfl hne
  rw [ht, List.cons_append, List.foldlM_cons, List.foldlM_cons, hstep]

/-- The machine takes the tokens of a tree and hands the tree on. -/
def Delivers (v : Json) : Prop :=
  ∀ (stack : List Frame) (ts : List Token),
    (tokens v ++ ts).foldlM Reading.step (.value stack) = ts.foldlM Reading.step (.deliver v.raw stack)

private theorem foldlM_items {v : Json} {rest : List Json} (h : ∀ w ∈ v :: rest, Delivers w) (done : List Raw)
    (stack : List Frame) (ts : List Token) :
    (List.intercalate [.comma] ((v :: rest).map tokens) ++ .endArray :: ts).foldlM Reading.step
        (.value (.array done :: stack)) =
      ts.foldlM Reading.step (.deliver (.array (done.reverse ++ (v :: rest).map raw)) stack) := by
  induction rest generalizing v done with
  | nil =>
    rw [List.map_singleton, List.intercalate_singleton, h v (by simp)]
    simp [Reading.deliver, Reading.step]
  | cons w rest ih =>
    have htail := ih (fun u hu => h u (List.mem_cons_of_mem v hu)) (v.raw :: done)
    rw [List.map_cons, List.map_cons, List.intercalate_cons_cons, List.append_assoc, List.append_assoc,
      h v (by simp), ← List.map_cons, List.singleton_append, List.foldlM_cons]
    simpa [Reading.deliver, Reading.step] using htail

private theorem foldlM_fields {f : String × Json} {rest : List (String × Json)} (h : ∀ g ∈ f :: rest, Delivers g.2)
    (done : List (Option String × Raw)) (stack : List Frame) (ts : List Token) :
    (List.intercalate [.comma] ((f :: rest).map fun f => .string (some f.1) :: .colon :: tokens f.2) ++
        .endObject :: ts).foldlM Reading.step (.nextKey done stack) =
      ts.foldlM Reading.step
        (.deliver (.object (done.reverse ++ (f :: rest).map fun f => (some f.1, raw f.2))) stack) := by
  have hfield (g : String × Json) (hg : Delivers g.2) (done : List (Option String × Raw)) (ts : List Token) :
      (.string (some g.1) :: .colon :: (tokens g.2 ++ ts)).foldlM Reading.step (.nextKey done stack) =
        ts.foldlM Reading.step (.afterField ((some g.1, g.2.raw) :: done) stack) := by
    have := hg (.object done (some g.1) :: stack) ts
    simpa [Reading.step, Reading.deliver] using this
  induction rest generalizing f done with
  | nil =>
    have := hfield f (h f (by simp)) done (.endObject :: ts)
    simpa [Reading.step] using this
  | cons g rest ih =>
    have htail := ih (fun u hu => h u (List.mem_cons_of_mem f hu)) ((some f.1, f.2.raw) :: done)
    have hfirst := hfield f (h f (by simp)) done
    rw [List.map_cons] at htail
    rw [List.map_cons, List.map_cons, List.intercalate_cons_cons]
    simp only [List.cons_append, List.append_assoc, List.nil_append]
    rw [hfirst, List.foldlM_cons]
    simpa [Reading.step] using htail

private theorem delivers (v : Json) : Delivers v := by
  induction v using treeInduction with
  | null => exact fun _ _ => rfl
  | bool b => exact fun _ _ => rfl
  | number n => exact fun _ _ => rfl
  | string s => exact fun _ _ => rfl
  | array items ih =>
    intro stack ts
    rw [tokens, itemsTokens_eq, raw, itemsRaw_eq, List.cons_append, List.append_assoc, List.foldlM_cons]
    cases items with
    | nil => rfl
    | cons v rest =>
      have hall := foldlM_items ih [] stack ts
      obtain ⟨more, hmore⟩ : ∃ more, List.intercalate [.comma] ((v :: rest).map tokens) = tokens v ++ more := by
        cases rest with
        | nil => exact ⟨[], by simp⟩
        | cons w rest => exact ⟨_, by rw [List.map_cons, List.map_cons, List.intercalate_cons_cons, List.append_assoc]⟩
      rw [hmore, List.append_assoc, ← foldlM_firstItem, ← List.append_assoc, ← hmore] at hall
      exact hall
  | object fields ih =>
    intro stack ts
    rw [tokens, fieldsTokens_eq, raw, fieldsRaw_eq, List.cons_append, List.append_assoc, List.foldlM_cons]
    cases fields with
    | nil => rfl
    | cons f rest =>
      have hall := foldlM_fields ih [] stack ts
      obtain ⟨more, hmore⟩ : ∃ more, List.intercalate [.comma]
          ((f :: rest).map fun f => .string (some f.1) :: .colon :: tokens f.2) = .string (some f.1) :: more := by
        cases rest with
        | nil => exact ⟨_, List.intercalate_singleton⟩
        | cons g rest => exact ⟨_, by rw [List.map_cons, List.map_cons, List.intercalate_cons_cons]; rfl⟩
      rw [hmore] at hall ⊢
      exact hall

private theorem toItems?_raw {n : Nat} {items : List Json} (h : ∀ v ∈ items, v.raw.toJson? n = some v) :
    Raw.toItems? n (itemsRaw items) = some items := by
  induction items with
  | nil => rfl
  | cons v rest ih =>
    rw [itemsRaw, Raw.toItems?, h v List.mem_cons_self, ih fun w hw => h w (List.mem_cons_of_mem v hw)]
    rfl

private theorem toFields?_raw {n : Nat} {fields : List (String × Json)}
    (h : ∀ f ∈ fields, f.2.raw.toJson? n = some f.2) : Raw.toFields? n (fieldsRaw fields) = some fields := by
  induction fields with
  | nil => rfl
  | cons f rest ih =>
    rw [fieldsRaw, Raw.toFields?, h f List.mem_cons_self, ih fun g hg => h g (List.mem_cons_of_mem f hg)]
    rfl

/-- A tree stands as itself in its text, up to a depth. -/
theorem toJson?_raw (v : Json) {n : Nat} (h : depth v ≤ n) : v.raw.toJson? n = some v := by
  induction v using treeInduction generalizing n with
  | null => rfl
  | bool b => rfl
  | number m => rfl
  | string s => rfl
  | array items ih =>
    obtain ⟨inner, rfl⟩ : ∃ inner, n = inner + 1 := ⟨n - 1, by rw [depth] at h; omega⟩
    have hle := itemsDepth_le_iff.1 (Nat.le_of_succ_le_succ h)
    rw [raw, Raw.toJson?, toItems?_raw fun v hv => ih v hv (hle v hv)]
    rfl
  | object fields ih =>
    obtain ⟨inner, rfl⟩ : ∃ inner, n = inner + 1 := ⟨n - 1, by rw [depth] at h; omega⟩
    have hle := fieldsDepth_le_iff.1 (Nat.le_of_succ_le_succ h)
    rw [raw, Raw.toJson?, toFields?_raw fun f hf => ih f hf (hle f hf)]
    rfl

/-- A text that holds the tokens of a tree reads as the tree, unless it nests too deep. -/
theorem read?_of_prints {v : Json} {text : List Char} (h : Prints (tokens v) text) (hd : depth v ≤ depthLimit) :
    read? (String.ofList text) = some v := by
  have hspells := h [] [] (by simp [EndsNumber]) .done
  rw [List.append_nil, List.append_nil] at hspells
  have hscan : Token.scan (String.ofList text) = some (tokens v) := by
    rw [Token.scan, String.toList_ofList]
    exact scanTokens_of_spells hspells (Nat.le_refl _)
  have hdelivers := delivers v [] []
  rw [List.append_nil] at hdelivers
  have hraw : Raw.read? (String.ofList text) = some v.raw := by
    rw [Raw.read?, hscan, Option.bind_eq_bind, Option.bind_some, hdelivers]
    rfl
  rw [read?, hraw]
  exact toJson?_raw v hd

/-- Both texts of a tree read as the tree. -/
theorem read?_compact {v : Json} (hn : ∀ n ∈ numbers v, n.Scans) (hd : depth v ≤ depthLimit) :
    read? v.compact = some v := read?_of_prints (prints_compact v hn) hd

/-- A tree with no number but a single 1 needs nothing more. -/
theorem read?_compact_of_one {v : Json} (hone : numbers v = [.whole 1]) (hd : depth v ≤ depthLimit) :
    read? v.compact = some v := by
  refine read?_compact (fun n hn => ?_) hd
  rw [hone] at hn
  cases List.mem_singleton.1 hn
  exact ⟨_, rfl, rfl⟩

/-- The indented text of a tree reads as the tree. -/
theorem read?_pretty {v : Json} (hn : ∀ n ∈ numbers v, n.Scans) (hd : depth v ≤ depthLimit) :
    read? v.pretty = some v := read?_of_prints (prints_pretty v hn 0) hd

end GridSeries.Json
