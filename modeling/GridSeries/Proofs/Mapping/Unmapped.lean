import GridSeries.Proofs.Mapping.Order

/-! Equipment without a series. The unmapped ids of a category are kept by removing one whenever a primary quantity is
newly bound; at every point of a history they are the ids on the main network for which none is bound. -/
namespace GridSeries

namespace Bindings

/-- Where equipment is filed by its connection. -/
def filed (b : Bindings) : Connection → SortedSet String
  | .main => b.unmapped
  | .outsideMain => b.outsideMain
  | .disconnected => b.disconnected

@[simp]
theorem filed_main (b : Bindings) : b.filed .main = b.unmapped := rfl

@[simp]
theorem filed_outsideMain (b : Bindings) : b.filed .outsideMain = b.outsideMain := rfl

@[simp]
theorem filed_disconnected (b : Bindings) : b.filed .disconnected = b.disconnected := rfl

variable {b : Bindings} {id : String} {connection : Connection}

private theorem mem_filed_file {e : String × Connection} :
    id ∈ (b.file e.1 e.2).filed connection ↔ (id, connection) = e ∨ id ∈ b.filed connection := by
  obtain ⟨other, kind⟩ := e
  cases kind <;> cases connection <;> simp [file, SortedSet.mem_insert]

private theorem mem_filed_fileAll {l : List (String × Connection)} :
    id ∈ (l.foldl (fun b e => b.file e.1 e.2) b).filed connection ↔
      (id, connection) ∈ l ∨ id ∈ b.filed connection := by
  induction l generalizing b with
  | nil => simp
  | cons e l ih => rw [List.foldl_cons, ih, mem_filed_file, List.mem_cons, or_left_comm, or_assoc]

end Bindings

namespace Mapping

variable {m : Mapping} {c d : Category} {b b' : Bindings} {ch : Change} {series id : String} {k : Key}
  {listed : String → Prop}

private theorem category_modifyAll {l : List Category} (hl : l.Nodup) (f : Category → Bindings → Bindings) :
    (l.foldl (fun m c => m.modifyCategory c (f c)) m).category d =
      if d ∈ l then f d (m.category d) else m.category d := by
  induction l generalizing m with
  | nil => rfl
  | cons c l ih =>
    obtain ⟨hc, hl⟩ := List.nodup_cons.1 hl
    rw [List.foldl_cons, ih hl, category_modifyCategory]
    by_cases hd : d = c
    · subst hd
      rw [if_neg hc, if_pos rfl, if_pos List.mem_cons_self]
    · simp [hd]

private theorem category_ofEquipment (equipment : Category → List (String × Connection)) :
    (ofEquipment equipment).category c = (equipment c).foldl (fun b e => b.file e.1 e.2) .empty := by
  have hall : Category.all.Nodup := by decide
  rw [ofEquipment, category_modifyAll hall fun c b => (equipment c).foldl (fun b e => b.file e.1 e.2) b,
    if_pos (Category.mem_all c), category, empty, PerCategory.get_replicate]

/-- Equipment is filed where its connection says, and nothing else is. -/
theorem mem_filed_ofEquipment {equipment : Category → List (String × Connection)} {connection : Connection} :
    id ∈ ((ofEquipment equipment).category c).filed connection ↔ (id, connection) ∈ equipment c := by
  have hempty : ¬ id ∈ Bindings.empty.filed connection := by
    cases connection <;> exact SortedSet.not_mem_empty id
  rw [category_ofEquipment, Bindings.mem_filed_fileAll, or_iff_left hempty]

/-- What a change can do to the bindings of a category: leave them, link a pair, or add to one of the sets. -/
inductive Edit (c : Category) : Change → Bindings → Bindings → Prop
  | leave (ch : Change) (b : Bindings) : Edit c ch b b
  | link (series : String) (k : Key) (w : Option Weight) (b : Bindings) :
      Edit c (.bind c series k w) b (linkIn c series k b)
  | unmapped (id : String) (b : Bindings) :
      Edit c (.markUnmapped c id) b { b with unmapped := b.unmapped.insert id }
  | ignoredUnmapped (id : String) (b : Bindings) :
      Edit c (.markIgnoredUnmapped c id) b { b with ignoredUnmapped := b.ignoredUnmapped.insert id }
  | disconnected (id : String) (b : Bindings) :
      Edit c (.markDisconnected c id) b { b with disconnected := b.disconnected.insert id }
  | outsideMain (id : String) (b : Bindings) :
      Edit c (.markOutsideMain c id) b { b with outsideMain := b.outsideMain.insert id }
  | declared (id : String) (named : List Variable) (keys : SortedSet Key) (b : Bindings) :
      Edit c (.declare c id named) b { b with declared := keys }

private theorem edit_modifyCategory {f : Bindings → Bindings} (h : ∀ b, Edit c ch b (f b)) :
    Edit d ch (m.category d) ((m.modifyCategory c f).category d) := by
  rw [category_modifyCategory]
  by_cases hd : d = c
  · subst hd
    rw [if_pos rfl]
    exact h (m.category d)
  · rw [if_neg hd]
    exact .leave ch _

/-- A declaration changes the declared keys of its category; those before one that is refused stay. -/
private theorem category_declare (m : Mapping) (c d : Category) (id : String) (named : List Variable) :
    ∃ keys, (m.after (.declare c id named)).category d =
      if d = c then { m.category d with declared := keys } else m.category d := by
  refine after_declare (P := fun n => ∃ keys, n.category d =
    if d = c then { m.category d with declared := keys } else m.category d) (fun k hn => ?_)
    ⟨(m.category d).declared, (ite_self _).symm⟩ id named
  obtain ⟨keys, hn⟩ := hn
  refine ⟨keys.insert k, ?_⟩
  rw [category_modifyCategory, hn]
  by_cases hd : d = c
  · simp only [if_pos hd]
  · simp only [if_neg hd]

/-- Every change edits each category in one of these ways, refused or not. -/
theorem edit_after (m : Mapping) (ch : Change) (d : Category) : Edit d ch (m.category d) ((m.after ch).category d) := by
  cases ch with
  | bind c series k w =>
    rw [after_bind]
    cases m.checkBind c series k w with
    | ok u => exact edit_modifyCategory fun b => .link series k w b
    | error e => exact .leave _ _
  | markUnmapped c id => exact edit_modifyCategory fun b => .unmapped id b
  | markIgnoredUnmapped c id => exact edit_modifyCategory fun b => .ignoredUnmapped id b
  | markDisconnected c id => exact edit_modifyCategory fun b => .disconnected id b
  | markOutsideMain c id => exact edit_modifyCategory fun b => .outsideMain id b
  | declare c id named =>
    obtain ⟨keys, hkeys⟩ := category_declare m c d id named
    rw [hkeys]
    by_cases hd : d = c
    · subst hd
      rw [if_pos rfl]
      exact .declared id named keys _
    · rw [if_neg hd]
      exact .leave _ _
  | addFormula name f =>
    rw [after_addFormula]
    split
    · exact .leave _ _
    · exact .leave _ _
  | addOutages series ids => exact .leave _ _
  | addIgnoreLimits series => exact .leave _ _

private theorem isPrimaryKey_iff : isPrimaryKey c k = true ↔ ∃ q ∈ Quantity.primary c, k.driven = .builtin q := by
  rw [isPrimaryKey]
  cases k.driven with
  | builtin q => simp [Variable.quantity?, Quantity.isPrimary]
  | extension family name => simp [Variable.quantity?]

/-- A key on a primary quantity of the category is bound for the equipment. -/
def Served (c : Category) (b : Bindings) (id : String) : Prop :=
  ∃ k, b.isBound k = true ∧ k.id = id ∧ ∃ q ∈ Quantity.primary c, k.driven = .builtin q

private theorem not_served_empty : ¬ Served c .empty id := by
  rintro ⟨k, hbound, _⟩
  cases hbound

/-- What is served is a matter of the bindings alone. -/
theorem Served.congr (hr : b'.reverse = b.reverse) : Served c b' id ↔ Served c b id := by
  unfold Served Bindings.isBound
  rw [hr]

private theorem served_linkIn :
    Served c (linkIn c series k b) id ↔ (isPrimaryKey c k = true ∧ id = k.id) ∨ Served c b id := by
  simp only [Served, isBound_linkIn, isPrimaryKey_iff]
  constructor
  · rintro ⟨l, rfl | hl, hid, hprimary⟩
    · exact .inl ⟨hprimary, hid.symm⟩
    · exact .inr ⟨l, hl, hid, hprimary⟩
  · rintro (⟨hprimary, rfl⟩ | ⟨l, hl, hid, hprimary⟩)
    · exact ⟨k, .inl rfl, rfl, hprimary⟩
    · exact ⟨l, .inr hl, hid, hprimary⟩

/-- The unmapped ids are those of a list that are not served. -/
def Tracks (c : Category) (listed : String → Prop) (b : Bindings) : Prop :=
  ∀ id, id ∈ b.unmapped ↔ listed id ∧ ¬ Served c b id

/-- What leaves the unmapped ids and the bindings as they are leaves them tracked. -/
theorem Tracks.congr (h : Tracks c listed b) (hu : b'.unmapped = b.unmapped) (hr : b'.reverse = b.reverse) :
    Tracks c listed b' := by
  intro id
  rw [hu, Served.congr hr]
  exact h id

/-- A binding removes the one id that it newly serves; one that was there already changes nothing. -/
theorem Tracks.linkIn (h : Tracks c listed b) (series : String) (k : Key) :
    Tracks c listed (Mapping.linkIn c series k b) := by
  by_cases hmem : series ∈ b.seriesFor k
  · rwa [Mapping.linkIn, if_pos hmem]
  · intro id
    rw [unmapped_linkIn, served_linkIn]
    by_cases hprimary : isPrimaryKey c k = true
    · rw [if_pos ⟨hmem, hprimary⟩, SortedSet.mem_erase, h id]
      simp only [hprimary, true_and, not_or, ne_eq]
      exact and_assoc.trans (and_congr_right' and_comm)
    · rw [if_neg fun hnew => hprimary hnew.2, h id]
      simp [hprimary]

/-- A change keeps the unmapped ids tracked unless it marks one. -/
theorem Tracks.edit (h : Tracks c listed b) (hedit : Edit c ch b b') (hmark : ∀ id, ch ≠ .markUnmapped c id) :
    Tracks c listed b' := by
  cases hedit with
  | leave => exact h
  | link series k w => exact h.linkIn series k
  | unmapped id => exact absurd rfl (hmark id)
  | ignoredUnmapped => exact h.congr rfl rfl
  | disconnected => exact h.congr rfl rfl
  | outsideMain => exact h.congr rfl rfl
  | declared => exact h.congr rfl rfl

private theorem Edit.disconnected_eq (h : Edit c ch b b') (hmark : ∀ id, ch ≠ .markDisconnected c id) :
    b'.disconnected = b.disconnected := by
  cases h with
  | link series k w => exact (sets_linkIn b c series k).2.2.1
  | disconnected id => exact absurd rfl (hmark id)
  | _ => rfl

private theorem Edit.outsideMain_eq (h : Edit c ch b b') (hmark : ∀ id, ch ≠ .markOutsideMain c id) :
    b'.outsideMain = b.outsideMain := by
  cases h with
  | link series k w => exact (sets_linkIn b c series k).2.2.2
  | outsideMain id => exact absurd rfl (hmark id)
  | _ => rfl

/-- What every change but a mark keeps of the bindings of a category, a history without that mark keeps. -/
theorem category_afterAll {P : Bindings → Prop} {mark : String → Change} {history : List Change}
    (hmark : ∀ id, ¬ mark id ∈ history) (h : P (m.category c))
    (hedit : ∀ {ch b b'}, P b → Edit c ch b b' → (∀ id, ch ≠ mark id) → P b') :
    P ((m.afterAll history).category c) := by
  induction history generalizing m with
  | nil => exact h
  | cons ch rest ih =>
    have hch (id : String) : ch ≠ mark id := fun heq => hmark id (heq ▸ List.mem_cons_self)
    exact ih (fun id hid => hmark id (List.mem_cons_of_mem ch hid)) (hedit h (edit_after m ch c) hch)

private theorem disconnected_afterAll {history : List Change} (hmark : ∀ id, ¬ Change.markDisconnected c id ∈ history) :
    ((m.afterAll history).category c).disconnected = (m.category c).disconnected :=
  category_afterAll (P := fun b => b.disconnected = (m.category c).disconnected) hmark rfl
    fun h hedit hch => (hedit.disconnected_eq hch).trans h

private theorem outsideMain_afterAll {history : List Change} (hmark : ∀ id, ¬ Change.markOutsideMain c id ∈ history) :
    ((m.afterAll history).category c).outsideMain = (m.category c).outsideMain :=
  category_afterAll (P := fun b => b.outsideMain = (m.category c).outsideMain) hmark rfl
    fun h hedit hch => (hedit.outsideMain_eq hch).trans h

/-- From the catalog of a network on, and whatever is done in between: as long as no equipment of a category is marked
as unmapped, the unmapped ids of the category are those it lists on the main network for which no primary quantity is
bound. As long as none is marked as disconnected, or as outside the main network, these are the ids listed so. -/
theorem equipment_tracked (catalog : Catalog) (history : List Change) (c : Category) :
    ((∀ id, ¬ Change.markUnmapped c id ∈ history) → ∀ id,
      id ∈ (((ofCatalog catalog).afterAll history).category c).unmapped ↔
        (id, .main) ∈ catalog.equipment c ∧ ¬ Served c (((ofCatalog catalog).afterAll history).category c) id) ∧
    ((∀ id, ¬ Change.markDisconnected c id ∈ history) → ∀ id,
      id ∈ (((ofCatalog catalog).afterAll history).category c).disconnected ↔
        (id, .disconnected) ∈ catalog.equipment c) ∧
    ((∀ id, ¬ Change.markOutsideMain c id ∈ history) → ∀ id,
      id ∈ (((ofCatalog catalog).afterAll history).category c).outsideMain ↔
        (id, .outsideMain) ∈ catalog.equipment c) := by
  have hfiled (connection : Connection) (id : String) :
      id ∈ ((ofCatalog catalog).category c).filed connection ↔ (id, connection) ∈ catalog.equipment c :=
    mem_filed_ofEquipment
  have hreverse : ((ofCatalog catalog).category c).reverse = Bindings.empty.reverse := by
    have hsame := (sameBindings_start (.network catalog.equipment)).reverse c
    rwa [category, category, empty, PerCategory.get_replicate] at hsame
  -- at the start nothing is served, so all equipment on the main network is unmapped
  have htracks : Tracks c (fun id => (id, .main) ∈ catalog.equipment c) ((ofCatalog catalog).category c) := by
    intro id
    have hnone : ¬ Served c ((ofCatalog catalog).category c) id := fun h =>
      not_served_empty ((Served.congr hreverse).1 h)
    rw [and_iff_left hnone, ← Bindings.filed_main]
    exact hfiled .main id
  refine ⟨fun hmark => ?_, fun hmark id => ?_, fun hmark id => ?_⟩
  · exact category_afterAll hmark htracks Tracks.edit
  · rw [disconnected_afterAll hmark, ← Bindings.filed_disconnected]
    exact hfiled .disconnected id
  · rw [outsideMain_afterAll hmark, ← Bindings.filed_outsideMain]
    exact hfiled .outsideMain id

/-- A network with two loads and a generator on the main network, and a load apart from it. -/
def village : Catalog :=
  ((((Catalog.empty.add .load "L1" .main).add .load "L2" .main).add .load "L3" .disconnected).add
    .generator "G1" .main)

/-- Both parts of one load are bound, the second of them twice; its total and a series without a name are refused. The
other load is bound on a quantity that is not a primary one, and excused. -/
def villageHistory : List Change :=
  [.bind .load "flat" fixedPart none, .bind .load "swing" variablePart none, .bind .load "swing" variablePart none,
    .bind .load "all" (fixedPart.withQuantity .p0) none, .bind .load "" variablePart none,
    .bind .load "reactive" ⟨.builtin .q0, "L2", by decide, rfl⟩ none, .markIgnoredUnmapped .load "L2"]

/-- The load with both parts bound is not unmapped, the excused one is not served, and the one apart is disconnected and
nothing else. -/
theorem village_tracked :
    ¬ "L1" ∈ (((ofCatalog village).afterAll villageHistory).category .load).unmapped ∧
      ¬ Served .load (((ofCatalog village).afterAll villageHistory).category .load) "L2" ∧
      "L3" ∈ (((ofCatalog village).afterAll villageHistory).category .load).disconnected ∧
      ¬ "L3" ∈ (((ofCatalog village).afterAll villageHistory).category .load).outsideMain := by
  obtain ⟨hunmapped, hdisconnected, houtside⟩ := equipment_tracked village villageHistory .load
  have hserved : Served .load (((ofCatalog village).afterAll villageHistory).category .load) "L1" :=
    ⟨fixedPart, by decide +kernel, rfl, .fixedActivePower, by decide, rfl⟩
  refine ⟨fun hmem => ?_, ?_, ?_, fun hmem => ?_⟩
  · exact ((hunmapped (by simp [villageHistory]) "L1").1 hmem).2 hserved
  · exact ((hunmapped (by simp [villageHistory]) "L2").1 (by decide +kernel)).2
  · exact (hdisconnected (by simp [villageHistory]) "L3").2 (by decide +kernel)
  · exact absurd ((houtside (by simp [villageHistory]) "L3").1 hmem) (by decide +kernel)

end Mapping
end GridSeries
