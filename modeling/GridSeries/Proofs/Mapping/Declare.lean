import GridSeries.Proofs.Mapping.Integrity
import GridSeries.Proofs.Refusal

/-! Declarations. The variables of a declaration are taken in turn, and each is declared before the next one is looked
at. A declaration that is refused therefore keeps the keys of the variables that come before the refused one; it is all
or nothing just where every variable suits or already the first does not. -/
namespace GridSeries.Mapping

variable {m n p : Mapping} {c : Category} {id : String} {v : Variable} {vs : List Variable} {f : Fault}

/-- The variables that a declaration is about: those named, else the primary ones of the category. -/
def declaredVariables (c : Category) (named : List Variable) : List Variable :=
  if named.isEmpty then (Quantity.primary c).map .builtin else named

/-- The category takes the variable, which makes a key with the id. -/
structure Declarable (c : Category) (id : String) (v : Variable) : Prop where
  fits : v.fits c = true
  visible : Text.isBlank id = false
  named : v.isNamed = true

/-- Why a variable is not declared: of all that is wrong with it, what is looked at first. -/
inductive DeclareRefusal (c : Category) (id : String) (v : Variable) : Fault → Prop
  | incompatible (hfits : v.fits c = false) : DeclareRefusal c id v (.incompatible c v)
  | blank (hfits : v.fits c = true) (hid : Text.isBlank id = true) : DeclareRefusal c id v (.key (.blankId v))
  | unnamed (hfits : v.fits c = true) (hid : Text.isBlank id = false) (hv : v.isNamed = false) :
      DeclareRefusal c id v (.key (.unnamedVariable id))

/-- The declared keys of a category gain the keys of an id on some variables, and nothing else changes. -/
def Gains (m : Mapping) (c : Category) (id : String) (vs : List Variable) (n : Mapping) : Prop :=
  ∃ keys, n = m.modifyCategory c (fun b => { b with declared := keys }) ∧
    ∀ k, k ∈ keys ↔ k ∈ (m.category c).declared ∨ k.id = id ∧ k.driven ∈ vs

private theorem modifyCategory_congr {g h : Bindings → Bindings} (hgh : g (m.category c) = h (m.category c)) :
    m.modifyCategory c g = m.modifyCategory c h :=
  congrArg (fun b => { m with categories := m.categories.set c b }) hgh

private theorem modifyCategory_modifyCategory (m : Mapping) (c : Category) (g h : Bindings → Bindings) :
    (m.modifyCategory c g).modifyCategory c h = m.modifyCategory c fun b => h (g b) := by
  have hcategories : (m.categories.modify c g).modify c h = m.categories.modify c fun b => h (g b) := by
    refine PerCategory.eq_of_get_eq fun d => ?_
    simp only [PerCategory.get_modify]
    split
    · rfl
    · rfl
  exact congrArg (fun t => { m with categories := t }) hcategories

private theorem modifyCategory_self (m : Mapping) (c : Category) : m.modifyCategory c (fun b => b) = m := by
  have hcategories : m.categories.modify c (fun b => b) = m.categories := by
    refine PerCategory.eq_of_get_eq fun d => ?_
    rw [PerCategory.get_modify, ite_self]
  exact congrArg (fun t => { m with categories := t }) hcategories

/-- The declared keys are those before and those of the variables for the id. -/
theorem Gains.mem_iff (h : m.Gains c id vs n) {k : Key} :
    k ∈ (n.category c).declared ↔ k ∈ (m.category c).declared ∨ k.id = id ∧ k.driven ∈ vs := by
  obtain ⟨keys, rfl, hkeys⟩ := h
  rw [category_modifyCategory, if_pos rfl]
  exact hkeys k

private theorem gains_nil_iff : m.Gains c id [] n ↔ n = m := by
  have hself : m.modifyCategory c (fun b => { b with declared := (m.category c).declared }) = m :=
    (modifyCategory_congr rfl).trans (modifyCategory_self m c)
  constructor
  · rintro ⟨keys, rfl, hkeys⟩
    have hsame : keys = (m.category c).declared := by
      refine SortedSet.eq_of_mem_iff fun k => ?_
      rw [hkeys, or_iff_left fun hk => List.not_mem_nil hk.2]
    rw [hsame, hself]
  · rintro rfl
    exact ⟨_, hself.symm, fun k => (or_iff_left fun hk => List.not_mem_nil hk.2).symm⟩

/-- What is gained variable by variable is gained in all. -/
theorem gains_cons_iff (h : m.Gains c id [v] p) : m.Gains c id (v :: vs) n ↔ p.Gains c id vs n := by
  have hp : ∀ k, k ∈ (p.category c).declared ↔ k ∈ (m.category c).declared ∨ k.id = id ∧ k.driven ∈ [v] :=
    fun k => h.mem_iff
  obtain ⟨first, rfl, -⟩ := h
  refine exists_congr fun keys => and_congr ?_ (forall_congr' fun k => ?_)
  · rw [modifyCategory_modifyCategory]
  · rw [hp, or_assoc, ← and_or_left, List.mem_singleton, List.mem_cons]

private theorem gains_insert (m : Mapping) (c : Category) (k : Key) :
    m.Gains c k.id [k.driven] (m.modifyCategory c fun b => { b with declared := b.declared.insert k }) := by
  refine ⟨(m.category c).declared.insert k, modifyCategory_congr rfl, fun l => ?_⟩
  rw [SortedSet.mem_insert, List.mem_singleton, or_comm]
  refine or_congr_right ⟨?_, fun hl => Key.eq_of_parts hl.2 hl.1⟩
  rintro rfl
  exact ⟨rfl, rfl⟩

private theorem DeclareRefusal.not_declarable (h : DeclareRefusal c id v f) : ¬ Declarable c id v := by
  intro hv
  cases h with
  | incompatible hfits => exact absurd hv.fits (by rw [hfits]; decide)
  | blank _ hid => exact absurd hv.visible (by rw [hid]; decide)
  | unnamed _ _ hnamed => exact absurd hv.named (by rw [hnamed]; decide)

private theorem declarable_or_refused (c : Category) (id : String) (v : Variable) :
    Declarable c id v ∨ ∃ f, DeclareRefusal c id v f := by
  cases hfits : v.fits c with
  | false => exact .inr ⟨_, .incompatible hfits⟩
  | true =>
    cases hid : Text.isBlank id with
    | true => exact .inr ⟨_, .blank hfits hid⟩
    | false =>
      cases hv : v.isNamed with
      | false => exact .inr ⟨_, .unnamed hfits hid hv⟩
      | true => exact .inl ⟨hfits, hid, hv⟩

private theorem apply_declareOne (hv : Declarable c id v) (m : Mapping) :
    ∃ p, (declareOne c id v).apply m = (.ok (), p) ∧ m.Gains c id [v] p := by
  refine ⟨_, ?_, gains_insert m c ⟨v, id, hv.visible, hv.named⟩⟩
  rw [declareOne, hv.fits, Key.make, dif_neg (by rw [hv.visible]; decide), dif_pos hv.named]
  rfl

private theorem apply_declareOne_of_refusal (h : DeclareRefusal c id v f) (m : Mapping) :
    (declareOne c id v).apply m = (.error f, m) := by
  rw [declareOne]
  cases h with
  | incompatible hfits =>
    rw [hfits]
    rfl
  | blank hfits hid =>
    rw [hfits, Key.make, dif_pos hid]
    rfl
  | unnamed hfits hid hv =>
    rw [hfits, Key.make, dif_neg (by rw [hid]; decide), dif_neg (by rw [hv]; decide)]
    rfl

/-- There is one reason to refuse a variable. -/
theorem DeclareRefusal.unique {g : Fault} (h : DeclareRefusal c id v f) (h' : DeclareRefusal c id v g) : f = g := by
  have hsame := (apply_declareOne_of_refusal h .empty).symm.trans (apply_declareOne_of_refusal h' .empty)
  exact Except.error.inj (Prod.mk.inj hsame).1

private theorem apply_declareAll_cons (c : Category) (id : String) (v : Variable) (vs : List Variable) (m : Mapping) :
    ((v :: vs).forM (declareOne c id)).apply m =
      match (declareOne c id v).apply m with
      | (.ok _, p) => (vs.forM (declareOne c id)).apply p
      | (.error f, p) => (.error f, p) := by
  rw [List.forM_eq_forM, List.forM_cons, Update.apply_bind]
  rcases (declareOne c id v).apply m with ⟨answer, p⟩
  cases answer with
  | ok u => rfl
  | error f => rfl

private theorem declareAll_eq_ok_iff :
    (vs.forM (declareOne c id)).apply m = (.ok (), n) ↔ (∀ v ∈ vs, Declarable c id v) ∧ m.Gains c id vs n := by
  induction vs generalizing m with
  | nil =>
    rw [gains_nil_iff, and_iff_right fun v hv => absurd hv List.not_mem_nil, eq_comm (a := n)]
    exact ⟨fun h => (Prod.mk.inj h).2, fun h => congrArg (Prod.mk _) h⟩
  | cons v vs ih =>
    rw [apply_declareAll_cons, List.forall_mem_cons]
    rcases declarable_or_refused c id v with hv | ⟨f, hv⟩
    · obtain ⟨p, happly, hp⟩ := apply_declareOne hv m
      rw [happly, gains_cons_iff hp, and_iff_right hv]
      exact ih
    · rw [apply_declareOne_of_refusal hv]
      exact iff_of_false (fun h => nomatch (Prod.mk.inj h).1) fun h => hv.not_declarable h.1.1

/-- A refused list of variables was declared up to the variable that it is refused for. -/
theorem declareAll_eq_error_iff :
    (vs.forM (declareOne c id)).apply m = (.error f, n) ↔
      ∃ before v after, vs = before ++ v :: after ∧ (∀ w ∈ before, Declarable c id w) ∧
        DeclareRefusal c id v f ∧ m.Gains c id before n := by
  induction vs generalizing m with
  | nil => exact iff_of_false Update.answered_ne_refused fun ⟨before, v, after, h, _⟩ => by simp at h
  | cons v vs ih =>
    rw [apply_declareAll_cons]
    rcases declarable_or_refused c id v with hv | ⟨g, hv⟩
    · obtain ⟨p, happly, hp⟩ := apply_declareOne hv m
      rw [happly]
      refine ih.trans ⟨?_, ?_⟩
      · rintro ⟨before, w, after, rfl, hbefore, hw, hgains⟩
        exact ⟨v :: before, w, after, rfl, List.forall_mem_cons.2 ⟨hv, hbefore⟩, hw, (gains_cons_iff hp).2 hgains⟩
      · rintro ⟨before, w, after, hvs, hbefore, hw, hgains⟩
        cases before with
        | nil =>
          cases hvs
          exact absurd hv hw.not_declarable
        | cons u before =>
          cases hvs
          exact ⟨before, w, after, rfl, (List.forall_mem_cons.1 hbefore).2, hw, (gains_cons_iff hp).1 hgains⟩
    · rw [apply_declareOne_of_refusal hv]
      constructor
      · intro h
        cases h
        exact ⟨[], v, vs, rfl, fun w hw => absurd hw List.not_mem_nil, hv, gains_nil_iff.2 rfl⟩
      · rintro ⟨before, w, after, hvs, hbefore, hw, hgains⟩
        cases before with
        | nil =>
          cases hvs
          rw [gains_nil_iff.1 hgains, hv.unique hw]
        | cons u before =>
          cases hvs
          exact absurd (hbefore v List.mem_cons_self) hv.not_declarable

private theorem apply_declare (m : Mapping) (c : Category) (id : String) (named : List Variable) :
    (declare c id named).apply m =
      if declaredVariables c named = [] then (.error (.config (.noDefaultVariable c id)), m)
      else ((declaredVariables c named).forM (declareOne c id)).apply m := by
  rw [declare, ← declaredVariables]
  cases declaredVariables c named with
  | nil => rfl
  | cons v vs => rfl

private theorem declare_eq_ok_iff {named : List Variable} :
    (declare c id named).apply m = (.ok (), n) ↔
      declaredVariables c named ≠ [] ∧ (∀ v ∈ declaredVariables c named, Declarable c id v) ∧
        m.Gains c id (declaredVariables c named) n := by
  rw [apply_declare]
  by_cases hnone : declaredVariables c named = []
  · rw [if_pos hnone]
    exact iff_of_false (fun h => nomatch (Prod.mk.inj h).1) fun h => h.1 hnone
  · rw [if_neg hnone, and_iff_right hnone]
    exact declareAll_eq_ok_iff

private theorem declare_eq_error_iff {named : List Variable} :
    (declare c id named).apply m = (.error f, n) ↔
      (declaredVariables c named = [] ∧ f = .config (.noDefaultVariable c id) ∧ n = m) ∨
        ∃ before v after, declaredVariables c named = before ++ v :: after ∧ (∀ w ∈ before, Declarable c id w) ∧
          DeclareRefusal c id v f ∧ m.Gains c id before n := by
  rw [apply_declare]
  by_cases hnone : declaredVariables c named = []
  · rw [if_pos hnone, Update.refused_eq_iff, and_comm (a := n = m), hnone]
    refine ⟨fun h => .inl ⟨rfl, h⟩, ?_⟩
    rintro (h | ⟨before, v, after, h, _⟩)
    · exact h.2
    · simp at h
  · rw [if_neg hnone, or_iff_right fun h => hnone h.1]
    exact declareAll_eq_error_iff

/-- A declaration is all or nothing, for every mapping, when each of its variables suits or the first does not. -/
theorem atomic_declare_iff {named : List Variable} :
    (declare c id named).Atomic ↔
      (∀ v ∈ declaredVariables c named, Declarable c id v) ∨
        ∀ v ∈ (declaredVariables c named).head?, ¬ Declarable c id v := by
  constructor
  · intro hatomic
    rcases hanswer : (declare c id named).apply .empty with ⟨answer, n⟩
    cases answer with
    | ok u => exact .inl (declare_eq_ok_iff.1 hanswer).2.1
    | error f =>
      have hkept : n = .empty := hatomic .empty f n hanswer
      subst hkept
      rcases declare_eq_error_iff.1 hanswer with ⟨hnone, _⟩ | ⟨before, v, after, hvs, hbefore, hv, hgains⟩
      · exact .inl fun v hv => absurd (hnone ▸ hv) List.not_mem_nil
      · cases before with
        | nil =>
          refine .inr fun w hw => ?_
          rw [hvs] at hw
          cases hw
          exact hv.not_declarable
        | cons w before =>
          -- a later refusal would leave the first key behind in the empty mapping
          have hw := hbefore w List.mem_cons_self
          have hgained : (⟨w, id, hw.visible, hw.named⟩ : Key) ∈ (empty.category c).declared :=
            hgains.mem_iff.2 (.inr ⟨rfl, List.mem_cons_self⟩)
          rw [category, empty, PerCategory.get_replicate] at hgained
          exact absurd hgained (SortedSet.not_mem_empty _)
  · rintro (hall | hfirst) m f n hanswer
    · rcases declare_eq_error_iff.1 hanswer with ⟨_, _, hn⟩ | ⟨before, v, after, hvs, _, hv, _⟩
      · exact hn
      · exact absurd (hall v (by rw [hvs]; simp)) hv.not_declarable
    · rcases declare_eq_error_iff.1 hanswer with ⟨_, _, hn⟩ | ⟨before, v, after, hvs, hbefore, hv, hgains⟩
      · exact hn
      · cases before with
        | nil => exact gains_nil_iff.1 hgains
        | cons w before =>
          exact absurd (hbefore w List.mem_cons_self) (hfirst w (by rw [hvs]; rfl))

/-- The primary variables of a category suit every id that shows something. -/
theorem atomic_declare_primary (c : Category) (id : String) : (declare c id []).Atomic := by
  refine atomic_declare_iff.2 ?_
  cases hid : Text.isBlank id with
  | true =>
    exact .inr fun v _ hv => absurd hv.visible (by rw [hid]; decide)
  | false =>
    refine .inl fun v hv => ?_
    obtain ⟨q, hq, rfl⟩ := List.mem_map.1 (hv : v ∈ (Quantity.primary c).map .builtin)
    exact ⟨Quantity.fits_of_isPrimary (List.contains_iff_mem.2 hq), hid, rfl⟩

/-- A declaration that succeeds adds the keys of the id on exactly its variables, each of which suits; one that is
refused adds those of the variables before the first that does not suit, and is refused for that one. In either case
nothing else changes. So it is all or nothing, for every mapping, just when each variable suits or already the first
does not; it is when no variable is named. -/
theorem declarations_in_turn (c : Category) (id : String) (named : List Variable) :
    (∀ m n : Mapping, (declare c id named).apply m = (.ok (), n) ↔
      declaredVariables c named ≠ [] ∧ (∀ v ∈ declaredVariables c named, Declarable c id v) ∧
        m.Gains c id (declaredVariables c named) n) ∧
    (∀ (m n : Mapping) f, (declare c id named).apply m = (.error f, n) ↔
      (declaredVariables c named = [] ∧ f = .config (.noDefaultVariable c id) ∧ n = m) ∨
        ∃ before v after, declaredVariables c named = before ++ v :: after ∧ (∀ w ∈ before, Declarable c id w) ∧
          DeclareRefusal c id v f ∧ m.Gains c id before n) ∧
    ((declare c id named).Atomic ↔
      (∀ v ∈ declaredVariables c named, Declarable c id v) ∨
        ∀ v ∈ (declaredVariables c named).head?, ¬ Declarable c id v) ∧
    (declare c id []).Atomic :=
  ⟨fun _ _ => declare_eq_ok_iff, fun _ _ _ => declare_eq_error_iff, atomic_declare_iff, atomic_declare_primary c id⟩

/-- Of two variables of a generator the second is one of loads only: the declaration is refused, and the first stays
declared. -/
theorem refused_declaration_kept :
    ¬ ∀ (m : Mapping) (c : Category) (id : String) (named : List Variable),
      (∃ n, (declare c id named).apply m = (.ok (), n) ∧ m.Gains c id (declaredVariables c named) n) ∨
        ∃ f, (declare c id named).apply m = (.error f, m) := by
  intro hclaim
  have hrefused : (declare .generator "G1" [.builtin .targetP, .builtin .p0]).apply empty =
      (.error (.incompatible .generator (.builtin .p0)), empty.modifyCategory .generator fun b =>
        { b with declared := b.declared.insert generatorKey }) := rfl
  rcases hclaim empty .generator "G1" [.builtin .targetP, .builtin .p0] with ⟨n, hn, _⟩ | ⟨f, hf⟩
  · rw [hrefused] at hn
    cases (Prod.mk.inj hn).1
  · rw [hrefused] at hf
    have hkept := congrArg (fun m => (m.category .generator).declared.isEmpty) (Prod.mk.inj hf).2
    exact absurd hkept (by decide +kernel)

end GridSeries.Mapping
