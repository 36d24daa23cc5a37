import GridSeries.Proofs.Mapping.Sound
import GridSeries.Proofs.Sorted

/-! The formulas of a document. In whatever order definitions are added one by one, they are all accepted exactly when
they have no cycle; and a document is accepted with its formulas exactly when it is without them and they have none. -/
namespace GridSeries.Document
open Relation (TransGen)

/-- Adding some of a set of definitions ends with all of them, or at one that lies on a cycle of the set. -/
theorem foldlM_define {defs : Definitions} {l : List (String × Formula)} (hl : ∀ e ∈ l, e ∈ defs.entries)
    (before : Definitions) (hb : ∀ d ∈ before.entries, d ∈ defs.entries) :
    l.foldlM define before = .ok (before.insertAll l) ∨
      ∃ name, TransGen defs.Refers name name ∧ l.foldlM define before = .error (.cycle name) := by
  induction l generalizing before with
  | nil => exact .inl rfl
  | cons e rest ih =>
    have he := hl e List.mem_cons_self
    rw [List.foldlM_cons, define]
    cases hc : before.wouldCycle e.1 e.2 with
    | true => exact .inr ⟨e.1, Definitions.cycle_of_wouldCycle hb he hc, rfl⟩
    | false =>
      refine ih (fun d hd => hl d (List.mem_cons_of_mem e hd)) (before.insert e.1 e.2) fun d hd => ?_
      rcases SortedMap.of_mem_place hd with rfl | hd
      · exact he
      · exact hb d hd

/-- Definitions are accepted in every order or in none. -/
theorem foldlM_define_of_perm {defs : Definitions} {l : List (String × Formula)} (h : l.Perm defs.entries) :
    (l.foldlM define ∅ = .ok defs ∧ defs.Acyclic) ∨
      ∃ name, TransGen defs.Refers name name ∧ l.foldlM define ∅ = .error (.cycle name) := by
  have hends := foldlM_define (fun e he => h.mem_iff.1 he) ∅ fun d hd => nomatch hd
  rw [← SortedMap.ofList, SortedMap.ofList_eq_of_perm h] at hends
  rcases hends with hok | hcycle
  · exact .inl ⟨hok, Outcome.foldlM_preserves Mapping.acyclic_of_define Definitions.acyclic_empty hok⟩
  · exact .inr hcycle

/-- The fields of a document apart from its formulas. -/
def withoutFormulas (fields : List (String × Json)) : List (String × Json) :=
  fields.filter fun f => decide (f.1 ≠ formulasField)

private theorem field?_withoutFormulas (fields : List (String × Json)) (name : String) :
    Json.field? name (withoutFormulas fields) = if name = formulasField then none else Json.field? name fields := by
  rw [withoutFormulas]
  induction fields with
  | nil =>
    split
    · rfl
    · rfl
  | cons f rest ih =>
    rw [List.filter_cons]
    by_cases hf : f.1 = formulasField
    · rw [if_neg (by simp [hf]), ih]
      split
      · rfl
      · rename_i hname
        rw [Json.field?, if_neg fun heq => hname (heq.symm.trans hf)]
    · rw [if_pos (by simp [hf]), Json.field?, Json.field?, ih]
      by_cases hname : f.1 = name
      · rw [if_pos hname, if_pos hname, if_neg (hname ▸ hf)]
      · rw [if_neg hname, if_neg hname]

section Sections

variable {α : Type} (r : Registry) (fields : List (String × Json))

private theorem optional_withoutFormulas {name : String} (h : name ≠ formulasField) (missing : α)
    (read : Json → Except Fault α) :
    optional (withoutFormulas fields) name missing read = optional fields name missing read := by
  rw [optional, optional, field?_withoutFormulas, if_neg h]

private theorem checkFields_withoutFormulas : checkFields (withoutFormulas fields) = checkFields fields := by
  have hfind : (withoutFormulas fields).find? (fun f => !fieldNames.contains f.1) =
      fields.find? fun f => !fieldNames.contains f.1 := by
    have hknown : fieldNames.contains formulasField = true := by decide
    rw [withoutFormulas, List.find?_filter]
    congr 1
    funext f
    by_cases hf : f.1 = formulasField
    · rw [hf, hknown]
      rfl
    · simp [hf]
  have hversion : versionOf? (withoutFormulas fields) = versionOf? fields := by
    have hne : versionField ≠ formulasField := by decide
    rw [versionOf?, versionOf?, field?_withoutFormulas, if_neg hne]
  rw [checkFields, checkFields, hfind, hversion]

private theorem readCategory_withoutFormulas (c : Category) :
    readCategory r (withoutFormulas fields) c = readCategory r fields c := by
  have hnames : ∀ c ∈ Category.all, ∀ name ∈ (sections c).toList, name ≠ formulasField := by decide +kernel
  have hne := hnames c (Category.mem_all c)
  simp only [Sections.toList, List.forall_mem_cons, List.not_mem_nil, false_implies, implies_true, and_true] at hne
  obtain ⟨h₁, h₂, h₃, h₄, h₅, h₆, h₇⟩ := hne
  simp only [readCategory, optional_withoutFormulas fields h₁, optional_withoutFormulas fields h₂,
    optional_withoutFormulas fields h₃, optional_withoutFormulas fields h₄, optional_withoutFormulas fields h₅,
    optional_withoutFormulas fields h₆, optional_withoutFormulas fields h₇]

private theorem readCategories_withoutFormulas :
    readCategories r (withoutFormulas fields) = readCategories r fields := by
  simp only [readCategories, readCategory_withoutFormulas]

variable {r fields}

private theorem Holds.withoutFormulas {m : Mapping} (h : Holds r fields m) :
    Holds r (withoutFormulas fields) { m with formulas := ∅ } where
  names := (checkFields_withoutFormulas fields).trans h.names
  categories := (readCategories_withoutFormulas r fields).trans h.categories
  weights := (optional_withoutFormulas fields (by decide) _ _).trans h.weights
  formulas := by rw [optional, field?_withoutFormulas, if_pos rfl]
  boundSeries := (optional_withoutFormulas fields (by decide) _ _).trans h.boundSeries
  ignoreLimits := (optional_withoutFormulas fields (by decide) _ _).trans h.ignoreLimits
  outages := (optional_withoutFormulas fields (by decide) _ _).trans h.outages
  index := h.index

private theorem Holds.withFormulas {n : Mapping} (h : Holds r (Document.withoutFormulas fields) n) {defs : Definitions}
    (hdefs : optional fields formulasField ∅ readFormulas = .ok defs) : Holds r fields { n with formulas := defs } where
  names := (checkFields_withoutFormulas fields).symm.trans h.names
  categories := (readCategories_withoutFormulas r fields).symm.trans h.categories
  weights := (optional_withoutFormulas fields (by decide) _ _).symm.trans h.weights
  formulas := hdefs
  boundSeries := (optional_withoutFormulas fields (by decide) _ _).symm.trans h.boundSeries
  ignoreLimits := (optional_withoutFormulas fields (by decide) _ _).symm.trans h.ignoreLimits
  outages := (optional_withoutFormulas fields (by decide) _ _).symm.trans h.outages
  index := h.index

end Sections

variable {r : Registry} {fields nodes : List (String × Json)} {formulas : List (String × Formula)}

private theorem readFormulas_object (h : nodes.mapM readFormula = .ok formulas) :
    readFormulas (.object nodes) = (SortedMap.ofList formulas).entries.foldlM define ∅ := by
  change (nodes.mapM readFormula).bind _ = _
  rw [h]
  rfl

/-- A document that is accepted but for its formulas is accepted with them, or refused for a name on a cycle. -/
theorem read_of_withoutFormulas {n : Mapping} (hsection : Json.field? formulasField fields = some (.object nodes))
    (hnodes : nodes.mapM readFormula = .ok formulas) (hn : read r (.object (withoutFormulas fields)) = .ok n) :
    (read r (.object fields) = .ok { n with formulas := .ofList formulas } ∧
        Definitions.Acyclic (.ofList formulas)) ∨
      ∃ name, TransGen (Definitions.Refers (.ofList formulas)) name name ∧
        read r (.object fields) = .error (.cycle name) := by
  obtain ⟨_, hfields, hrest⟩ := read_eq_ok_iff.1 hn
  cases hfields
  have hread : optional fields formulasField ∅ readFormulas =
      (SortedMap.ofList formulas).entries.foldlM define ∅ := by
    rw [optional, hsection]
    exact readFormulas_object hnodes
  rcases foldlM_define_of_perm (List.Perm.refl (SortedMap.ofList formulas).entries) with
    ⟨hok, hacyclic⟩ | ⟨name, hcycle, herror⟩
  · exact .inl ⟨read_eq_ok_iff.2 ⟨fields, rfl, hrest.withFormulas (hread.trans hok)⟩, hacyclic⟩
  · refine .inr ⟨name, hcycle, ?_⟩
    -- what is read before the formulas is read as it is without them
    have hnames := (checkFields_withoutFormulas fields).symm.trans hrest.names
    have hcategories := (readCategories_withoutFormulas r fields).symm.trans hrest.categories
    have hweights := (optional_withoutFormulas fields (by decide) _ _).symm.trans hrest.weights
    simp only [read, fieldsOf, Outcome.ok_bind, hnames, hcategories, hweights, hread, herror, Outcome.error_bind]

/-- Formulas that are well formed are accepted exactly when they have no cycle. -/
theorem read_iff_acyclic (hsection : Json.field? formulasField fields = some (.object nodes))
    (hnodes : nodes.mapM readFormula = .ok formulas) :
    (∃ m, read r (.object fields) = .ok m) ↔
      (∃ n, read r (.object (withoutFormulas fields)) = .ok n) ∧ Definitions.Acyclic (.ofList formulas) := by
  constructor
  · rintro ⟨m, hm⟩
    obtain ⟨_, hfields, hholds⟩ := read_eq_ok_iff.1 hm
    cases hfields
    have hn : read r (.object (withoutFormulas fields)) = .ok { m with formulas := ∅ } :=
      read_eq_ok_iff.2 ⟨_, rfl, hholds.withoutFormulas⟩
    refine ⟨⟨_, hn⟩, ?_⟩
    rcases read_of_withoutFormulas hsection hnodes hn with ⟨_, hacyclic⟩ | ⟨name, _, herror⟩
    · exact hacyclic
    · rw [hm] at herror
      cases herror
  · rintro ⟨⟨n, hn⟩, hacyclic⟩
    rcases read_of_withoutFormulas hsection hnodes hn with ⟨hok, _⟩ | ⟨name, hcycle, _⟩
    · exact ⟨_, hok⟩
    · exact absurd hcycle (hacyclic name)

/-- In every run the formulas stay without a cycle, and a definition is refused exactly when it would close one, the
definition that it replaces left aside. Definitions are accepted one by one exactly when they have no cycle, in whatever
order, and so are the formulas of a document. -/
theorem formulas_acyclic_and_cycles_refused :
    (∀ (o : Mapping.Origin) (steps : List Mapping.Step),
      (o.mapping.run steps).formulas.Acyclic ∧
      ∀ (name : String) (f : Formula),
        ((Mapping.addFormula name f).apply (o.mapping.run steps) = (.error (.cycle name), o.mapping.run steps) ↔
          ¬ Definitions.Acyclic ((o.mapping.run steps).formulas.insert name f)) ∧
        ((Mapping.addFormula name f).apply (o.mapping.run steps) =
            (.ok (), { o.mapping.run steps with formulas := (o.mapping.run steps).formulas.insert name f }) ↔
          Definitions.Acyclic ((o.mapping.run steps).formulas.insert name f))) ∧
    (∀ (defs : Definitions) (l : List (String × Formula)), l.Perm defs.entries →
      (l.foldlM define ∅ = .ok defs ↔ defs.Acyclic) ∧
      ((∃ name, l.foldlM define ∅ = .error (.cycle name)) ↔ ¬ defs.Acyclic)) ∧
    ∀ (r : Registry) (fields nodes : List (String × Json)) (formulas : List (String × Formula)),
      Json.field? formulasField fields = some (.object nodes) → nodes.mapM readFormula = .ok formulas →
      ((∃ m, read r (.object fields) = .ok m) ↔
        (∃ n, read r (.object (withoutFormulas fields)) = .ok n) ∧ Definitions.Acyclic (.ofList formulas)) ∧
      ∀ n, read r (.object (withoutFormulas fields)) = .ok n →
        (read r (.object fields) = .ok { n with formulas := .ofList formulas } ↔
          Definitions.Acyclic (.ofList formulas)) ∧
        ((∃ name, read r (.object fields) = .error (.cycle name)) ↔ ¬ Definitions.Acyclic (.ofList formulas)) := by
  refine ⟨fun o steps => ?_, fun defs l hl => ?_, fun r fields nodes formulas hsection hnodes => ?_⟩
  · have hacyclic := Mapping.invariant_acyclic.run o steps
    exact ⟨hacyclic, fun name f =>
      ⟨Mapping.addFormula_eq_error_iff hacyclic, Mapping.addFormula_eq_ok_iff hacyclic⟩⟩
  · rcases foldlM_define_of_perm hl with ⟨hok, hacyclic⟩ | ⟨name, hcycle, herror⟩
    · rw [hok]
      simp [hacyclic]
    · have hcyclic : ¬ defs.Acyclic := fun h => h name hcycle
      rw [herror]
      simp [hcyclic]
  · refine ⟨read_iff_acyclic hsection hnodes, fun n hn => ?_⟩
    rcases read_of_withoutFormulas hsection hnodes hn with ⟨hok, hacyclic⟩ | ⟨name, hcycle, herror⟩
    · rw [hok]
      simp [hacyclic]
    · have hcyclic : ¬ Definitions.Acyclic (.ofList formulas) := fun h => h name hcycle
      rw [herror]
      simp [hcyclic]

def formulasOnly (formulas : List (String × Formula)) : List (String × Json) :=
  [(versionField, .ofNat DocumentFault.supportedVersion),
    (formulasField, .object (formulas.map fun e => (e.1, e.2.toJson)))]

/-- A series made from another, which is made from none. -/
def chain : List (String × Formula) :=
  [("distance", .unary .abs (.series "net")), ("net", .binary .sub (.series "sold") (.series "bought"))]

/-- Two series made from each other. -/
def loop : List (String × Formula) := [("distance", .unary .abs (.series "net")), ("net", .series "distance")]

/-- The chain is accepted, in either order and in a document; the loop is refused in a document, and so is the
definition that would turn a run with the chain into one with the loop. -/
theorem chain_accepted_and_loop_refused :
    chain.reverse.foldlM define ∅ = .ok (.ofList chain) ∧
      read .standard (.object (formulasOnly chain)) = .ok { Mapping.empty with formulas := .ofList chain } ∧
      (∃ name, read .standard (.object (formulasOnly loop)) = .error (.cycle name)) ∧
      ∃ m, m = Mapping.empty.run (chain.map fun e => .change (.addFormula e.1 e.2)) ∧
        (Mapping.addFormula "net" (.series "distance")).apply m = (.error (.cycle "net"), m) := by
  obtain ⟨hruns, horders, hdocuments⟩ := formulas_acyclic_and_cycles_refused
  have hchain : Definitions.Acyclic (.ofList chain) :=
    (Definitions.acyclic_empty.insert (by decide +kernel)).insert (by decide +kernel)
  have hloop : ¬ Definitions.Acyclic (.ofList loop) := by
    intro h
    have hthere : Definitions.Refers (.ofList loop) "distance" "net" := ⟨.unary .abs (.series "net"), rfl, by decide⟩
    have hback : Definitions.Refers (.ofList loop) "net" "distance" := ⟨.series "distance", rfl, by decide⟩
    exact h "distance" (.tail (.single hthere) hback)
  have hrest (formulas : List (String × Formula)) :
      read .standard (.object (withoutFormulas (formulasOnly formulas))) = .ok .empty := rfl
  refine ⟨?_, ?_, ?_, _, rfl, ?_⟩
  · exact (horders _ _ (List.reverse_perm chain)).1.2 hchain
  · exact ((hdocuments .standard _ _ chain rfl rfl).2 _ (hrest chain)).1.2 hchain
  · exact ((hdocuments .standard _ _ loop rfl rfl).2 _ (hrest loop)).2.2 hloop
  · exact ((hruns .empty _).2 _ _).1.2 hloop

end GridSeries.Document
