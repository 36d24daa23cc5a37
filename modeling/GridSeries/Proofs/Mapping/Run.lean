import GridSeries.Document.Read
import GridSeries.Mapping.Change

/-! Runs of a mapping: where it may start, what may be done to it, and the one induction by which a property is shown
of every mapping that a run can reach. -/
namespace GridSeries.Mapping

/-- Where a mapping may start: from nothing, from the equipment of a network, or from a document that was accepted. -/
inductive Origin where
  | empty
  | network (equipment : Category → List (String × Connection))
  | document (registry : Registry) (text : String) (m : Mapping) (accepted : Document.parse registry text = .ok m)

def Origin.mapping : Origin → Mapping
  | empty => .empty
  | network equipment => ofEquipment equipment
  | document _ _ m _ => m

/-- A step of a run: a change, refused or not, or a document that takes the place of the mapping. -/
inductive Step where
  | change (c : Change)
  | load (registry : Registry) (text : String)

/-- What a step leaves of a mapping; a document that is not accepted leaves it as it was. -/
def Step.after (m : Mapping) : Step → Mapping
  | change c => m.after c
  | load registry text =>
    match Document.parse registry text with
    | .ok n => n
    | .error _ => m

/-- What a run of steps leaves of a mapping. -/
def run (m : Mapping) (steps : List Step) : Mapping := steps.foldl Step.after m

/-- A binding is refused by its check or recorded. -/
theorem apply_bind (m : Mapping) (c : Category) (series : String) (k : Key) (w : Option Weight) :
    (Mapping.bind c series k w).apply m =
      match m.checkBind c series k w with
      | .ok _ => (.ok (), m.bound c series k w)
      | .error f => (.error f, m) := by
  rw [Mapping.bind]
  simp only [Update.apply_bind, Update.apply_get, Update.apply_ofExcept]
  cases m.checkBind c series k w with
  | ok u => rfl
  | error f => rfl

/-- A binding that is not admitted leaves the mapping as it is. -/
theorem after_bind (m : Mapping) (c : Category) (series : String) (k : Key) (w : Option Weight) :
    m.after (.bind c series k w) =
      match m.checkBind c series k w with
      | .ok _ => m.bound c series k w
      | .error _ => m := by
  rw [after, Update.after, Change.update, apply_bind]
  cases m.checkBind c series k w with
  | ok u => rfl
  | error f => rfl

/-- A definition is refused for a cycle or stands in place of the one its name had. -/
theorem apply_addFormula (m : Mapping) (name : String) (f : Formula) :
    (addFormula name f).apply m =
      if m.formulas.wouldCycle name f then (.error (.cycle name), m)
      else (.ok (), { m with formulas := m.formulas.insert name f }) := by
  rw [addFormula]
  simp only [Update.apply_bind, Update.apply_get]
  cases m.formulas.wouldCycle name f with
  | true => rfl
  | false => rfl

/-- A formula that would close a cycle leaves it as it is, too. -/
theorem after_addFormula (m : Mapping) (name : String) (f : Formula) :
    m.after (.addFormula name f) =
      if m.formulas.wouldCycle name f then m else { m with formulas := m.formulas.insert name f } := by
  rw [after, Update.after, Change.update, apply_addFormula]
  split
  · rfl
  · rfl

section Declarations

variable {P : Mapping → Prop} {c : Category} (hdeclared : ∀ {m} k, P m →
  P (m.modifyCategory c fun b => { b with declared := b.declared.insert k }))
include hdeclared

private theorem after_declareOne {m : Mapping} (hm : P m) (id : String) (v : Variable) :
    P ((declareOne c id v).apply m).2 := by
  rw [declareOne]
  by_cases hv : v.fits c = true
  · simp only [hv, Bool.not_true, Bool.false_eq_true, if_false, Update.apply_bind, Update.apply_ofExcept]
    cases Key.make v id with
    | ok k => exact hdeclared k hm
    | error e => exact hm
  · simpa [hv] using hm

private theorem after_declareAll {m : Mapping} (hm : P m) (id : String) (l : List Variable) :
    P ((l.forM (declareOne c id)).apply m).2 := by
  induction l generalizing m with
  | nil => exact hm
  | cons v l ih =>
    change P ((declareOne c id v >>= fun _ => l.forM (declareOne c id)).apply m).2
    rw [Update.apply_bind]
    have hv := after_declareOne hdeclared hm id v
    cases ha : (declareOne c id v).apply m with
    | mk answer next =>
      rw [ha] at hv
      cases answer with
      | ok u => exact ih hv
      | error e => exact hv

/-- A declaration keeps what each declared key of its category keeps, refused half-way or not. -/
theorem after_declare {m : Mapping} (hm : P m) (id : String) (named : List Variable) :
    P (m.after (.declare c id named)) := by
  change P ((declare c id named).apply m).2
  rw [declare]
  generalize (if named.isEmpty then (Quantity.primary c).map .builtin else named) = all
  cases hl : all.isEmpty with
  | true => simpa [hl] using hm
  | false => simpa [hl] using after_declareAll hdeclared hm id all

end Declarations

/-- Filing equipment by its connection keeps what every edit of the sets of a category keeps. -/
theorem ofEquipment_keeps {P : Mapping → Prop} (hsets : ∀ {m} c {f : Bindings → Bindings}, P m →
    (∀ b, (f b).forward = b.forward ∧ (f b).reverse = b.reverse) → P (m.modifyCategory c f)) (hempty : P .empty)
    (equipment : Category → List (String × Connection)) : P (ofEquipment equipment) := by
  have file (b : Bindings) (l : List (String × Connection)) :
      (l.foldl (fun b e => b.file e.1 e.2) b).forward = b.forward ∧
        (l.foldl (fun b e => b.file e.1 e.2) b).reverse = b.reverse := by
    induction l generalizing b with
    | nil => exact ⟨rfl, rfl⟩
    | cons e l ih =>
      obtain ⟨hf, hr⟩ := ih (b.file e.1 e.2)
      rw [List.foldl_cons, hf, hr]
      cases e.2 <;> exact ⟨rfl, rfl⟩
  have all (l : List Category) {m : Mapping} (hm : P m) :
      P (l.foldl (fun m c => m.modifyCategory c fun b =>
        (equipment c).foldl (fun b e => b.file e.1 e.2) b) m) := by
    induction l generalizing m with
    | nil => exact hm
    | cons c l ih => exact ih (hsets c hm fun b => file b (equipment c))
  exact all Category.all hempty

/-- A property of mappings that holds of the empty one and of every document, and that each kind of edit keeps. Marks
and declarations are one kind: they leave the index alone. -/
structure Invariant (P : Mapping → Prop) : Prop where
  empty : P .empty
  document : ∀ {r text m}, Document.parse r text = .ok m → P m
  bound : ∀ {m c series k w}, P m → m.checkBind c series k w = .ok () → P (m.bound c series k w)
  sets : ∀ {m} c {f : Bindings → Bindings}, P m →
    (∀ b, (f b).forward = b.forward ∧ (f b).reverse = b.reverse) → P (m.modifyCategory c f)
  formula : ∀ {m name f}, P m → m.formulas.wouldCycle name f = false →
    P { m with formulas := m.formulas.insert name f }
  outages : ∀ {m} o, P m → P { m with outages := o }
  ignoreLimits : ∀ {m} s, P m → P { m with ignoreLimits := s }

namespace Invariant

variable {P : Mapping → Prop}

/-- One change keeps the property, whether or not it is refused. -/
theorem after (h : Invariant P) {m : Mapping} (hm : P m) (ch : Change) : P (m.after ch) := by
  cases ch with
  | bind c series k w =>
    rw [after_bind]
    cases hb : m.checkBind c series k w with
    | ok u => exact h.bound hm hb
    | error e => exact hm
  | markUnmapped c id => exact h.sets c hm fun b => ⟨rfl, rfl⟩
  | markIgnoredUnmapped c id => exact h.sets c hm fun b => ⟨rfl, rfl⟩
  | markDisconnected c id => exact h.sets c hm fun b => ⟨rfl, rfl⟩
  | markOutsideMain c id => exact h.sets c hm fun b => ⟨rfl, rfl⟩
  | declare c id named => exact after_declare (fun k hn => h.sets c hn fun b => ⟨rfl, rfl⟩) hm id named
  | addFormula name f =>
    rw [after_addFormula]
    cases hc : m.formulas.wouldCycle name f with
    | true => exact hm
    | false => exact h.formula hm hc
  | addOutages series ids => exact h.outages _ hm
  | addIgnoreLimits series => exact h.ignoreLimits _ hm

/-- So does a history of them. -/
theorem afterAll (h : Invariant P) {m : Mapping} (hm : P m) (history : List Change) : P (m.afterAll history) := by
  induction history generalizing m with
  | nil => exact hm
  | cons ch rest ih => exact ih (h.after hm ch)

/-- An invariant holds wherever a run begins. -/
theorem origin (h : Invariant P) (o : Origin) : P o.mapping := by
  cases o with
  | empty => exact h.empty
  | network equipment => exact ofEquipment_keeps h.sets h.empty equipment
  | document registry text m accepted => exact h.document accepted

/-- It is kept by every step. -/
theorem step (h : Invariant P) {m : Mapping} (hm : P m) (s : Step) : P (s.after m) := by
  cases s with
  | change c => exact h.after hm c
  | load registry text =>
    simp only [Step.after]
    cases hp : Document.parse registry text with
    | ok n => exact h.document hp
    | error e => exact hm

/-- Every run keeps the property, from wherever it starts. -/
theorem run (h : Invariant P) (o : Origin) (steps : List Step) : P (o.mapping.run steps) := by
  have all (l : List Step) {m : Mapping} (hm : P m) : P (m.run l) := by
    induction l generalizing m with
    | nil => exact hm
    | cons s l ih => exact ih (h.step hm s)
  exact all steps (h.origin o)

end Invariant

/-- The active power of a generator, the key of small runs and documents. -/
def generatorKey : Key := ⟨.builtin .targetP, "G1", by decide, rfl⟩

end GridSeries.Mapping
