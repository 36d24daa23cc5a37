import GridSeries.Proofs.Mapping.Exclusion
import GridSeries.Proofs.Sorted
import GridSeries.Store.Basic
import GridSeries.Variable.Registry

/-! Refused operations. Mappings, stores and registries of variables refuse what does not suit them, each for reasons of
its own; when an operation is refused, what it was applied to stays as it was. Refused changes can therefore be struck
out of the history of a mapping. -/
namespace GridSeries

namespace Update

variable {σ α : Type}

/-- A refusal leaves the value as it was. -/
def Atomic (u : Update σ α) : Prop := ∀ s f t, u.apply s = (.error f, t) → t = s

/-- A refusal is known by its fault and by the state that it leaves as it was. -/
theorem refused_eq_iff {e f : Fault} {s t : σ} :
    ((Except.error e : Except Fault α), s) = (.error f, t) ↔ t = s ∧ f = e := by
  rw [Prod.mk.injEq, Except.error.injEq, and_comm, eq_comm, eq_comm (a := e)]

/-- What was answered was not refused. -/
theorem answered_ne_refused {a : α} {f : Fault} {s t : σ} : ((Except.ok a : Except Fault α), s) ≠ (.error f, t) := by
  intro h
  cases (Prod.mk.inj h).1

private theorem atomic_modify (g : σ → σ) : Atomic (modify g : Update σ Unit) :=
  fun _ _ _ h => absurd h answered_ne_refused

end Update

namespace Mapping

variable {m : Mapping} {c : Category} {series : String} {k : Key} {weight : Option Weight} {f : Fault}

/-- Why a binding is refused: of all that is wrong with it, what is looked at first. -/
inductive BindRefusal (m : Mapping) (c : Category) (series : String) (k : Key) (weight : Option Weight) : Fault → Prop
  | unnamed (hname : series = "") : BindRefusal m c series k weight (.key (.unnamedSeries k))
  | incompatible (hname : series ≠ "") (hfits : k.driven.fits c = false) :
      BindRefusal m c series k weight (.incompatible c k.driven)
  | contradiction (hname : series ≠ "") (hfits : k.driven.fits c = true) {q r : Quantity}
      (hq : k.driven = .builtin q) (hr : m.boundRival? c k q = some r) :
      BindRefusal m c series k weight (.contradiction k.id r.name q.name)
  | weight (hname : series ≠ "") (hfits : k.driven.fits c = true)
      (hrivals : ∀ l, k.Rivals l → ¬ (m.category c).isBound l = true) {w : Weight} (hw : weight = some w)
      {cause : WeightFault} (hcause : w.check = .error cause) :
      BindRefusal m c series k weight (.config (.weight cause))

private theorem checkRivals_eq_error_iff :
    m.checkRivals c k = .error f ↔
      ∃ q r, k.driven = .builtin q ∧ m.boundRival? c k q = some r ∧ f = .contradiction k.id r.name q.name := by
  rw [checkRivals]
  cases hq : k.driven with
  | extension family name => simp [Variable.quantity?]
  | builtin q =>
    dsimp only [Variable.quantity?]
    cases hr : m.boundRival? c k q with
    | none => simp [hr]
    | some r =>
      constructor
      · intro h
        cases h
        exact ⟨q, r, rfl, hr, rfl⟩
      · rintro ⟨q', r', hq', hr', rfl⟩
        cases hq'
        cases hr.symm.trans hr'
        rfl

private theorem checkBind_eq_error_iff :
    m.checkBind c series k weight = .error f ↔ BindRefusal m c series k weight f := by
  rw [checkBind_eq]
  constructor
  -- check by check: each refusal knows that the checks before it passed
  · intro h
    by_cases hname : series = ""
    · rw [if_pos hname] at h
      cases h
      exact .unnamed hname
    rw [if_neg hname] at h
    cases hfits : k.driven.fits c with
    | false =>
      rw [if_pos hfits] at h
      cases h
      exact .incompatible hname hfits
    | true =>
      rw [if_neg (by simp [hfits])] at h
      rcases Outcome.bind_eq_error_iff.1 h with hrivals | ⟨_, hrivals, h⟩
      · obtain ⟨q, r, hq, hr, rfl⟩ := checkRivals_eq_error_iff.1 hrivals
        exact .contradiction hname hfits hq hr
      · cases weight with
        | none => cases h
        | some w =>
          obtain ⟨cause, hcause, rfl⟩ := Outcome.mapError_eq_error_iff.1 h
          exact .weight hname hfits (checkRivals_eq_ok_iff.1 hrivals) rfl hcause
  · intro h
    cases h with
    | unnamed hname => rw [if_pos hname]
    | incompatible hname hfits => rw [if_neg hname, if_pos hfits]
    | contradiction hname hfits hq hr =>
      rw [if_neg hname, if_neg (by simp [hfits])]
      exact Outcome.bind_eq_error_iff.2 (.inl (checkRivals_eq_error_iff.2 ⟨_, _, hq, hr, rfl⟩))
    | weight hname hfits hrivals hw hcause =>
      subst hw
      rw [if_neg hname, if_neg (by simp [hfits])]
      exact Outcome.bind_eq_error_iff.2 (.inr ⟨(), checkRivals_eq_ok_iff.2 hrivals,
        Outcome.mapError_eq_error_iff.2 ⟨_, hcause, rfl⟩⟩)

private theorem bind_refused_iff {n : Mapping} :
    (Mapping.bind c series k weight).apply m = (.error f, n) ↔ n = m ∧ BindRefusal m c series k weight f := by
  rw [apply_bind, ← checkBind_eq_error_iff]
  cases m.checkBind c series k weight with
  | ok u => exact iff_of_false Update.answered_ne_refused fun h => nomatch h.2
  | error e => rw [Update.refused_eq_iff, Except.error.injEq, eq_comm (a := e)]

private theorem addFormula_refused_iff {n : Mapping} {name : String} {formula : Formula} :
    (addFormula name formula).apply m = (.error f, n) ↔
      n = m ∧ f = .cycle name ∧ ∃ r ∈ formula.references, Relation.ReflTransGen m.formulas.Refers r name := by
  rw [apply_addFormula, ← Definitions.wouldCycle_iff]
  cases m.formulas.wouldCycle name formula with
  | true => rw [if_pos rfl, Update.refused_eq_iff, and_iff_left rfl]
  | false => exact iff_of_false Update.answered_ne_refused fun h => nomatch h.2.2

end Mapping

namespace Store

variable {store t : Store} {name : String} {sampling : Sampling} {version : Nat} {values : List Float} {f : Fault}

/-- Why values are not stored. -/
inductive InsertRefusal (store : Store) (name : String) (sampling : Sampling) (values : List Float) : Fault → Prop
  | wrongCount (hcount : values.length ≠ sampling.count) :
      InsertRefusal store name sampling values (.sampling (.wrongCount name values.length sampling.count))
  | otherSampling (hcount : values.length = sampling.count) {s : StoredSeries} (hs : store.series.get? name = some s)
      (hother : s.sampling ≠ sampling) : InsertRefusal store name sampling values (.sampling (.otherSampling name))

private theorem insertRefusal_iff_of_ne (hcount : values.length ≠ sampling.count) :
    InsertRefusal store name sampling values f ↔ f = .sampling (.wrongCount name values.length sampling.count) := by
  constructor
  · intro h
    cases h with
    | wrongCount => rfl
    | otherSampling hsame => exact absurd hsame hcount
  · rintro rfl
    exact .wrongCount hcount

private theorem insertRefusal_iff_of_eq (hcount : values.length = sampling.count) :
    InsertRefusal store name sampling values f ↔
      (∃ s, store.series.get? name = some s ∧ s.sampling ≠ sampling) ∧ f = .sampling (.otherSampling name) := by
  constructor
  · intro h
    cases h with
    | wrongCount hwrong => exact absurd hcount hwrong
    | otherSampling _ hs hother => exact ⟨⟨_, hs, hother⟩, rfl⟩
  · rintro ⟨⟨s, hs, hother⟩, rfl⟩
    exact .otherSampling hcount hs hother

private theorem insert_refused_iff :
    (Store.insert name sampling version values).apply store = (.error f, t) ↔
      t = store ∧ InsertRefusal store name sampling values f := by
  rw [Store.insert]
  by_cases hcount : values.length = sampling.count
  · rw [dif_pos hcount, Update.apply_bind, Update.apply_get, insertRefusal_iff_of_eq hcount]
    dsimp only
    cases hs : store.series.get? name with
    | none => exact iff_of_false Update.answered_ne_refused (by simp)
    | some s =>
      dsimp only
      by_cases hsame : s.sampling = sampling
      · rw [dif_pos hsame]
        exact iff_of_false Update.answered_ne_refused (by simp [hsame])
      · have hother : ∃ found, some s = some found ∧ found.sampling ≠ sampling := ⟨s, rfl, hsame⟩
        rw [dif_neg hsame, Update.apply_throw, Update.refused_eq_iff, and_iff_right hother]
  · rw [dif_neg hcount, Update.apply_throw, Update.refused_eq_iff, insertRefusal_iff_of_ne hcount]

private theorem length_of_sampling {s : StoredSeries} (hs : s.sampling = sampling)
    (h : values.length = sampling.count) :
    values.length = s.sampling.count :=
  hs ▸ h

/-- The series of a name; where there is none, one without values is stored. -/
def entry (name : String) (sampling : Sampling) : Update Store StoredSeries := do
  let store ← get
  match store.series.get? name with
  | some s => pure s
  | none =>
    set { store with series := store.series.insert name (.empty sampling) }
    pure (.empty sampling)

/-- Stores values in the series of a name, which is there before its sampling is looked at. -/
def insertAtEntry (name : String) (sampling : Sampling) (version : Nat) (values : List Float) : Update Store Unit := do
  if h : values.length = sampling.count then
    let s ← entry name sampling
    if hs : s.sampling = sampling then
      modify fun store =>
        { store with series := store.series.insert name (s.insert version values (length_of_sampling hs h)) }
    else throw (.sampling (.otherSampling name))
  else throw (.sampling (.wrongCount name values.length sampling.count))

/-- A series that was missing takes the sampling it is given, so none is ever made in vain. -/
theorem insertAtEntry_eq (name : String) (sampling : Sampling) (version : Nat) (values : List Float) :
    insertAtEntry name sampling version values = Store.insert name sampling version values := by
  refine funext fun store => ?_
  change (insertAtEntry name sampling version values).apply store = (Store.insert name sampling version values).apply store
  rw [insertAtEntry, Store.insert]
  by_cases hcount : values.length = sampling.count
  · rw [dif_pos hcount, dif_pos hcount]
    simp only [Update.apply_bind, entry, Update.apply_get]
    cases hs : store.series.get? name with
    | none =>
      simp only [Update.apply_bind, Update.apply_set, Update.apply_pure]
      split
      · rw [Update.apply_modify, SortedMap.insert_insert]
      · rename_i hother
        exact absurd rfl hother
    | some s =>
      simp only [Update.apply_pure]
      by_cases hsame : s.sampling = sampling
      · rw [dif_pos hsame, dif_pos hsame]
        rfl
      · rw [dif_neg hsame, dif_neg hsame]
  · rw [dif_neg hcount, dif_neg hcount]

end Store

namespace Registry

variable {r t : Registry} {p : Provider} {f : Fault}

private theorem register_refused_iff :
    (register p).apply r = (.error f, t) ↔ t = r ∧ f = .family p.family ∧ (p.family = "" ∨ p.family ∈ r.families) := by
  rw [register, Update.apply_bind, Update.apply_get]
  dsimp only
  by_cases h : p.family = "" ∨ p.family ∈ r.families
  · rw [if_pos h, and_iff_left h]
    exact Update.refused_eq_iff
  · rw [if_neg h]
    exact iff_of_false Update.answered_ne_refused fun hr => h hr.2.2

end Registry

/-- A binding, a formula, an insertion and a registration are refused for the reasons listed and for no others, and
leave then what they were applied to as it was. -/
theorem refused_leaves_unchanged :
    (∀ (m n : Mapping) c series k weight f, (Mapping.bind c series k weight).apply m = (.error f, n) ↔
      n = m ∧ Mapping.BindRefusal m c series k weight f) ∧
    (∀ (m n : Mapping) name formula f, (Mapping.addFormula name formula).apply m = (.error f, n) ↔
      n = m ∧ f = .cycle name ∧ ∃ r ∈ formula.references, Relation.ReflTransGen m.formulas.Refers r name) ∧
    (∀ (store t : Store) name sampling version values f,
      (Store.insert name sampling version values).apply store = (.error f, t) ↔
        t = store ∧ Store.InsertRefusal store name sampling values f) ∧
    (∀ (r t : Registry) p f, (Registry.register p).apply r = (.error f, t) ↔
      t = r ∧ f = .family p.family ∧ (p.family = "" ∨ p.family ∈ r.families)) :=
  ⟨fun _ _ _ _ _ _ _ => Mapping.bind_refused_iff, fun _ _ _ _ _ => Mapping.addFormula_refused_iff,
    fun _ _ _ _ _ _ _ => Store.insert_refused_iff, fun _ _ _ _ => Registry.register_refused_iff⟩

namespace Mapping

/-- Every change but a declaration is refused as a whole. -/
theorem Change.atomic_update {change : Change} (h : ∀ c id named, change ≠ .declare c id named) :
    change.update.Atomic := by
  cases change with
  | bind c series k weight => exact fun m f n hr => (bind_refused_iff.1 hr).1
  | declare c id named => exact absurd rfl (h c id named)
  | addFormula name formula => exact fun m f n hr => (addFormula_refused_iff.1 hr).1
  | markUnmapped | markIgnoredUnmapped | markDisconnected | markOutsideMain | addOutages | addIgnoreLimits =>
    exact Update.atomic_modify _

/-- A declaration keeps the variables that come before the one it is refused for. -/
example : ¬ (Change.declare .generator "G1" [.builtin .targetP, .builtin .p0]).update.Atomic := by
  intro h
  have hempty := h .empty _ _ rfl
  exact absurd hempty (by decide)

/-- The changes of a history that are not refused. -/
def carriedOut (m : Mapping) : List Change → List Change
  | [] => []
  | change :: rest =>
    match change.update.apply m with
    | (.ok _, n) => change :: n.carriedOut rest
    | (.error _, n) => n.carriedOut rest

/-- Without the changes that are refused, a history leaves the same mapping. -/
theorem afterAll_carriedOut {m : Mapping} {history : List Change} (h : ∀ change ∈ history, change.update.Atomic) :
    m.afterAll (m.carriedOut history) = m.afterAll history := by
  induction history generalizing m with
  | nil => rfl
  | cons change rest ih =>
    obtain ⟨hfirst, hrest⟩ := List.forall_mem_cons.1 h
    rw [afterAll_cons, carriedOut]
    rcases hanswer : change.update.apply m with ⟨answer, n⟩
    have hafter : m.after change = n := congrArg Prod.snd hanswer
    cases answer with
    | ok u =>
      dsimp only
      rw [afterAll_cons, hafter, ih hrest]
    | error f =>
      dsimp only
      rw [hafter, hfirst m f n hanswer, ih hrest]

end Mapping
end GridSeries
