import GridSeries.Proofs.Evaluation
import GridSeries.Proofs.Outcome
import Mathlib.Data.List.Perm.Subperm

/-! Evaluation by rules that know no limit of depth. They give every formula exactly one outcome, which is the one that is
computed; it is no cycle unless names lead to one, and no values if they do. -/
namespace GridSeries
open Relation (ReflTransGen TransGen)

namespace Evaluator

/-- What a formula comes to while the names in `opened` are being evaluated. A name among those closes a cycle; any other
is evaluated in turn, or read where it has no definition. The left operand comes first, and a fault ends everything. -/
inductive Yields (e : Evaluator) (version : Nat) : List String → Formula → Except Fault Values → Prop
  | constant {opened x} : Yields e version opened (.constant x) (.ok (.everywhere x))
  | reopened {opened name} (hopened : name ∈ opened) : Yields e version opened (.series name) (.error (.cycle name))
  | defined {opened name f out} (hopened : ¬ name ∈ opened) (hdefined : e.definition? name = some f)
      (hout : Yields e version (name :: opened) f out) : Yields e version opened (.series name) out
  | stored {opened name} (hopened : ¬ name ∈ opened) (hundefined : e.definition? name = none) :
      Yields e version opened (.series name) ((e.store.values name version).map .points)
  | unary {opened op operand v} (hv : Yields e version opened operand (.ok v)) :
      Yields e version opened (.unary op operand) (.ok (v.map op.apply))
  | unaryFault {opened op operand fault} (hfault : Yields e version opened operand (.error fault)) :
      Yields e version opened (.unary op operand) (.error fault)
  | binary {opened op left right v w} (hv : Yields e version opened left (.ok v))
      (hw : Yields e version opened right (.ok w)) :
      Yields e version opened (.binary op left right) (Values.combine (.binary op left right) op.apply v w)
  | leftFault {opened op left right fault} (hfault : Yields e version opened left (.error fault)) :
      Yields e version opened (.binary op left right) (.error fault)
  | rightFault {opened op left right v fault} (hv : Yields e version opened left (.ok v))
      (hfault : Yields e version opened right (.error fault)) :
      Yields e version opened (.binary op left right) (.error fault)

variable {e : Evaluator} {version depth : Nat} {opened : List String} {f : Formula} {name : String}

/-- A formula is computed by the rules where its names are. -/
theorem yields_formulaValues {ofName : String → Except Fault Values}
    (h : ∀ n ∈ f.references, e.Yields version opened (.series n) (ofName n)) :
    e.Yields version opened f (formulaValues ofName f) := by
  induction f with
  | constant x => exact .constant
  | series name => exact h name (by simp [Formula.references])
  | unary op operand ih =>
    have hout := ih h
    rw [formulaValues]
    cases hv : formulaValues ofName operand with
    | ok v => exact .unary (hv ▸ hout)
    | error fault => exact .unaryFault (hv ▸ hout)
  | binary op left right ihl ihr =>
    have hl := ihl fun n hn => h n (List.mem_append_left _ hn)
    have hr := ihr fun n hn => h n (List.mem_append_right _ hn)
    rw [formulaValues]
    cases hv : formulaValues ofName left with
    | error fault => exact .leftFault (hv ▸ hl)
    | ok v =>
      cases hw : formulaValues ofName right with
      | ok w => exact .binary (hv ▸ hl) (hw ▸ hr)
      | error fault => exact .rightFault (hv ▸ hl) (hw ▸ hr)

/-- Names that are open at one time: each once, and each with a definition. -/
structure Openable (e : Evaluator) (opened : List String) : Prop where
  nodup : opened.Nodup
  defined : ∀ n ∈ opened, (e.definition? n).isSome = true

/-- A name that is not open yet can be opened if it has a definition. -/
theorem Openable.cons (h : e.Openable opened) (hopened : ¬ name ∈ opened) (hf : e.definition? name = some f) :
    e.Openable (name :: opened) where
  nodup := List.nodup_cons.2 ⟨hopened, h.nodup⟩
  defined n hn := by
    rcases List.mem_cons.1 hn with rfl | hn
    · rw [hf, Option.isSome_some]
    · exact h.defined n hn

private theorem Openable.length_lt (h : e.Openable opened) : opened.length < e.depth := by
  have hsubset : opened ⊆ e.formulas.keys.toList ++ e.store.formulas.keys.toList := by
    intro n hn
    obtain ⟨f, hf⟩ := Option.isSome_iff_exists.1 (h.defined n hn)
    rw [definition?, Option.or_eq_some_iff] at hf
    rcases hf with hmapping | ⟨_, hstore⟩
    · exact List.mem_append_left _ (SortedMap.mem_keys_iff.2 ⟨f, hmapping⟩)
    · exact List.mem_append_right _ (SortedMap.mem_keys_iff.2 ⟨f, hstore⟩)
  have hlength := (List.subperm_of_subset h.nodup hsubset).length_le
  rw [List.length_append] at hlength
  simp only [SortedMap.keys, List.length_map] at hlength
  exact Nat.lt_succ_of_le hlength

/-- A name is computed by the rules as long as there is depth left for every definition that is not open: the limit is
never what ends an evaluation. -/
theorem yields_nameValues (h : e.Openable opened) (hdepth : e.depth ≤ opened.length + depth) :
    e.Yields version opened (.series name) (e.nameValues version depth opened name) := by
  induction depth generalizing opened name with
  | zero => exact absurd h.length_lt (Nat.not_lt.2 hdepth)
  | succ depth ih =>
    rw [nameValues]
    split
    · rename_i hopened
      exact .reopened hopened
    · rename_i hopened
      cases hd : e.definition? name with
      | none => exact .stored hopened hd
      | some f =>
        refine .defined hopened hd (yields_formulaValues fun n _ => ih (h.cons hopened hd) ?_)
        rw [List.length_cons]
        omega

/-- The rules leave no choice. -/
theorem Yields.unique {out other : Except Fault Values} (h : e.Yields version opened f out)
    (hother : e.Yields version opened f other) : out = other := by
  -- the premises of the rules for one formula exclude each other, so both derivations end in the same rule
  induction h generalizing other with
  | constant =>
    cases hother
    rfl
  | reopened hopened =>
    cases hother with
    | reopened => rfl
    | defined hnot => exact absurd hopened hnot
    | stored hnot => exact absurd hopened hnot
  | defined hopened hd _ ih =>
    cases hother with
    | reopened hmem => exact absurd hmem hopened
    | defined _ hd' hout =>
      cases hd.symm.trans hd'
      exact ih hout
    | stored _ hnone => cases hd.symm.trans hnone
  | stored hopened hnone =>
    cases hother with
    | reopened hmem => exact absurd hmem hopened
    | defined _ hd => cases hnone.symm.trans hd
    | stored => rfl
  | unary _ ih =>
    cases hother with
    | unary hv =>
      cases ih hv
      rfl
    | unaryFault hfault => cases ih hfault
  | unaryFault _ ih =>
    cases hother with
    | unary hv => cases ih hv
    | unaryFault hfault =>
      cases ih hfault
      rfl
  | binary _ _ ihl ihr =>
    cases hother with
    | binary hv hw =>
      cases ihl hv
      cases ihr hw
      rfl
    | leftFault hfault => cases ihl hfault
    | rightFault _ hfault => cases ihr hfault
  | leftFault _ ih =>
    cases hother with
    | binary hv _ => cases ih hv
    | leftFault hfault =>
      cases ih hfault
      rfl
    | rightFault hv _ => cases ih hv
  | rightFault _ _ ihl ihr =>
    cases hother with
    | binary _ hw => cases ihr hw
    | leftFault hfault => cases ihl hfault
    | rightFault _ hfault =>
      cases ihr hfault
      rfl

/-- The outcome by the rules is the computed one, and there is no other. -/
theorem yields_iff {out : Except Fault Values} :
    e.Yields version [] f out ↔ formulaValues (e.nameValues version e.depth []) f = out := by
  have hopen : e.Openable [] := ⟨List.nodup_nil, fun n hn => absurd hn List.not_mem_nil⟩
  have hcomputed : e.Yields version [] f (formulaValues (e.nameValues version e.depth []) f) :=
    yields_formulaValues fun n _ => yields_nameValues hopen (Nat.le_add_left _ _)
  constructor
  · exact fun h => hcomputed.unique h
  · rintro rfl
    exact hcomputed

/-- A name is evaluated as the formula that consists of it. -/
theorem evaluateName_eq (e : Evaluator) (name : String) (version : Nat) :
    e.evaluateName name version = e.evaluate (.series name) version := rfl

/-- A formula has values exactly if the rules give it some. -/
theorem evaluate_eq_ok_iff {xs : List Float} :
    e.evaluate f version = .ok xs ↔ ∃ v, e.Yields version [] f (.ok v) ∧ e.spread v = xs := by
  simp only [yields_iff, evaluate, Outcome.map_eq_ok_iff]

private theorem evaluate_eq_error_iff {fault : Fault} :
    e.evaluate f version = .error fault ↔ e.Yields version [] f (.error fault) := by
  rw [yields_iff, evaluate, Outcome.map_eq_error_iff]

/-- Following definitions from the name comes to one that leads back to itself. -/
def LeadsToCycle (e : Evaluator) (name : String) : Prop :=
  ∃ a, ReflTransGen e.Refers name a ∧ TransGen e.Refers a a

private theorem LeadsToCycle.exists_refers (h : e.LeadsToCycle name) : ∃ b, e.Refers name b ∧ e.LeadsToCycle b := by
  obtain ⟨a, hpath, hcycle⟩ := h
  rcases ReflTransGen.cases_head hpath with rfl | ⟨b, hb, hrest⟩
  · obtain ⟨b, hb, hrest⟩ := TransGen.head'_iff.1 hcycle
    exact ⟨b, hb, name, hrest, hcycle⟩
  · exact ⟨b, hb, a, hrest, hcycle⟩

/-- Nothing that has values refers to a name that leads to a cycle. -/
theorem Yields.not_leadsToCycle {v : Values} (h : e.Yields version opened f (.ok v)) :
    ∀ n ∈ f.references, ¬ e.LeadsToCycle n := by
  generalize hout : Except.ok v = out at h
  induction h generalizing v with
  | constant => exact fun n hn => absurd hn List.not_mem_nil
  | reopened => cases hout
  | @defined _ name f _ _ hd _ ih =>
    intro n hn hcycle
    cases List.mem_singleton.1 hn
    obtain ⟨b, ⟨g, hg, hb⟩, hnext⟩ := hcycle.exists_refers
    cases hd.symm.trans hg
    exact ih hout b hb hnext
  | stored _ hnone =>
    intro n hn hcycle
    cases List.mem_singleton.1 hn
    obtain ⟨b, ⟨g, hg, _⟩, _⟩ := hcycle.exists_refers
    cases hnone.symm.trans hg
  | unary _ ih => exact ih rfl
  | unaryFault => cases hout
  | binary _ _ ihl ihr =>
    intro n hn
    rcases List.mem_append.1 hn with hn | hn
    · exact ihl rfl n hn
    · exact ihr rfl n hn
  | leftFault => cases hout
  | rightFault => cases hout

private theorem values_ne_cycle (store : Store) (name : String) (version : Nat) (n : String) :
    store.values name version ≠ .error (.cycle n) := by
  intro h
  unfold Store.values at h
  split at h
  · cases h
  · split at h
    · cases h
    · cases h

private theorem combine_ne_cycle (whole : Formula) (g : Float → Float → Float) (v w : Values) (n : String) :
    Values.combine whole g v w ≠ .error (.cycle n) := by
  intro h
  unfold Values.combine at h
  split at h
  · cases h
  · cases h
  · cases h
  · split at h
    · cases h
    · cases h

/-- A cycle that is reported is one that the names of the formula lead to. The open names lead to the names of the
formula at hand, so one of them that comes up again leads back to itself. -/
theorem Yields.cycle_reached {n : String} (h : e.Yields version opened f (.error (.cycle n)))
    (hopened : ∀ o ∈ opened, ∀ r ∈ f.references, TransGen e.Refers o r) :
    ∃ r ∈ f.references, ReflTransGen e.Refers r n ∧ TransGen e.Refers n n := by
  generalize hout : Except.error (Fault.cycle n) = out at h
  induction h with
  | constant => cases hout
  | @reopened opened name hmem =>
    cases hout
    have hself : n ∈ (Formula.series n).references := List.mem_singleton_self n
    exact ⟨n, hself, .refl, hopened n hmem n hself⟩
  | @defined opened name f _ _ hd _ ih =>
    have hname : name ∈ (Formula.series name).references := List.mem_singleton_self name
    -- the open names, and now this one, lead to the names of the definition
    have hinner : ∀ o ∈ name :: opened, ∀ r ∈ f.references, TransGen e.Refers o r := by
      intro o ho r hr
      rcases List.mem_cons.1 ho with rfl | ho
      · exact .single ⟨f, hd, hr⟩
      · exact .tail (hopened o ho name hname) ⟨f, hd, hr⟩
    obtain ⟨r, hr, hpath, hcycle⟩ := ih hinner hout
    exact ⟨name, hname, .head ⟨f, hd, hr⟩ hpath, hcycle⟩
  | stored => exact absurd (Outcome.map_eq_error_iff.1 hout.symm) (values_ne_cycle _ _ _ _)
  | unary => cases hout
  | unaryFault _ ih => exact ih hopened hout
  | binary => exact absurd hout.symm (combine_ne_cycle _ _ _ _ _)
  | leftFault _ ih =>
    obtain ⟨r, hr, hcycle⟩ := ih (fun o ho r hr => hopened o ho r (List.mem_append_left _ hr)) hout
    exact ⟨r, List.mem_append_left _ hr, hcycle⟩
  | rightFault _ _ _ ih =>
    obtain ⟨r, hr, hcycle⟩ := ih (fun o ho r hr => hopened o ho r (List.mem_append_right _ hr)) hout
    exact ⟨r, List.mem_append_right _ hr, hcycle⟩

/-- Without a cycle to come to, none is reported. -/
theorem evaluate_ne_cycle (h : ∀ r ∈ f.references, ¬ e.LeadsToCycle r) (n : String) :
    e.evaluate f version ≠ .error (.cycle n) := by
  intro heq
  obtain ⟨r, hr, hpath, hcycle⟩ :=
    (evaluate_eq_error_iff.1 heq).cycle_reached fun o ho => absurd ho List.not_mem_nil
  exact h r hr ⟨n, hpath, hcycle⟩

/-- With one, there are no values. -/
theorem evaluate_eq_error {r : String} (hr : r ∈ f.references) (h : e.LeadsToCycle r) :
    ∃ fault, e.evaluate f version = .error fault := by
  cases hv : e.evaluate f version with
  | error fault => exact ⟨fault, rfl⟩
  | ok xs =>
    obtain ⟨v, hyields, _⟩ := evaluate_eq_ok_iff.1 hv
    exact absurd h (hyields.not_leadsToCycle r hr)

/-- Whatever refers to whatever, every evaluation ends: the rules, which set no limit, give each formula and each name one
outcome, and it is the computed one. It is never a cycle where no cycle can be come to, and never values where one can. -/
theorem evaluation_ends_and_finds_cycles (e : Evaluator) (version : Nat) :
    (∀ f, ∃ out, (∀ other, e.Yields version [] f other ↔ other = out) ∧ e.evaluate f version = out.map e.spread) ∧
    (∀ name, ∃ out, (∀ other, e.Yields version [] (.series name) other ↔ other = out) ∧
      e.evaluateName name version = out.map e.spread) ∧
    (∀ name, ¬ e.LeadsToCycle name → ∀ n, e.evaluateName name version ≠ .error (.cycle n)) ∧
    (∀ name, e.LeadsToCycle name → ∃ fault, e.evaluateName name version = .error fault) ∧
    (∀ f, (∀ r ∈ f.references, ¬ e.LeadsToCycle r) → ∀ n, e.evaluate f version ≠ .error (.cycle n)) ∧
    ∀ f, (∃ r ∈ f.references, e.LeadsToCycle r) → ∃ fault, e.evaluate f version = .error fault := by
  have hends (f : Formula) : ∃ out, (∀ other, e.Yields version [] f other ↔ other = out) ∧
      e.evaluate f version = out.map e.spread := ⟨_, fun _ => yields_iff.trans eq_comm, rfl⟩
  refine ⟨hends, fun name => hends (.series name), fun name hname n => ?_, fun name hname => ?_,
    fun f hf n => evaluate_ne_cycle hf n, fun f ⟨r, hr, hcycle⟩ => evaluate_eq_error hr hcycle⟩
  · rw [evaluateName_eq]
    refine evaluate_ne_cycle (fun r hr => ?_) n
    rwa [List.mem_singleton.1 hr]
  · rw [evaluateName_eq]
    exact evaluate_eq_error (List.mem_singleton_self name) hname

/-- A calculated series of the store and a formula before it that refer to one another, beside a stored series. -/
def crossing : Evaluator where
  store := ((Store.insert "x" ⟨⟨0⟩, 3600000, 2⟩ 1 [1, 2]).after .empty).insertFormula "stored" (.series "mapped")
  formulas := .ofList [("mapped", .binary .add (.constant 1) (.series "stored"))]
  count := some 2

/-- A name on the cycle ends in a failure, and the stored series reports no cycle. -/
theorem crossing_ends :
    (∃ fault, crossing.evaluateName "stored" 1 = .error fault) ∧
      ∀ n, crossing.evaluateName "x" 1 ≠ .error (.cycle n) := by
  obtain ⟨_, _, hnever, herror, _⟩ := evaluation_ends_and_finds_cycles crossing 1
  have hback : crossing.Refers "mapped" "stored" := ⟨_, rfl, by decide⟩
  constructor
  · exact herror "stored" ⟨"stored", .refl, .head ⟨_, rfl, by decide⟩ (.single hback)⟩
  · refine hnever "x" fun hcycle => ?_
    obtain ⟨b, ⟨f, hf, _⟩, _⟩ := hcycle.exists_refers
    cases hf

end Evaluator
end GridSeries
