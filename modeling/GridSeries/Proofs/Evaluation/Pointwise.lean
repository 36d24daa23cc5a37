import GridSeries.Proofs.Evaluation.Rules
import GridSeries.Proofs.Store.Reading

/-! The value of a formula at a single point, and the evaluation that keeps constants apart as long as it can: where it
has values, they are those of the points, one for each if the stored series that it reads have one for each. -/
namespace GridSeries

namespace Values

variable {i count : Nat} {v w u : Values}

/-- The value at a point. -/
def at? : Values → Nat → Option Float
  | everywhere x, _ => some x
  | points xs, i => xs[i]?

private theorem at?_map (v : Values) (g : Float → Float) (i : Nat) : (v.map g).at? i = (v.at? i).map g := by
  cases v with
  | everywhere x => rfl
  | points xs => exact List.getElem?_map

/-- In each of the four shapes of operands, the value at a point is that of the operands there, in their order. -/
private theorem at?_combine {whole : Formula} {g : Float → Float → Float} (h : combine whole g v w = .ok u) :
    u.at? i = (v.at? i).bind fun x => (w.at? i).map fun y => g x y := by
  cases v with
  | everywhere x =>
    cases w with
    | everywhere y =>
      cases h
      rfl
    | points ys =>
      cases h
      exact List.getElem?_map
  | points xs =>
    cases w with
    | everywhere y =>
      cases h
      change (xs.map fun x => g x y)[i]? = xs[i]?.bind fun x => some (g x y)
      rw [List.getElem?_map, Option.map_eq_bind]
      rfl
    | points ys =>
      rw [combine] at h
      split at h
      · cases h
        change (List.zipWith g xs ys)[i]? = xs[i]?.bind fun x => ys[i]?.map fun y => g x y
        rw [List.getElem?_zipWith]
        cases xs[i]? with
        | none => rfl
        | some x => cases ys[i]? <;> rfl
      · cases h

private theorem getElem?_spread (v : Values) (hi : i < count) : (v.spread count)[i]? = v.at? i := by
  cases v with
  | everywhere x => exact List.getElem?_replicate_of_lt hi
  | points xs => rfl

end Values

namespace Evaluator

/-- The value of a formula at one point, computed there alone: a name stands for the mapping's formula of that name, else
for the store's calculated series, else for a stored value. -/
inductive PointValue (e : Evaluator) (version i : Nat) : Formula → Float → Prop
  | constant {x} : PointValue e version i (.constant x) x
  | unary {op operand x} (hx : PointValue e version i operand x) :
      PointValue e version i (.unary op operand) (op.apply x)
  | binary {op left right x y} (hx : PointValue e version i left x) (hy : PointValue e version i right y) :
      PointValue e version i (.binary op left right) (op.apply x y)
  | mapped {name f x} (hf : e.formulas.get? name = some f) (hx : PointValue e version i f x) :
      PointValue e version i (.series name) x
  | calculated {name f x} (hmapping : e.formulas.get? name = none) (hf : e.store.formulas.get? name = some f)
      (hx : PointValue e version i f x) : PointValue e version i (.series name) x
  | stored {name xs x} (hmapping : e.formulas.get? name = none) (hstore : e.store.formulas.get? name = none)
      (hvalues : e.store.values name version = .ok xs) (hx : xs[i]? = some x) :
      PointValue e version i (.series name) x

variable {e : Evaluator} {version i count : Nat} {opened : List String} {f : Formula} {name : String} {x : Float}

private theorem pointValue_of_defined (hf : e.definition? name = some f) :
    e.PointValue version i (.series name) x ↔ e.PointValue version i f x := by
  rw [definition?] at hf
  cases hmapping : e.formulas.get? name with
  | some g =>
    rw [hmapping, Option.some_or] at hf
    cases hf
    constructor
    · intro h
      cases h with
      | mapped hg hx =>
        cases hmapping.symm.trans hg
        exact hx
      | calculated hnone => cases hmapping.symm.trans hnone
      | stored hnone => cases hmapping.symm.trans hnone
    · exact .mapped hmapping
  | none =>
    rw [hmapping, Option.none_or] at hf
    constructor
    · intro h
      cases h with
      | mapped hg => cases hmapping.symm.trans hg
      | calculated _ hg hx =>
        cases hf.symm.trans hg
        exact hx
      | stored _ hnone => cases hf.symm.trans hnone
    · exact .calculated hmapping hf

private theorem pointValue_of_undefined (hnone : e.definition? name = none) :
    e.PointValue version i (.series name) x ↔ ∃ xs, e.store.values name version = .ok xs ∧ xs[i]? = some x := by
  rw [definition?, Option.or_eq_none_iff] at hnone
  obtain ⟨hmapping, hstore⟩ := hnone
  constructor
  · intro h
    cases h with
    | mapped hg => cases hmapping.symm.trans hg
    | calculated _ hg => cases hstore.symm.trans hg
    | stored _ _ hvalues hx => exact ⟨_, hvalues, hx⟩
  · rintro ⟨xs, hvalues, hx⟩
    exact .stored hmapping hstore hvalues hx

/-- What has values has exactly theirs at a point. -/
theorem Yields.pointValue_iff {v : Values} (h : e.Yields version opened f (.ok v)) :
    e.PointValue version i f x ↔ v.at? i = some x := by
  generalize hout : Except.ok v = out at h
  induction h generalizing v x with
  | constant =>
    cases hout
    constructor
    · intro h
      cases h
      rfl
    · intro h
      cases h
      exact .constant
  | reopened => cases hout
  | defined _ hd _ ih => exact (pointValue_of_defined hd).trans (ih hout)
  | stored _ hnone =>
    obtain ⟨xs, hxs, rfl⟩ := Outcome.map_eq_ok_iff.1 hout.symm
    rw [pointValue_of_undefined hnone, hxs]
    constructor
    · rintro ⟨_, ⟨⟩, hx⟩
      exact hx
    · exact fun hx => ⟨xs, rfl, hx⟩
  | unary _ ih =>
    cases hout
    rw [Values.at?_map, Option.map_eq_some_iff]
    constructor
    · intro h
      cases h with
      | unary hx => exact ⟨_, (ih rfl).1 hx, rfl⟩
    · rintro ⟨y, hy, rfl⟩
      exact .unary ((ih rfl).2 hy)
  | unaryFault => cases hout
  | binary _ _ ihl ihr =>
    rw [Values.at?_combine hout.symm]
    simp only [Option.bind_eq_some_iff, Option.map_eq_some_iff]
    constructor
    · intro h
      cases h with
      | binary hx hy => exact ⟨_, (ihl rfl).1 hx, _, (ihr rfl).1 hy, rfl⟩
    · rintro ⟨a, ha, b, hb, rfl⟩
      exact .binary ((ihl rfl).2 ha) ((ihr rfl).2 hb)
  | leftFault => cases hout
  | rightFault => cases hout

/-- An evaluation that ends in values has read every stored series that its names lead to. -/
theorem Yields.exists_values {v : Values} (h : e.Yields version opened f (.ok v)) :
    ∀ n ∈ f.references, ∀ b, e.Reads n b → ∃ xs, e.store.values b version = .ok xs := by
  generalize hout : Except.ok v = out at h
  induction h generalizing v with
  | constant => exact fun n hn => absurd hn List.not_mem_nil
  | reopened => cases hout
  | defined _ hd _ ih =>
    intro n hn b hb
    cases List.mem_singleton.1 hn
    obtain ⟨inner, hinner, hb⟩ := (reads_of_defined hd).1 hb
    exact ih hout inner hinner b hb
  | stored _ hnone =>
    intro n hn b hb
    cases List.mem_singleton.1 hn
    cases (reads_of_undefined hnone).1 hb
    obtain ⟨xs, hxs, _⟩ := Outcome.map_eq_ok_iff.1 hout.symm
    exact ⟨xs, hxs⟩
  | unary _ ih => exact ih rfl
  | unaryFault => cases hout
  | binary _ _ ihl ihr =>
    intro n hn
    rcases List.mem_append.1 hn with hn | hn
    · exact ihl rfl n hn
    · exact ihr rfl n hn
  | leftFault => cases hout
  | rightFault => cases hout

/-- An evaluation settles when all that its names lead to is stored in one length. -/
theorem Yields.settles {out : Except Fault Values} (h : e.Yields version opened f out)
    (hread : ∀ n ∈ f.references, ∀ b, e.Reads n b → ∃ xs, e.store.values b version = .ok xs ∧ xs.length = count) :
    Settles count out := by
  induction h with
  | constant => exact .inl ⟨_, rfl, trivial⟩
  | @reopened _ name => exact .inr ⟨name, rfl⟩
  | @defined _ name _ _ _ hd _ ih =>
    exact ih fun n hn b hb => hread name (List.mem_singleton_self name) b ((reads_of_defined hd).2 ⟨n, hn, hb⟩)
  | @stored _ name _ hnone =>
    obtain ⟨xs, hxs, hlength⟩ := hread name (List.mem_singleton_self name) name ((reads_of_undefined hnone).2 rfl)
    rw [hxs]
    exact .inl ⟨_, rfl, hlength⟩
  | unary _ ih => exact .inl ⟨_, rfl, (ih hread).fits_of_ok.map _⟩
  | unaryFault _ ih => exact ih hread
  | @binary _ op left right _ _ _ _ ihl ihr =>
    have hl := ihl fun n hn => hread n (List.mem_append_left _ hn)
    have hr := ihr fun n hn => hread n (List.mem_append_right _ hn)
    exact .inl (hl.fits_of_ok.combine hr.fits_of_ok (.binary op left right) op.apply)
  | leftFault _ ih => exact ih fun n hn => hread n (List.mem_append_left _ hn)
  | rightFault _ _ _ ih => exact ih fun n hn => hread n (List.mem_append_right _ hn)

/-- The evaluation of a name settles when all that it leads to is stored in one length. -/
theorem settles_of_reads
    (h : ∀ b, e.Reads name b → ∃ xs, e.store.values b version = .ok xs ∧ xs.length = count) :
    Settles count (e.nameValues version e.depth [] name) := by
  have hyields : e.Yields version [] (.series name) (e.nameValues version e.depth [] name) := yields_iff.2 rfl
  exact hyields.settles fun n hn b hb => h b (List.mem_singleton.1 hn ▸ hb)

/-- A name has one value for each point if all that it leads to is stored with one value for each, unless it depends on
itself. -/
theorem evaluateName_of_reads
    (h : ∀ b, e.Reads name b → ∃ xs, e.store.values b version = .ok xs ∧ xs.length = e.count.getD 1) :
    (∃ xs, e.evaluateName name version = .ok xs ∧ xs.length = e.count.getD 1) ∨
      ∃ n, e.evaluateName name version = .error (.cycle n) := by
  rw [evaluateName]
  rcases settles_of_reads h with ⟨v, hv, hfits⟩ | ⟨n, hn⟩
  · rw [hv]
    exact .inl ⟨_, rfl, hfits.length_spread⟩
  · rw [hn]
    exact .inr ⟨n, rfl⟩

/-- Every stored array that is read for a name has one value for each of `count` points. -/
def ReadsLength (e : Evaluator) (version count : Nat) (name : String) : Prop :=
  ∀ b, e.Reads name b → ∀ xs, e.store.values b version = .ok xs → xs.length = count

private theorem readsLength_of_samplings (h : ∀ d ∈ e.store.series.entries, d.2.sampling.count = count)
    (name : String) :
    e.ReadsLength version count name := by
  intro b _ xs hxs
  obtain ⟨s, hs, _⟩ := Store.values_eq_ok_iff.1 hxs
  exact (Store.length_of_values hxs hs).trans (h _ (SortedMap.mem_entries_of_get? hs))

/-- Values made of arrays of one length fit it. -/
theorem Yields.fits {v : Values} (h : e.Yields version opened f (.ok v))
    (hread : ∀ n ∈ f.references, e.ReadsLength version count n) : v.Fits count := by
  refine Settles.fits_of_ok (h.settles fun n hn b hb => ?_)
  obtain ⟨xs, hxs⟩ := h.exists_values n hn b hb
  exact ⟨xs, hxs, hread n hn b hb xs hxs⟩

/-- An evaluation that ends in values, of arrays with one value for each point, ends in one value for each point. -/
theorem pointwise_of_evaluate {xs : List Float} (hcount : e.count = some count) (h : e.evaluate f version = .ok xs)
    (hread : ∀ n ∈ f.references, e.ReadsLength version count n) :
    xs.length = count ∧ ∀ i < count, ∀ x, e.PointValue version i f x ↔ xs[i]? = some x := by
  obtain ⟨v, hyields, rfl⟩ := evaluate_eq_ok_iff.1 h
  rw [spread, hcount, Option.getD_some]
  refine ⟨(hyields.fits hread).length_spread, fun i hi x => ?_⟩
  rw [v.getElem?_spread hi]
  exact hyields.pointValue_iff

/-- Values that are kept apart from their points as long as they are the same everywhere come out as if every point had
been computed by itself: one for each point, which is the one value that the formula has there. -/
theorem evaluation_is_pointwise (hcount : e.count = some count) :
    (∀ f xs, e.evaluate f version = .ok xs → (∀ n ∈ f.references, e.ReadsLength version count n) →
      xs.length = count ∧ ∀ i < count, ∀ x, e.PointValue version i f x ↔ xs[i]? = some x) ∧
    ∀ name xs, e.evaluateName name version = .ok xs → e.ReadsLength version count name →
      xs.length = count ∧ ∀ i < count, ∀ x, e.PointValue version i (.series name) x ↔ xs[i]? = some x := by
  refine ⟨fun f xs h hread => pointwise_of_evaluate hcount h hread, fun name xs h hread => ?_⟩
  rw [evaluateName_eq] at h
  refine pointwise_of_evaluate hcount h fun n hn => ?_
  rwa [List.mem_singleton.1 hn]

/-- A calculated series that halves a stored one, and a formula that takes it from a constant. -/
def halves : Evaluator where
  store := ((Store.insert "x" ⟨⟨0⟩, 3600000, 2⟩ 1 [8, 2]).after .empty).insertFormula "half"
    (.binary .div (.series "x") (.binary .sub (.constant 4) (.constant 2)))
  formulas := .ofList [("rest", .binary .sub (.constant 10) (.series "half"))]
  count := some 2

/-- At both points the rest is ten less half of the stored value. -/
theorem halves_pointwise :
    halves.evaluateName "rest" 1 = .ok [6, 9] ∧ halves.PointValue 1 0 (.series "rest") 6 ∧
      halves.PointValue 1 1 (.series "rest") 9 := by
  have hvalues : halves.evaluateName "rest" 1 = .ok [6, 9] := Outcome.eq_ok_of_toOption (by decide +kernel)
  have hread : halves.ReadsLength 1 2 "rest" := readsLength_of_samplings (by decide +kernel) "rest"
  obtain ⟨_, hpoints⟩ := (evaluation_is_pointwise (e := halves) rfl).2 "rest" _ hvalues hread
  exact ⟨hvalues, (hpoints 0 (by decide) 6).2 rfl, (hpoints 1 (by decide) 9).2 rfl⟩

end Evaluator
end GridSeries
