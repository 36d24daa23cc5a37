import GridSeries.Proofs.Mapping.Order
import GridSeries.Proofs.Mapping.Sound
import GridSeries.Proofs.Sharing.Exact
import GridSeries.Proofs.Sorted

/-! What the keys of a series receive. In every mapping that a run reaches, constant weights are finite and not
negative, so a series of finite values is divided among the keys that it feeds, and nothing of it is lost. -/
namespace GridSeries.Sharing

private theorem firstUnusable?_eq_none_iff {values : List Float} {point : Nat} :
    firstUnusable? point values = none ↔ ∀ x ∈ values, x.isFinite = true := by
  induction values generalizing point with
  | nil => simp [firstUnusable?]
  | cons value rest ih =>
    rw [firstUnusable?, List.forall_mem_cons]
    split
    · rename_i hfinite
      rw [ih]
      exact (and_iff_right hfinite).symm
    · rename_i hinfinite
      exact iff_of_false nofun fun h => hinfinite h.1

private theorem firstUnusable?_eq_some {values : List Float} {point : Nat} {value : Float} (start : Nat)
    (hvalue : values[point]? = some value) (hinfinite : value.isFinite = false)
    (hbefore : ∀ x ∈ values.take point, x.isFinite = true) :
    firstUnusable? start values = some (start + point, value) := by
  induction values generalizing start point with
  | nil => cases hvalue
  | cons first rest ih =>
    rw [firstUnusable?]
    cases point with
    | zero =>
      cases hvalue
      rw [if_neg (by simp [hinfinite])]
      rfl
    | succ point =>
      rw [List.take_succ_cons, List.forall_mem_cons] at hbefore
      rw [if_pos hbefore.1, ih (start + 1) hvalue hbefore.2, Nat.add_right_comm, Nat.add_assoc]

private theorem apportion_eq_ok_iff {name : String} {values : List Float} {shares : List (Share Float)}
    {parts : List (List Float)} :
    apportion name values shares = .ok parts ↔ (∀ x ∈ values, x.isFinite = true) ∧ parts = split shares values := by
  have hfinite : firstUnusable? 0 values = none ↔ ∀ x ∈ values, x.isFinite = true := firstUnusable?_eq_none_iff
  rw [apportion, ← hfinite]
  cases firstUnusable? 0 values with
  | none => simp [eq_comm]
  | some unusable => simp

private theorem apportion_of_not_finite {values : List Float} {point : Nat} {value : Float} (name : String)
    (shares : List (Share Float)) (hvalue : values[point]? = some value) (hinfinite : value.isFinite = false)
    (hbefore : ∀ x ∈ values.take point, x.isFinite = true) :
    apportion name values shares = .error (.notFinite name point value) := by
  rw [apportion, firstUnusable?_eq_some 0 hvalue hinfinite hbefore, Nat.zero_add]

/-- Keys compared by id, then by the name of the variable. -/
def listing : Key → Key → Ordering := compareLex (compareOn Key.id) (compareOn fun k => k.driven.name)

instance : Std.TransCmp listing := inferInstanceAs (Std.TransCmp (compareLex _ _))

private theorem listingOrder_eq (keys : SortedSet Key) :
    listingOrder keys = keys.toList.mergeSort fun k l => (listing k l).isLE := rfl

private theorem listingOrder_ordered (keys : SortedSet Key) :
    (listingOrder keys).Pairwise fun k l => (listing k l).isLE = true := by
  rw [listingOrder_eq]
  refine List.pairwise_mergeSort (fun a b c => Std.TransCmp.isLE_trans) (fun a b => ?_) keys.toList
  have hswap : listing b a = (listing a b).swap := Std.OrientedCmp.eq_swap
  rw [hswap]
  cases listing a b <;> rfl

private theorem mem_listingOrder {keys : SortedSet Key} {k : Key} : k ∈ listingOrder keys ↔ k ∈ keys :=
  List.mem_mergeSort

private theorem nodup_listingOrder (keys : SortedSet Key) : (listingOrder keys).Nodup := by
  rw [listingOrder_eq, (List.mergeSort_perm _ _).nodup_iff]
  exact SortedSet.nodup_toList keys

variable {m : Mapping} {e : Evaluator} {version : Nat}

private theorem check_weight (h : Mapping.WeightsChecked m.weights) (k : Key) : (m.weight k).check = .ok () := by
  rw [Mapping.weight, SortedMap.getD]
  cases hk : m.weights.get? k with
  | none => decide +kernel
  | some w => exact h _ (SortedMap.mem_entries_of_get? hk)

/-- A share is finite and has no negative constant weight, if its weight series is finite. -/
private theorem of_shareOf (h : Mapping.WeightsChecked m.weights) {k : Key} {share : Share Float}
    (hshare : shareOf m e version k = .ok share)
    (hfinite : ∀ name ws, m.weight k = .series name → e.evaluateName name version = .ok ws →
      ∀ w ∈ ws, w.isFinite = true) :
    share.IsFinite ∧ share.exact.Nonneg := by
  have hcheck := check_weight h k
  rw [shareOf] at hshare
  cases hw : m.weight k with
  | constant w =>
    rw [hw] at hshare hcheck
    cases hshare
    rw [Weight.check] at hcheck
    split at hcheck
    · rename_i husable
      rw [Bool.and_eq_true, Bool.not_eq_true', decide_eq_false_iff_not] at husable
      exact ⟨husable.1, Decimal.exact_nonneg husable.2⟩
    · cases hcheck
  | series name =>
    rw [hw] at hshare
    obtain ⟨ws, hws, rfl⟩ := Outcome.map_eq_ok_iff.1 hshare
    exact ⟨hfinite name ws hw hws, trivial⟩

variable {c : Category} {series : String} {keys : SortedSet Key} {result : List (Key × List Float)}

/-- What a series is shared by, once that succeeds. -/
theorem of_distribute (hkeys : (m.category c).keysFor? series = some keys)
    (h : distribute m e c series version = .ok result) :
    ∃ shares values, (listingOrder keys).mapM (shareOf m e version) = .ok shares ∧
      e.evaluateName series version = .ok values ∧ (∀ x ∈ values, x.isFinite = true) ∧
      result = (listingOrder keys).zip (split shares values) := by
  rw [distribute, hkeys] at h
  obtain ⟨shares, hshares, h⟩ := Outcome.bind_eq_ok_iff.1 h
  obtain ⟨values, hvalues, h⟩ := Outcome.bind_eq_ok_iff.1 h
  obtain ⟨parts, hparts, h⟩ := Outcome.bind_eq_ok_iff.1 h
  obtain ⟨hfinite, rfl⟩ := apportion_eq_ok_iff.1 hparts
  cases h
  exact ⟨shares, values, hshares, hvalues, hfinite, rfl⟩

/-- The keys receive a series in parts: each of them once, in order, and what they receive is the outcome of a split
that divides the series in exact numbers. -/
structure Conserves (m : Mapping) (e : Evaluator) (version : Nat) (keys : SortedSet Key) (values : List Float)
    (result : List (Key × List Float)) : Prop where
  mem_keys_iff : ∀ k, k ∈ result.map (·.1) ↔ k ∈ keys
  nodup : (result.map (·.1)).Nodup
  ordered : (result.map (·.1)).Pairwise fun k l =>
    ((compare k.id l.id).then (compare k.driven.name l.driven.name)).isLE = true
  finite : ∀ x ∈ values, x.isFinite = true
  length_eq : ∀ entry ∈ result, entry.2.length = values.length
  divides : ∃ shares, (result.map (·.1)).mapM (shareOf m e version) = .ok shares ∧ (∀ s ∈ shares, s.IsFinite) ∧
    result.map (·.2) = split shares values ∧
    DividesSeries (values.map Decimal.exact) (split (shares.map Share.exact) (values.map Decimal.exact))

private theorem conserves_of_distribute (hchecked : Mapping.WeightsChecked m.weights)
    (hkeys : (m.category c).keysFor? series = some keys) (hfed : ∃ k, k ∈ keys)
    (hweights : ∀ k ∈ keys, ∀ name ws, m.weight k = .series name → e.evaluateName name version = .ok ws →
      ∀ w ∈ ws, w.isFinite = true)
    (h : distribute m e c series version = .ok result) :
    ∃ values, e.evaluateName series version = .ok values ∧ Conserves m e version keys values result := by
  obtain ⟨shares, values, hshares, hvalues, hfinite, rfl⟩ := of_distribute hkeys h
  obtain ⟨hlength, hof⟩ := Outcome.of_mapM hshares
  -- keys and parts stand side by side, so nothing is lost where they are listed together
  have hsplit : (split shares values).length = (listingOrder keys).length := by rw [length_split, hlength]
  have hkeysOf : ((listingOrder keys).zip (split shares values)).map (·.1) = listingOrder keys :=
    List.map_fst_zip (Nat.le_of_eq hsplit.symm)
  have hpartsOf : ((listingOrder keys).zip (split shares values)).map (·.2) = split shares values :=
    List.map_snd_zip (Nat.le_of_eq hsplit)
  have husable : ∀ s ∈ shares, s.IsFinite ∧ s.exact.Nonneg := by
    intro s hs
    obtain ⟨k, hk, hshare⟩ := hof s hs
    exact of_shareOf hchecked hshare (hweights k (mem_listingOrder.1 hk))
  have hne : shares ≠ [] := by
    rintro rfl
    obtain ⟨k, hk⟩ := hfed
    rw [← mem_listingOrder, List.length_eq_zero_iff.1 hlength.symm] at hk
    cases hk
  have hnonneg : ∀ s ∈ shares.map Share.exact, s.Nonneg := by
    intro s hs
    obtain ⟨t, ht, rfl⟩ := List.mem_map.1 hs
    exact (husable t ht).2
  refine ⟨values, hvalues, ?_⟩
  constructor
  case mem_keys_iff =>
    intro k
    rw [hkeysOf, mem_listingOrder]
  case nodup =>
    rw [hkeysOf]
    exact nodup_listingOrder keys
  case ordered =>
    rw [hkeysOf]
    exact listingOrder_ordered keys
  case finite => exact hfinite
  case length_eq =>
    intro entry hentry
    have hpart : entry.2 ∈ split shares values := by
      rw [← hpartsOf]
      exact List.mem_map_of_mem hentry
    exact length_of_mem_split hpart
  case divides =>
    exact ⟨shares, by rw [hkeysOf, hshares], fun s hs => (husable s hs).1, hpartsOf,
      dividesSeries_split (by simpa using hne) hnonneg _⟩

/-- In every mapping that a run reaches, a series that feeds keys is conserved when it is shared among them, if the
weights that are read from series are finite; a series with a value that is not finite is refused, and the first such
value is named. -/
theorem sharing_conserves :
    (∀ (o : Mapping.Origin) (steps : List Mapping.Step) (c : Category) (series : String) (keys : SortedSet Key)
      (e : Evaluator) (version : Nat) (result : List (Key × List Float)),
      ((o.mapping.run steps).category c).keysFor? series = some keys → (∃ k, k ∈ keys) →
      (∀ k ∈ keys, ∀ name ws, (o.mapping.run steps).weight k = .series name → e.evaluateName name version = .ok ws →
        ∀ w ∈ ws, w.isFinite = true) →
      distribute (o.mapping.run steps) e c series version = .ok result →
      ∃ values, e.evaluateName series version = .ok values ∧
        Conserves (o.mapping.run steps) e version keys values result) ∧
    ∀ (name : String) (values : List Float) (shares : List (Share Float)) (point : Nat) (value : Float),
      values[point]? = some value → value.isFinite = false → (∀ x ∈ values.take point, x.isFinite = true) →
      apportion name values shares = .error (.notFinite name point value) := by
  refine ⟨fun o steps c series keys e version result hkeys hfed hweights h => ?_,
    fun name values shares point value => apportion_of_not_finite name shares⟩
  exact conserves_of_distribute (Mapping.invariant_weightsChecked.run o steps) hkeys hfed hweights h

/-- Two parts of a load share a series. The first has no weight, and the second that of a key that was given none. -/
def sharingParts : Mapping :=
  Mapping.Origin.empty.mapping.run
    [.change (.bind .load "demand" Mapping.fixedPart (some (.constant 0.0))),
      .change (.bind .load "demand" Mapping.variablePart none)]

def sixAtTwoPoints : Evaluator := ⟨.empty, SortedMap.insert ∅ "demand" (.constant 6.0), some 2⟩

/-- The parts share the demand at both points, and nothing of it is lost. -/
theorem parts_share_demand : ∃ keys result values, (sharingParts.category .load).keysFor? "demand" = some keys ∧
    distribute sharingParts sixAtTwoPoints .load "demand" 1 = .ok result ∧ result.length = 2 ∧
    Conserves sharingParts sixAtTwoPoints 1 keys values result := by
  have hkeys : (sharingParts.category .load).keysFor? "demand" =
      some ((SortedSet.insert ∅ Mapping.variablePart).insert Mapping.fixedPart) := by decide +kernel
  have hfixed : sharingParts.weight Mapping.fixedPart = .constant 0.0 := by decide +kernel
  have hvariable : sharingParts.weight Mapping.variablePart = .constant 1.0 := by decide +kernel
  have hlisted : listingOrder ((SortedSet.insert ∅ Mapping.variablePart).insert Mapping.fixedPart) =
      [Mapping.fixedPart, Mapping.variablePart] := by
    have hlist : ((SortedSet.insert ∅ Mapping.variablePart).insert Mapping.fixedPart).toList =
        [Mapping.fixedPart, Mapping.variablePart] := by decide +kernel
    have hordered : [Mapping.fixedPart, Mapping.variablePart].Pairwise fun k l => (listing k l).isLE = true := by
      decide +kernel
    rw [listingOrder_eq, hlist]
    exact List.mergeSort_of_pairwise hordered
  have hshares : [Mapping.fixedPart, Mapping.variablePart].mapM (shareOf sharingParts sixAtTwoPoints 1) =
      .ok [.constant 0.0, .constant 1.0] := by
    rw [List.mapM_cons, List.mapM_cons, shareOf, shareOf, hfixed, hvariable]
    rfl
  have hvalues : sixAtTwoPoints.evaluateName "demand" 1 = .ok [6.0, 6.0] := rfl
  have hparts : apportion "demand" [6.0, 6.0] [.constant 0.0, .constant 1.0] = .ok _ :=
    apportion_eq_ok_iff.2 ⟨by decide +kernel, rfl⟩
  obtain ⟨result, hresult, hlength⟩ : ∃ result,
      distribute sharingParts sixAtTwoPoints .load "demand" 1 = .ok result ∧ result.length = 2 := by
    refine ⟨[Mapping.fixedPart, Mapping.variablePart].zip (split [.constant 0.0, .constant 1.0] [6.0, 6.0]), ?_, rfl⟩
    rw [distribute, hkeys]
    dsimp only
    rw [hlisted, hshares, Outcome.ok_bind, hvalues, Outcome.ok_bind, hparts]
    rfl
  have hconstant : ∀ k ∈ (SortedSet.insert ∅ Mapping.variablePart).insert Mapping.fixedPart, ∀ name ws,
      sharingParts.weight k = .series name → sixAtTwoPoints.evaluateName name 1 = .ok ws →
        ∀ w ∈ ws, w.isFinite = true := by
    intro k hk name ws hseries
    rw [SortedSet.mem_insert, SortedSet.mem_insert] at hk
    rcases hk with rfl | rfl | hk
    · cases hfixed.symm.trans hseries
    · cases hvariable.symm.trans hseries
    · exact absurd hk (SortedSet.not_mem_empty k)
  obtain ⟨values, _, hconserves⟩ := sharing_conserves.1 .empty _ .load "demand" _ sixAtTwoPoints 1 result hkeys
    ⟨Mapping.fixedPart, SortedSet.mem_insert.2 (.inl rfl)⟩ hconstant hresult
  exact ⟨_, result, values, hkeys, hresult, hlength, hconserves⟩

end GridSeries.Sharing
