import GridSeries.Fault

/-! Operations that change a value of type `σ` and may fail. A failed operation also says what it left behind. -/
namespace GridSeries

/-- An operation on a value of type `σ` with an answer of type `α`. -/
abbrev Update (σ α : Type) := ExceptT Fault (StateM σ) α

namespace Update

variable {σ α β : Type}

/-- Applies an operation: its answer, and the value it leaves. -/
def apply (u : Update σ α) (s : σ) : Except Fault α × σ := StateT.run (ExceptT.run u) s

def after (u : Update σ α) (s : σ) : σ := (u.apply s).2

/-- Fails with the fault of a computation, or gives its answer. -/
def ofExcept (e : Except Fault α) : Update σ α :=
  match e with
  | .ok a => pure a
  | .error f => throw f

@[simp]
theorem apply_pure (a : α) (s : σ) : apply (pure a : Update σ α) s = (.ok a, s) := rfl

/-- An operation that fails at once leaves the state as it is. -/
@[simp]
theorem apply_throw (f : Fault) (s : σ) : apply (throw f : Update σ α) s = (.error f, s) := rfl

@[simp]
theorem apply_get (s : σ) : apply (get : Update σ σ) s = (.ok s, s) := rfl

@[simp]
theorem apply_set (t s : σ) : apply (set t : Update σ Unit) s = (.ok (), t) := rfl

@[simp]
theorem apply_modify (g : σ → σ) (s : σ) : apply (modify g : Update σ Unit) s = (.ok (), g s) := rfl

@[simp]
theorem apply_ofExcept (e : Except Fault α) (s : σ) : apply (ofExcept e) s = (e, s) := by cases e <;> rfl

/-- What follows a failure is not carried out, and the value stays as the failure left it. -/
theorem apply_bind (u : Update σ α) (f : α → Update σ β) (s : σ) :
    apply (u >>= f) s =
      match u.apply s with
      | (.ok a, t) => (f a).apply t
      | (.error e, t) => (.error e, t) := by
  unfold apply ExceptT.run StateT.run
  simp only [bind, ExceptT.bind, ExceptT.mk, StateT.bind, ExceptT.bindCont]
  cases u s with
  | mk e t => cases e <;> rfl

end Update
end GridSeries
