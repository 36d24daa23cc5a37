import GridSeries.Evaluation
import Mathlib.Logic.Relation

/-! What an evaluation reads and what it may come to: values that fit a number of points, and the stored series that a
name leads to. -/
namespace GridSeries
open Relation (ReflTransGen)

namespace Values

variable {count : Nat} {v w : Values}

/-- The values are one for each of `count` points, or the same everywhere. -/
def Fits (count : Nat) : Values → Prop
  | everywhere _ => True
  | points xs => xs.length = count

/-- A function on single values keeps how many there are. -/
theorem Fits.map (h : v.Fits count) (f : Float → Float) : (v.map f).Fits count := by
  cases v with
  | everywhere x => trivial
  | points xs => exact (List.length_map _).trans h

/-- Values that fit the same points can be combined. -/
theorem Fits.combine (hv : v.Fits count) (hw : w.Fits count) (whole : Formula) (f : Float → Float → Float) :
    ∃ u, Values.combine whole f v w = .ok u ∧ u.Fits count := by
  cases v with
  | everywhere x =>
    cases w with
    | everywhere y => exact ⟨_, rfl, trivial⟩
    | points ys => exact ⟨_, rfl, (List.length_map _).trans hw⟩
  | points xs =>
    cases w with
    | everywhere y => exact ⟨_, rfl, (List.length_map _).trans hv⟩
    | points ys =>
      have hlength : xs.length = ys.length := Eq.trans hv (Eq.symm hw)
      refine ⟨_, if_pos hlength, ?_⟩
      rw [Fits, List.length_zipWith, ← hlength, Nat.min_self]
      exact hv

/-- Spread over a number of points, values are that many. -/
theorem Fits.length_spread (h : v.Fits count) : (v.spread count).length = count := by
  cases v with
  | everywhere x => exact List.length_replicate
  | points xs => exact h

end Values

/-- An evaluation ends in values that fit, or at a name that depends on itself. -/
def Settles (count : Nat) (out : Except Fault Values) : Prop :=
  (∃ v, out = .ok v ∧ v.Fits count) ∨ ∃ name, out = .error (.cycle name)

/-- Values that an evaluation settles on fit. -/
theorem Settles.fits_of_ok {count : Nat} {v : Values} (h : Settles count (.ok v)) : v.Fits count := by
  rcases h with ⟨w, hw, hfits⟩ | ⟨n, hn⟩
  · cases hw
    exact hfits
  · cases hn

namespace Evaluator

/-- The formula that a name stands for refers to the second name. -/
def Refers (e : Evaluator) (a b : String) : Prop := ∃ f, e.definition? a = some f ∧ b ∈ f.references

/-- Evaluating the first name comes to the second one, which stands for stored values. -/
def Reads (e : Evaluator) (a b : String) : Prop := ReflTransGen e.Refers a b ∧ e.definition? b = none

variable {e : Evaluator} {name b : String} {f : Formula}

/-- A name with a definition reads what the names of its definition read. -/
theorem reads_of_defined (hf : e.definition? name = some f) : e.Reads name b ↔ ∃ n ∈ f.references, e.Reads n b := by
  constructor
  · rintro ⟨hpath, hb⟩
    rcases ReflTransGen.cases_head hpath with rfl | ⟨n, ⟨g, hg, hn⟩, hrest⟩
    · cases hf.symm.trans hb
    · cases hf.symm.trans hg
      exact ⟨n, hn, hrest, hb⟩
  · rintro ⟨n, hn, hrest, hb⟩
    exact ⟨.head ⟨f, hf, hn⟩ hrest, hb⟩

/-- A name without one reads itself. -/
theorem reads_of_undefined (hname : e.definition? name = none) : e.Reads name b ↔ b = name := by
  constructor
  · rintro ⟨hpath, _⟩
    rcases ReflTransGen.cases_head hpath with heq | ⟨n, ⟨g, hg, _⟩, _⟩
    · exact heq.symm
    · cases hname.symm.trans hg
  · rintro rfl
    exact ⟨.refl, hname⟩

end Evaluator
end GridSeries
