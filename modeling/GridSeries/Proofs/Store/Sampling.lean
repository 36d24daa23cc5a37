import GridSeries.Proofs.Word
import GridSeries.Store.Sampling
import Mathlib.Algebra.Order.Ring.Int

/-! Points of a sampling and times. A point has its time as many spacings after the start as there are points before it,
wherever an instant can be told; a time belongs to the point whose spacing it falls in. Products too large for a word
lie past the last instant anyway, so neither way depends on words. -/
namespace GridSeries

namespace Instant

variable {t u : Instant}

private theorem inRange_iff : t.inRange = true ↔ earliest.millis ≤ t.millis ∧ t.millis ≤ latest.millis := by
  simp [inRange]

private theorem earliest_millis : earliest.millis = -8334601228800000 := by decide +kernel

private theorem latest_millis : latest.millis = 8210266876799999 := by decide +kernel

private theorem elapsed_le_maxPoint (ht : t.inRange = true) (hu : u.inRange = true) :
    t.millis - u.millis ≤ maxPoint := by
  have hmax : maxPoint = 9223372036854775807 := Word.maxSigned_eq
  have hearliest := earliest_millis
  have hlatest := latest_millis
  rw [inRange_iff] at ht hu
  omega

end Instant

namespace Sampling

variable {s : Sampling} {t u : Instant} {p : Nat}

/-- The point at a time is the one that the time lies at or after, by less than a spacing. -/
theorem pointAt?_eq_some_iff (hspacing : 0 < s.spacing) : s.pointAt? t = some p ↔
    p < s.count ∧ s.start.millis + p * s.spacing ≤ t.millis ∧ t.millis < s.start.millis + (p + 1) * s.spacing := by
  have hoffset : 0 ≤ p * s.spacing := Int.mul_nonneg (Int.natCast_nonneg p) hspacing.le
  rw [pointAt?]
  by_cases hbefore : t.millis < s.start.millis
  · rw [if_pos (.inr hbefore)]
    exact iff_of_false (fun h => nomatch h) fun ⟨_, hle, _⟩ => by omega
  · rw [if_neg (by omega)]
    have hquotient : 0 ≤ (t.millis - s.start.millis) / s.spacing := Int.ediv_nonneg (by omega) hspacing.le
    have hlower : (p : Int) ≤ (t.millis - s.start.millis) / s.spacing ↔
        p * s.spacing ≤ t.millis - s.start.millis := Int.le_ediv_iff_mul_le hspacing
    have hupper : (t.millis - s.start.millis) / s.spacing < p + 1 ↔
        t.millis - s.start.millis < (p + 1) * s.spacing := Int.ediv_lt_iff_lt_mul hspacing
    dsimp only
    split
    · rw [Option.some_inj]
      omega
    · exact iff_of_false (fun h => nomatch h) (by omega)

/-- A point has a time if there is such a point and such an instant. That its number and the product fit words is no
condition of its own: no more milliseconds lie between two instants than a word holds. -/
theorem timeAt?_eq_some_iff (hspacing : 0 < s.spacing) (hstart : s.start.inRange = true) :
    s.timeAt? p = some t ↔ p < s.count ∧ t.inRange = true ∧ t.millis = s.start.millis + p * s.spacing := by
  rw [timeAt?]
  constructor
  · intro h
    split at h
    · rename_i hdefined
      obtain ⟨hp, _, _, _, hrange⟩ := hdefined
      cases h
      exact ⟨hp, hrange, rfl⟩
    · cases h
  · rintro ⟨hp, ht, hmillis⟩
    have htime : (⟨s.start.millis + p * s.spacing⟩ : Instant) = t := by rw [← hmillis]
    -- the product lies between zero and the distance of two instants, and the point below the product
    have hoffset := Instant.elapsed_le_maxPoint ht hstart
    have hpoint : (p : Int) * 1 ≤ p * s.spacing := Int.mul_le_mul_of_nonneg_left hspacing (Int.natCast_nonneg p)
    have hmin : minPoint ≤ 0 := by decide
    rw [htime, if_pos ⟨hp, by omega, by omega, by omega, ht⟩]

/-- The point at a time has a time itself, which is not later. -/
theorem exists_timeAt? (hspacing : 0 < s.spacing) (hstart : s.start.inRange = true) (ht : t.inRange = true)
    (h : s.pointAt? t = some p) : ∃ u, s.timeAt? p = some u ∧ u.millis ≤ t.millis := by
  obtain ⟨hp, hle, _⟩ := (pointAt?_eq_some_iff hspacing).1 h
  have hoffset : 0 ≤ p * s.spacing := Int.mul_nonneg (Int.natCast_nonneg p) hspacing.le
  have hrange : (⟨s.start.millis + p * s.spacing⟩ : Instant).inRange = true := by
    rw [Instant.inRange_iff] at hstart ht ⊢
    dsimp only
    omega
  exact ⟨_, (timeAt?_eq_some_iff hspacing hstart).2 ⟨hp, hrange, rfl⟩, hle⟩

/-- The point at a time, every number on the way to it being put into a word. -/
def pointAtIn (a : Word.Arithmetic) (s : Sampling) (t : Instant) : Option (Option Nat) :=
  if s.spacing ≤ 0 ∨ t.millis < s.start.millis then some none
  else do
    let elapsed ← a.signed (t.millis - s.start.millis)
    let point ← a.unsigned (← a.signed (elapsed.tdiv s.spacing))
    some (if point < s.count then some point else none)

/-- All numbers on the way to the point at an instant fit words. -/
theorem pointAtIn_eq (a : Word.Arithmetic) (hstart : s.start.inRange = true) (ht : t.inRange = true) :
    s.pointAtIn a t = some (s.pointAt? t) := by
  rw [pointAtIn, pointAt?]
  split
  · rfl
  · have hmin := Word.minSigned_eq
    have hmax := Word.maxSigned_eq
    have hall := Word.maxUnsigned_eq
    have hfits : t.millis - s.start.millis ≤ Word.maxSigned := Instant.elapsed_le_maxPoint ht hstart
    have hquotient : 0 ≤ (t.millis - s.start.millis) / s.spacing := Int.ediv_nonneg (by omega) (by omega)
    have hle : (t.millis - s.start.millis) / s.spacing ≤ t.millis - s.start.millis :=
      Int.ediv_le_self s.spacing (by omega)
    rw [a.signed_bind (by omega) hfits, Int.tdiv_eq_ediv_of_nonneg (by omega)]
    dsimp only
    rw [a.signed_bind (by omega) (by omega),
      a.unsigned_bind (Int.toNat_of_nonneg hquotient).symm (by omega)]

/-- Points and times correspond. With a positive spacing a time belongs to the point that it lies at or after, by less
than a spacing; a point has a time wherever there is such an instant, which is as many spacings after the start as its
number says. The time of a point belongs to the point, and the point at a time has a time of its own, at or before that
one. Words hold all numbers on the way. -/
theorem points_and_times_correspond (hspacing : 0 < s.spacing) (hstart : s.start.inRange = true) :
    (∀ t p, s.pointAt? t = some p ↔ p < s.count ∧
      s.start.millis + p * s.spacing ≤ t.millis ∧ t.millis < s.start.millis + (p + 1) * s.spacing) ∧
    (∀ p t, s.timeAt? p = some t ↔
      p < s.count ∧ t.inRange = true ∧ t.millis = s.start.millis + p * s.spacing) ∧
    (∀ p t, s.timeAt? p = some t → s.pointAt? t = some p) ∧
    (∀ t p, t.inRange = true → s.pointAt? t = some p → ∃ u, s.timeAt? p = some u ∧ u.millis ≤ t.millis) ∧
    ∀ (a : Word.Arithmetic) t, t.inRange = true → s.pointAtIn a t = some (s.pointAt? t) := by
  refine ⟨fun t p => pointAt?_eq_some_iff hspacing, fun p t => timeAt?_eq_some_iff hspacing hstart, fun p t h => ?_,
    fun t p ht => exists_timeAt? hspacing hstart ht, fun a t ht => pointAtIn_eq a hstart ht⟩
  obtain ⟨hp, _, hmillis⟩ := (timeAt?_eq_some_iff hspacing hstart).1 h
  have hnext : p * s.spacing < (p + 1) * s.spacing := by
    rw [Int.add_mul, Int.one_mul]
    exact Int.lt_add_of_pos_right _ hspacing
  exact (pointAt?_eq_some_iff hspacing).2 ⟨hp, hmillis.ge, by omega⟩

/-- A sampling that has more points than there are hours left to tell. -/
def lastHours : Sampling := ⟨⟨Instant.latest.millis - 5400000⟩, 3600000, 24⟩

/-- The last instant belongs to the second point, whose time is half an hour earlier; the third point has no time. -/
theorem lastHours_correspond :
    lastHours.pointAt? Instant.latest = some 1 ∧
      (∃ u, lastHours.timeAt? 1 = some u ∧ u.millis ≤ Instant.latest.millis ∧ lastHours.pointAt? u = some 1) ∧
      ∀ t, lastHours.timeAt? 2 ≠ some t := by
  have hlatest : Instant.latest.inRange = true := by decide +kernel
  obtain ⟨hpoint, htime, hround, hbefore, _⟩ :=
    points_and_times_correspond (s := lastHours) (by decide) (by decide +kernel)
  have hsecond := (hpoint Instant.latest 1).2 (by decide +kernel)
  obtain ⟨u, hu, hle⟩ := hbefore Instant.latest 1 hlatest hsecond
  refine ⟨hsecond, ⟨u, hu, hle, hround 1 u hu⟩, fun t ht => ?_⟩
  obtain ⟨_, hrange, hmillis⟩ := (htime 2 t).1 ht
  have hpast : Instant.latest.millis < lastHours.start.millis + (2 : Nat) * lastHours.spacing := by decide +kernel
  have hlast := (Instant.inRange_iff.1 hrange).2
  omega

end Sampling
end GridSeries
