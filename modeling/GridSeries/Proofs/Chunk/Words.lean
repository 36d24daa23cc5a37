import GridSeries.Proofs.Chunk.Partition
import GridSeries.Proofs.Word

/-! Cutting chunks in machine words. Bounds of intervals are words with a sign, numbers of points and positions are
words without one, and every result goes into a word before it is used. The numbers of a cutter, the number of its chunks
and the chunk of a point all fit. -/
namespace GridSeries
open Word (Arithmetic maxSigned minSigned maxUnsigned maxSigned_eq minSigned_eq maxUnsigned_eq)

/-- The number of points of an interval. -/
def Interval.sizeIn (a : Arithmetic) (r : Interval) : Option Nat :=
  if r.upper < r.lower then some 0
  else do
    let span ← a.unsigned (← a.signed (r.upper - r.lower))
    a.unsigned (span + 1)

namespace Cutter

section Steps

variable (a : Arithmetic)

def placeIn (before : Nat) : List Interval → Option (List (Nat × Interval) × Nat)
  | [] => some ([], before)
  | r :: rest => do
    let next ← a.unsigned (before + (← r.sizeIn a))
    let (placed, total) ← placeIn next rest
    some ((before, r) :: placed, total)

/-- A faulty request is refused as in exact arithmetic; for any other there is a cutter if its numbers have words. -/
def makeIn (intervals : List Interval) (size : Int) : Except Fault (Option Cutter) := do
  if size < 1 then throw (.chunkSize size)
  if intervals.isEmpty then throw (.config .noInterval)
  let arranged ← Interval.arrange intervals
  pure do
    let (placed, total) ← placeIn a 0 arranged
    let size ← a.unsigned size
    some { placed, total, size }

/-- One chunk for each full size of points, and one for the rest. -/
def countIn (c : Cutter) : Option Nat := do
  let full ← a.unsigned (c.total / c.size : Nat)
  if c.total % c.size = 0 then some full else a.unsigned (full + 1)

def hasChunkIn (c : Cutter) (index : Int) : Option Bool :=
  if index < 0 then some false
  else do
    let index ← a.unsigned index
    some (decide (index < (← c.countIn a)))

/-- The last point before a position of an interval that begins at `lower`. -/
def lastIn (lower : Int) (high : Nat) : Option Int := do
  let past ← a.signed (lower + (← a.signed high))
  a.signed (past - 1)

/-- The part of an interval whose positions lie from `start` on, before `stop`. -/
def pieceIn (start stop : Nat) (e : Nat × Interval) : Option (Option Interval) := do
  let low ← a.unsigned ((max start e.1 : Nat) - e.1)
  let past ← a.unsigned (e.1 + (← e.2.sizeIn a))
  let high ← a.unsigned ((min stop past : Nat) - e.1)
  if low < high then
    let lower ← a.signed (e.2.lower + (← a.signed low))
    let upper ← lastIn a e.2.lower high
    some (some ⟨lower, upper⟩)
  else some none

def piecesIn (start stop : Nat) : List (Nat × Interval) → Option (List Interval)
  | [] => some []
  | e :: rest =>
    if stop ≤ e.1 then some []
    else do
      let piece ← pieceIn a start stop e
      let later ← piecesIn start stop rest
      some (piece.toList ++ later)

def segmentsIn (c : Cutter) (index : Int) : Option (List Interval) := do
  if ← c.hasChunkIn a index then
    let start ← a.unsigned ((← a.unsigned index) * c.size)
    let past ← a.unsigned (start + c.size)
    piecesIn a start (min past c.total) (c.placed.drop (c.firstTouched start))
  else some []

def hullIn (c : Cutter) (index : Int) : Option Interval := (c.segmentsIn a index).map Interval.hullOf

def chunkOfIn (c : Cutter) (point : Int) : Option Nat :=
  match c.placed.find? fun e => decide (point ∈ e.2) with
  | some (before, r) => do
    let position ← a.unsigned (before + (← a.unsigned (← a.signed (point - r.lower))))
    a.unsigned (position / c.size : Nat)
  | none => some 0

end Steps

/-- Cuts of intervals whose upper bounds, like the size of chunks, are words with a sign. -/
structure WordCuts (c : Cutter) (rs : List Interval) : Prop extends c.Cuts rs where
  upper_le : ∀ r ∈ rs, r.upper ≤ maxSigned
  size_le : c.size ≤ maxSigned

/-- Intervals that lie apart hold no more points than there are from the first of their bounds to the largest. -/
private theorem totalSize_le {r : Interval} {rest : List Interval} (h : Interval.Arranged (r :: rest))
    (hupper : ∀ s ∈ r :: rest, s.upper ≤ maxSigned) :
    Interval.totalSize (r :: rest) + r.lower ≤ maxSigned + 1 := by
  induction rest generalizing r with
  | nil =>
    have hr := hupper r (by simp)
    have hv := Interval.isValid_iff.1 (h.valid r (by simp))
    simp only [Interval.totalSize, Interval.size]
    omega
  | cons s rest ih =>
    -- the rest begins past the end of the first interval
    have hrest := ih h.tail fun t ht => hupper t (List.mem_cons_of_mem r ht)
    have hv := Interval.isValid_iff.1 (h.valid r (by simp))
    have happart := (List.pairwise_cons.1 h.apart).1 s (by simp)
    rw [Interval.totalSize]
    simp only [Interval.size]
    omega

private theorem position_le_of_mem_place {before : Nat} {rs : List Interval} {e : Nat × Interval}
    (h : e ∈ place before rs) :
    e.1 + e.2.size ≤ before + Interval.totalSize rs := by
  induction rs generalizing before with
  | nil => cases h
  | cons r rest ih =>
    rw [Interval.totalSize]
    rcases List.mem_cons.1 h with rfl | h
    · dsimp only
      omega
    · have := ih h
      omega

namespace WordCuts

variable {c : Cutter} {rs : List Interval}

private theorem total_eq_totalSize (h : c.WordCuts rs) : c.total = Interval.totalSize rs := by
  rw [h.total_eq, Interval.length_flatMap_points]

/-- There are at most as many points as point numbers that are not negative. -/
theorem total_le (h : c.WordCuts rs) : c.total ≤ maxSigned + 1 := by
  rw [h.total_eq_totalSize]
  obtain ⟨r, rest, rfl⟩ := List.exists_cons_of_ne_nil h.nonempty
  have hsum := totalSize_le h.arranged h.upper_le
  have hv := Interval.isValid_iff.1 (h.arranged.valid r (by simp))
  omega

/-- What is known of a placed interval. -/
theorem of_mem_placed (h : c.WordCuts rs) {e : Nat × Interval} (he : e ∈ c.placed) :
    0 ≤ e.2.lower ∧ e.2.lower ≤ e.2.upper ∧ e.2.upper ≤ maxSigned ∧ e.1 + e.2.size ≤ c.total := by
  rw [h.placed_eq] at he
  have hmem := mem_of_mem_place he
  obtain ⟨hlower, hle⟩ := Interval.isValid_iff.1 (h.arranged.valid e.2 hmem)
  have hend := position_le_of_mem_place he
  rw [← h.total_eq_totalSize, Nat.zero_add] at hend
  exact ⟨hlower, hle, h.upper_le e.2 hmem, hend⟩

end WordCuts

variable {a : Arithmetic} {c : Cutter} {rs : List Interval}

/-- The size of a valid interval is computed from numbers that fit. -/
theorem sizeIn_eq {r : Interval} (hlower : 0 ≤ r.lower) (hle : r.lower ≤ r.upper) (hupper : r.upper ≤ maxSigned) :
    r.sizeIn a = some r.size := by
  have hmax := maxSigned_eq
  have hmin := minSigned_eq
  have hall := maxUnsigned_eq
  rw [Interval.sizeIn, if_neg (by omega), a.signed_bind (by omega) (by omega),
    a.unsigned_bind (k := (r.upper - r.lower).toNat) (by omega) (by omega)]
  exact a.unsigned_of (by rw [Interval.size]; omega) (by rw [Interval.size]; omega)

private theorem placeIn_eq {before : Nat} {rs : List Interval} (hv : ∀ r ∈ rs, r.isValid = true)
    (hupper : ∀ r ∈ rs, r.upper ≤ maxSigned) (h : before + Interval.totalSize rs ≤ maxUnsigned) :
    placeIn a before rs = some (place before rs, before + Interval.totalSize rs) := by
  induction rs generalizing before with
  | nil => rfl
  | cons r rest ih =>
    obtain ⟨hlower, hle⟩ := Interval.isValid_iff.1 (hv r (by simp))
    rw [Interval.totalSize] at h
    have hrest : placeIn a (before + r.size) rest = some (place (before + r.size) rest, _) :=
      ih (fun s hs => hv s (List.mem_cons_of_mem r hs)) (fun s hs => hupper s (List.mem_cons_of_mem r hs)) (by omega)
    rw [placeIn, sizeIn_eq hlower hle (hupper r (by simp))]
    change (a.unsigned (before + r.size) >>= _) = _
    rw [a.unsigned_bind (k := before + r.size) (by omega) (by omega), hrest, place, Interval.totalSize, Nat.add_assoc]
    rfl

/-- The cuts of a cutter that is made of words. -/
theorem wordCuts_of_make {rs : List Interval} {size : Int} (hrs : ∀ r ∈ rs, r.upper ≤ maxSigned)
    (hsize : size ≤ maxSigned) (h : make rs size = .ok c) :
    ∃ sorted, c.WordCuts sorted := by
  obtain ⟨sorted, hcuts, hperm, hs⟩ := cuts_of_make h
  have hmax := maxSigned_eq
  exact ⟨sorted, { hcuts with
    upper_le := fun r hr => hrs r (hperm.mem_iff.1 hr)
    size_le := by omega }⟩

/-- Requests are refused as in exact arithmetic, and all others give the exact cutter. -/
theorem makeIn_eq {rs : List Interval} {size : Int} (hrs : ∀ r ∈ rs, r.upper ≤ maxSigned) (hsize : size ≤ maxSigned) :
    makeIn a rs size = (make rs size).map some := by
  have hmax := maxSigned_eq
  have hall := maxUnsigned_eq
  rw [makeIn, make]
  by_cases hs : size < 1
  · rw [if_pos hs, if_pos hs]
    rfl
  · rw [if_neg hs, if_neg hs]
    by_cases he : rs.isEmpty = true
    · rw [if_pos he, if_pos he]
      rfl
    · rw [if_neg he, if_neg he]
      cases harr : Interval.arrange rs with
      | error fault => rfl
      | ok sorted =>
        obtain ⟨harranged, hperm⟩ := Interval.arrange_spec harr
        have hcuts : WordCuts { placed := place 0 sorted, total := Interval.totalSize sorted, size := size.toNat }
            sorted := {
          arranged := harranged
          nonempty := fun hn => he (by simpa [hn] using hperm)
          placed_eq := rfl
          total_eq := (Interval.length_flatMap_points sorted).symm
          size_pos := by simp; omega
          upper_le := fun r hr => hrs r (hperm.mem_iff.1 hr)
          size_le := by simp; omega }
        have htotal := hcuts.total_le
        dsimp only at htotal
        have hplace : placeIn a 0 sorted = some (place 0 sorted, _) :=
          placeIn_eq harranged.valid hcuts.upper_le (by omega)
        change Except.ok (placeIn a 0 sorted >>= _) = Except.ok (some _)
        rw [hplace, Nat.zero_add]
        change Except.ok (a.unsigned size >>= _) = Except.ok (some _)
        rw [a.unsigned_bind (k := size.toNat) (by omega) (by omega)]

namespace WordCuts

/-- There are at most as many chunks as points. -/
theorem count_le (h : c.WordCuts rs) : c.count ≤ maxSigned + 1 := by
  obtain ⟨_, hlast, _⟩ := count_bounds h.toCuts
  have htotal := h.total_le
  have hle : c.count - 1 ≤ (c.count - 1) * c.size := Nat.le_mul_of_pos_right _ h.size_pos
  omega

/-- The number of chunks is computed from numbers that fit. -/
theorem countIn_eq (h : c.WordCuts rs) : c.countIn a = some c.count := by
  have hall := maxUnsigned_eq
  have hmax := maxSigned_eq
  have hcount := h.count_le
  have hsize := h.size_pos
  have htotal := h.total_le
  have hfull : c.total / c.size ≤ c.total := Nat.div_le_self _ _
  have hdiv := Nat.div_add_mod' c.total c.size
  have hmod := Nat.mod_lt c.total hsize
  rw [countIn, a.unsigned_bind rfl (by omega)]
  split
  · have hcount : c.count = c.total / c.size := by
      rw [count, Nat.div_eq_iff hsize]
      omega
    rw [hcount]
  · have hcount : c.count = c.total / c.size + 1 := by
      rw [count, Nat.div_eq_iff hsize, Nat.succ_mul]
      omega
    rw [hcount]
    exact a.unsigned_of rfl (by omega)

/-- Whether a chunk exists is found from numbers that fit. -/
theorem hasChunkIn_eq (h : c.WordCuts rs) {index : Int} (hindex : index ≤ maxSigned) :
    c.hasChunkIn a index = some (c.hasChunk index) := by
  have hall := maxUnsigned_eq
  have hmax := maxSigned_eq
  rw [hasChunkIn]
  split
  · rename_i hneg
    simp [hasChunk, hneg]
  · rename_i hneg
    rw [a.unsigned_bind (k := index.toNat) (by omega) (by omega), h.countIn_eq]
    change some (decide (index.toNat < c.count)) = _
    rw [hasChunk, decide_eq_true (show 0 ≤ index by omega), Bool.true_and, Option.some.injEq, decide_eq_decide]
    omega

/-- The chunk of a point is found from numbers that fit. -/
theorem chunkOfIn_eq (h : c.WordCuts rs) {point : Int} (hpoint : point ≤ maxSigned) :
    c.chunkOfIn a point = some (c.chunkOf point) := by
  have hall := maxUnsigned_eq
  have hmax := maxSigned_eq
  have hmin := minSigned_eq
  have htotal := h.total_le
  rw [chunkOfIn, chunkOf]
  cases hfind : c.placed.find? fun e => decide (point ∈ e.2) with
  | none => rfl
  | some e =>
    obtain ⟨before, r⟩ := e
    obtain ⟨hlower, hle, hupper, hend⟩ := h.of_mem_placed (List.mem_of_find?_eq_some hfind)
    have hmem := List.find?_some hfind
    rw [decide_eq_true_eq, Interval.mem_iff] at hmem
    rw [Interval.size] at hend
    dsimp only at hlower hle hupper hend hmem ⊢
    have hdiv : (before + (point - r.lower).toNat) / c.size ≤ before + (point - r.lower).toNat := Nat.div_le_self _ _
    rw [a.signed_bind (by omega) (by omega), a.unsigned_bind (k := (point - r.lower).toNat) (by omega) (by omega),
      a.unsigned_bind (k := before + (point - r.lower).toNat) (by omega) (by omega)]
    exact a.unsigned_of rfl (by omega)

end WordCuts

end Cutter
end GridSeries
