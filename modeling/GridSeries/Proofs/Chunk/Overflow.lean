import GridSeries.Proofs.Chunk.Words

/-! The pieces of chunks in machine words. All numbers fit but for one: the last point of a piece is found from the
point past it, and past the largest point of all there is none. -/
namespace GridSeries.Cutter
open GridSeries.Interval (Covers hullOf)
open Word (Arithmetic maxSigned minSigned maxUnsigned maxSigned_eq minSigned_eq maxUnsigned_eq)

variable {a : Arithmetic} {c : Cutter} {rs : List Interval}

private theorem lastIn_eq {lower : Int} {high : Nat} (hlower : 0 ≤ lower) (h : lower + high ≤ maxSigned) :
    lastIn a lower high = some (lower + high - 1) := by
  have hmin := minSigned_eq
  rw [lastIn, a.signed_bind (by omega) (by omega), a.signed_bind (by omega) (by omega)]
  exact a.signed_eq (by omega) (by omega)

private theorem lastIn_checked {lower : Int} {high : Nat} (h : lower + high = maxSigned + 1) :
    lastIn Word.checked lower high = none := by
  have hmax := maxSigned_eq
  have hmin := minSigned_eq
  rw [lastIn]
  by_cases hhigh : (high : Int) ≤ maxSigned
  · have hpast : Word.checked.signed (lower + high) = none := Word.signed?_of_lt (by omega)
    rw [Word.checked.signed_bind (by omega) hhigh, hpast]
    rfl
  · have hcast : Word.checked.signed high = none := Word.signed?_of_lt (by omega)
    rw [hcast]
    rfl

private theorem lastIn_wrapping {lower : Int} {high : Nat} (hlower : 0 ≤ lower) (h : lower + high ≤ maxSigned + 1) :
    lastIn Word.wrapping lower high = some (lower + high - 1) := by
  have hmin := minSigned_eq
  -- the result fits, so it is its own remainder, and remainders may be taken at each step or once at the end
  rw [← Word.wrapping.signed_eq (n := lower + high - 1) (by omega) (by omega)]
  change some _ = some _
  rw [Int.bmod_sub_bmod, add_sub_right_comm, Int.add_bmod_bmod, add_sub_right_comm]

namespace WordCuts

variable {start stop : Nat} {e : Nat × Interval} {s : Interval}

/-- Where a piece begins and ends in its interval is found from numbers that fit. -/
private theorem pieceIn_of_mem (h : c.WordCuts rs) (he : e ∈ c.placed) (hstart : start ≤ c.total) (hstop : e.1 < stop) :
    pieceIn a start stop e =
      if max start e.1 - e.1 < min stop (e.1 + e.2.size) - e.1 then do
        let lower ← a.signed (e.2.lower + (← a.signed (max start e.1 - e.1 : Nat)))
        let upper ← lastIn a e.2.lower (min stop (e.1 + e.2.size) - e.1)
        some (some ⟨lower, upper⟩)
      else some none := by
  have hmax := maxSigned_eq
  have hall := maxUnsigned_eq
  obtain ⟨hlower, hle, hupper, hend⟩ := h.of_mem_placed he
  have htotal := h.total_le
  rw [pieceIn, a.unsigned_bind (k := max start e.1 - e.1) (by omega) (by omega), sizeIn_eq hlower hle hupper]
  change (a.unsigned (e.1 + e.2.size) >>= _) = _
  rw [a.unsigned_bind (k := e.1 + e.2.size) (by omega) (by omega),
    a.unsigned_bind (k := min stop (e.1 + e.2.size) - e.1) (by omega) (by omega)]

private theorem pieceIn_of_some (h : c.WordCuts rs) (he : e ∈ c.placed) (hstart : start ≤ c.total)
    (hs : part? start stop e = some s) :
    0 ≤ e.2.lower ∧ s.upper ≤ maxSigned ∧ ∃ high : Nat, s.upper = e.2.lower + high - 1 ∧
      pieceIn a start stop e = (lastIn a e.2.lower high).map fun upper => some ⟨s.lower, upper⟩ := by
  have hmax := maxSigned_eq
  have hmin := minSigned_eq
  obtain ⟨hlower, hle, hupper, _⟩ := h.of_mem_placed he
  have hinside := (of_part?_eq_some hs).2
  have hsize : e.2.size = (e.2.upper + 1 - e.2.lower).toNat := rfl
  unfold part? at hs
  dsimp only at hs
  split at hs
  · rename_i hlt
    cases hs
    refine ⟨hlower, by omega, _, rfl, ?_⟩
    rw [h.pieceIn_of_mem he hstart (by omega), if_pos hlt, a.signed_bind (by omega) (by omega),
      a.signed_bind (by omega) (by omega)]
    cases lastIn a e.2.lower (min stop (e.1 + e.2.size) - e.1) <;> rfl
  · cases hs

private theorem pieceIn_of_none (h : c.WordCuts rs) (he : e ∈ c.placed) (hstart : start ≤ c.total) (hstop : e.1 < stop)
    (hs : part? start stop e = none) : pieceIn a start stop e = some none := by
  unfold part? at hs
  dsimp only at hs
  split at hs
  · cases hs
  · rename_i hlt
    rw [h.pieceIn_of_mem he hstart hstop, if_neg hlt]

private theorem pieceIn_eq (h : c.WordCuts rs) (he : e ∈ c.placed) (hstart : start ≤ c.total) (hstop : e.1 < stop)
    (hfits : ∀ s, part? start stop e = some s → s.upper ≠ maxSigned) :
    pieceIn a start stop e = some (part? start stop e) := by
  cases hs : part? start stop e with
  | none => exact h.pieceIn_of_none he hstart hstop hs
  | some s =>
    obtain ⟨hlower, hle, high, hlast, hpiece⟩ := h.pieceIn_of_some (a := a) he hstart hs
    have hne := hfits s hs
    rw [hpiece, lastIn_eq hlower (by omega), ← hlast]
    rfl

private theorem pieceIn_wrapping (h : c.WordCuts rs) (he : e ∈ c.placed) (hstart : start ≤ c.total)
    (hstop : e.1 < stop) :
    pieceIn Word.wrapping start stop e = some (part? start stop e) := by
  cases hs : part? start stop e with
  | none => exact h.pieceIn_of_none he hstart hstop hs
  | some s =>
    obtain ⟨hlower, hle, high, hlast, hpiece⟩ := h.pieceIn_of_some he hstart hs
    rw [hpiece, lastIn_wrapping hlower (by omega), ← hlast]
    rfl

private theorem pieceIn_checked (h : c.WordCuts rs) (he : e ∈ c.placed) (hstart : start ≤ c.total)
    (hs : part? start stop e = some s) (hupper : s.upper = maxSigned) :
    pieceIn Word.checked start stop e = none := by
  obtain ⟨hlower, hle, high, hlast, hpiece⟩ := h.pieceIn_of_some he hstart hs
  rw [hpiece, lastIn_checked (by omega)]
  rfl

end WordCuts

private theorem piecesIn_eq {start stop : Nat} {l : List (Nat × Interval)}
    (h : ∀ e ∈ l, e.1 < stop → pieceIn a start stop e = some (part? start stop e)) :
    piecesIn a start stop l =
      some ((l.takeWhile fun e => decide (e.1 < stop)).filterMap (part? start stop)) := by
  induction l with
  | nil => rfl
  | cons e rest ih =>
    rw [piecesIn, List.takeWhile_cons]
    by_cases hlate : stop ≤ e.1
    · rw [if_pos hlate, if_neg (by simpa using hlate)]
      rfl
    · rw [if_neg hlate, if_pos (by simpa using hlate), h e (by simp) (by omega),
        ih fun f hf => h f (List.mem_cons_of_mem e hf), List.filterMap_cons]
      cases part? start stop e <;> rfl

private theorem piecesIn_eq_none {start stop : Nat} {l : List (Nat × Interval)} {e : Nat × Interval}
    (he : e ∈ l.takeWhile fun f => decide (f.1 < stop)) (h : pieceIn a start stop e = none) :
    piecesIn a start stop l = none := by
  induction l with
  | nil => cases he
  | cons f rest ih =>
    rw [List.takeWhile_cons] at he
    split at he
    · rename_i hearly
      rw [piecesIn, if_neg (by simpa using hearly)]
      rcases List.mem_cons.1 he with rfl | he
      · rw [h]
        rfl
      · rw [ih he]
        cases pieceIn a start stop f <;> rfl
    · cases he

namespace WordCuts

variable {index : Int}

private theorem start_lt_total (h : c.WordCuts rs) (hchunk : c.hasChunk index = true) :
    (c.bounds index.toNat).1 < c.total := by
  obtain ⟨_, hlast, _⟩ := count_bounds h.toCuts
  rw [hasChunk, Bool.and_eq_true, decide_eq_true_eq, decide_eq_true_eq] at hchunk
  have hstart : index.toNat * c.size ≤ (c.count - 1) * c.size := Nat.mul_le_mul_right _ (by omega)
  rw [bounds]
  omega

private theorem segmentsIn_of_hasChunk (h : c.WordCuts rs) (hindex : index ≤ maxSigned)
    (hchunk : c.hasChunk index = true) :
    c.segmentsIn a index = piecesIn a (c.bounds index.toNat).1 (c.bounds index.toNat).2
      (c.placed.drop (c.firstTouched (c.bounds index.toNat).1)) := by
  have hmax := maxSigned_eq
  have hall := maxUnsigned_eq
  have hsize := h.size_le
  have htotal := h.total_le
  have hstart := h.start_lt_total hchunk
  have hindex' : 0 ≤ index := by
    rw [hasChunk, Bool.and_eq_true, decide_eq_true_eq] at hchunk
    exact hchunk.1
  rw [segmentsIn, h.hasChunkIn_eq hindex, hchunk]
  rw [bounds] at hstart ⊢
  dsimp only at hstart ⊢
  change (a.unsigned index >>= _) = _
  rw [a.unsigned_bind (k := index.toNat) (by omega) (by omega),
    a.unsigned_bind (k := index.toNat * c.size) (by push_cast; rfl) (by omega),
    a.unsigned_bind (k := index.toNat * c.size + c.size) (by push_cast; rfl) (by omega)]

private theorem segmentsIn_of_not_hasChunk (h : c.WordCuts rs) (hindex : index ≤ maxSigned)
    (hchunk : c.hasChunk index = false) : c.segmentsIn a index = some (c.parts index) := by
  rw [segmentsIn, h.hasChunkIn_eq hindex, hchunk, parts, hchunk]
  rfl

/-- Exact pieces of all intervals make up the exact pieces of the chunk. -/
private theorem segmentsIn_of_pieces (h : c.WordCuts rs) (hindex : index ≤ maxSigned)
    (hpieces : c.hasChunk index = true → ∀ e ∈ c.placed, e.1 < (c.bounds index.toNat).2 →
      pieceIn a (c.bounds index.toNat).1 (c.bounds index.toNat).2 e =
        some (part? (c.bounds index.toNat).1 (c.bounds index.toNat).2 e)) :
    c.segmentsIn a index = some (c.parts index) := by
  cases hchunk : c.hasChunk index with
  | false => exact h.segmentsIn_of_not_hasChunk hindex hchunk
  | true =>
    rw [h.segmentsIn_of_hasChunk hindex hchunk,
      piecesIn_eq fun e he => hpieces hchunk e (List.mem_of_mem_drop he), parts, if_pos hchunk]
    rfl

private theorem segmentsIn_wrapping (h : c.WordCuts rs) (hindex : index ≤ maxSigned) :
    c.segmentsIn Word.wrapping index = some (c.parts index) :=
  h.segmentsIn_of_pieces hindex fun hchunk _ he hstop =>
    h.pieceIn_wrapping he (Nat.le_of_lt (h.start_lt_total hchunk)) hstop

private theorem segmentsIn_eq (h : c.WordCuts rs) (hindex : index ≤ maxSigned)
    (hfits : ¬ Covers (c.parts index) maxPoint) : c.segmentsIn a index = some (c.parts index) := by
  refine h.segmentsIn_of_pieces hindex fun hchunk e he hstop =>
    h.pieceIn_eq he (Nat.le_of_lt (h.start_lt_total hchunk)) hstop fun s hs hupper => hfits ⟨s, ?_, ?_⟩
  · rw [hasChunk, Bool.and_eq_true, decide_eq_true_eq, decide_eq_true_eq] at hchunk
    obtain ⟨n, rfl⟩ := Int.eq_ofNat_of_zero_le hchunk.1
    rw [parts_eq h.toCuts (by omega), ← h.placed_eq]
    exact List.mem_filterMap.2 ⟨e, he, hs⟩
  · obtain ⟨hle, _⟩ := of_part?_eq_some hs
    rw [Interval.mem_iff, maxPoint]
    omega

private theorem segmentsIn_checked (h : c.WordCuts rs) (hindex : index ≤ maxSigned)
    (hlast : Covers (c.parts index) maxPoint) : c.segmentsIn Word.checked index = none := by
  obtain ⟨s, hs, hmem⟩ := hlast
  cases hchunk : c.hasChunk index with
  | false =>
    rw [parts, hchunk] at hs
    cases hs
  | true =>
    have hstart := Nat.le_of_lt (h.start_lt_total hchunk)
    rw [parts, if_pos hchunk] at hs
    obtain ⟨e, hkept, hpiece⟩ := List.mem_filterMap.1 hs
    have he : e ∈ c.placed := List.mem_of_mem_drop ((List.takeWhile_sublist _).subset hkept)
    obtain ⟨_, hupper, _⟩ := h.pieceIn_of_some (a := Word.checked) he hstart hpiece
    rw [Interval.mem_iff, maxPoint] at hmem
    rw [h.segmentsIn_of_hasChunk hindex hchunk]
    exact piecesIn_eq_none hkept (h.pieceIn_checked he hstart hpiece (by omega))

/-- The pieces of a cutter are those of checked words. -/
theorem segments_eq_segmentsIn (h : c.WordCuts rs) (hindex : index ≤ maxSigned) :
    c.segments index = c.segmentsIn Word.checked index := by
  by_cases hlast : Covers (c.parts index) maxPoint
  · obtain ⟨s, hs, hmem⟩ := hlast
    rw [h.segmentsIn_checked hindex ⟨s, hs, hmem⟩, segments_of_le hs (Interval.mem_iff.1 hmem).2]
  · rw [h.segmentsIn_eq hindex hlast]
    refine segments_of_lt h.toCuts fun s hs => ?_
    obtain ⟨hle, r, hr, _, hsr⟩ := exists_of_mem_parts h.toCuts hs
    have hupper := h.upper_le r hr
    by_contra hlt
    rw [maxPoint] at hlt
    exact hlast ⟨s, hs, Interval.mem_iff.2 (by rw [maxPoint]; omega)⟩

end WordCuts

/-- How cutting in words compares with exact cutting. -/
structure FitsWords (c : Cutter) (rs : List Interval) (size : Int) : Prop where
  /-- Making the cutter, counting its chunks and finding the chunk of a point stay within words. -/
  make_eq : ∀ a, makeIn a rs size = .ok (some c)
  count_eq : ∀ a, c.countIn a = some c.count
  chunkOf_eq : ∀ a (point : Int), Word.isSigned point = true → c.chunkOfIn a point = some (c.chunkOf point)
  /-- So does finding the exact parts of a chunk that does not hold the largest point. -/
  parts_eq : ∀ a (index : Int), Word.isSigned index = true → ¬ Covers (c.parts index) maxPoint →
    c.segmentsIn a index = some (c.parts index) ∧ c.hullIn a index = some (hullOf (c.parts index))
  /-- The chunk that does has a number on the way that no word holds. -/
  parts_checked : ∀ index : Int, Word.isSigned index = true → Covers (c.parts index) maxPoint →
    c.segmentsIn Word.checked index = none ∧ c.hullIn Word.checked index = none
  /-- The exact parts come out of that all the same where words wrap around. -/
  parts_wrapping : ∀ index : Int, Word.isSigned index = true →
    c.segmentsIn Word.wrapping index = some (c.parts index) ∧
      c.hullIn Word.wrapping index = some (hullOf (c.parts index))
  /-- A cutter answers as checked words do. -/
  segments_eq : ∀ index : Int, Word.isSigned index = true →
    c.segments index = c.segmentsIn Word.checked index ∧ c.hull index = c.hullIn Word.checked index

/-- For all intervals and sizes that are given in words and make a cutter, its numbers fit words, and what it computes
of a number or a point does too, up to the position past the largest point. -/
theorem make_fitsWords {rs : List Interval} {size : Int} {c : Cutter}
    (hrs : ∀ r ∈ rs, Word.isSigned r.lower = true ∧ Word.isSigned r.upper = true) (hsize : Word.isSigned size = true)
    (h : make rs size = .ok c) : c.FitsWords rs size := by
  have hupper : ∀ r ∈ rs, r.upper ≤ maxSigned := fun r hr => (Word.isSigned_iff.1 (hrs r hr).2).2
  have hsize := (Word.isSigned_iff.1 hsize).2
  obtain ⟨sorted, hcuts⟩ := wordCuts_of_make hupper hsize h
  exact {
    make_eq := fun a => by
      rw [makeIn_eq hupper hsize, h]
      rfl
    count_eq := fun a => hcuts.countIn_eq
    chunkOf_eq := fun a point hpoint => hcuts.chunkOfIn_eq (Word.isSigned_iff.1 hpoint).2
    parts_eq := fun a index hindex hfits => by
      rw [hullIn, hcuts.segmentsIn_eq (Word.isSigned_iff.1 hindex).2 hfits]
      exact ⟨rfl, rfl⟩
    parts_checked := fun index hindex hlast => by
      rw [hullIn, hcuts.segmentsIn_checked (Word.isSigned_iff.1 hindex).2 hlast]
      exact ⟨rfl, rfl⟩
    parts_wrapping := fun index hindex => by
      rw [hullIn, hcuts.segmentsIn_wrapping (Word.isSigned_iff.1 hindex).2]
      exact ⟨rfl, rfl⟩
    segments_eq := fun index hindex => by
      rw [hull, hullIn, hcuts.segments_eq_segmentsIn (Word.isSigned_iff.1 hindex).2]
      exact ⟨rfl, rfl⟩ }

/-- Chunks of three over a gap, up to the largest point: the second is exact in any arithmetic, and the third, which is
that point alone, has no answer where every number must fit. -/
theorem last_chunk_overflows : ∃ c, make [⟨0, 3⟩, ⟨maxPoint - 2, maxPoint⟩] 3 = .ok c ∧
    (∀ a, c.segmentsIn a 1 = some [⟨3, 3⟩, ⟨maxPoint - 2, maxPoint - 1⟩]) ∧ c.segmentsIn Word.checked 2 = none ∧
    c.segments 2 = none := by
  have hmade : make [⟨0, 3⟩, ⟨maxPoint - 2, maxPoint⟩] 3 =
      .ok { placed := [(0, ⟨0, 3⟩), (4, ⟨maxPoint - 2, maxPoint⟩)], total := 7, size := 3 } := by
    rw [make, Interval.arrange_of_arranged ⟨by decide, by decide⟩]
    rfl
  have hfits := make_fitsWords (by decide) (by decide) hmade
  have hlast := (hfits.parts_checked 2 (by decide) ⟨⟨maxPoint, maxPoint⟩, by decide, by decide⟩).1
  refine ⟨_, hmade, fun a => (hfits.parts_eq a 1 (by decide) (by decide)).1, hlast, ?_⟩
  rw [(hfits.segments_eq 2 (by decide)).1, hlast]

/-- All points in two chunks of the largest size: the second is the largest point alone, and the position past it does
not fit, so numbers do leave their words. -/
theorem not_all_fit : ¬ ∀ (rs : List Interval) (size : Int) (c : Cutter),
    (∀ r ∈ rs, Word.isSigned r.lower = true ∧ Word.isSigned r.upper = true) → Word.isSigned size = true →
    make rs size = .ok c → ∀ index : Int, Word.isSigned index = true →
      c.segmentsIn Word.checked index = some (c.parts index) := by
  intro hall
  have hexact := hall _ _ _ (by decide) (by decide) make_allPoints 1 (by decide)
  exact absurd hexact (by decide)

end GridSeries.Cutter
