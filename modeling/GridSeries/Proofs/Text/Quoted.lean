import GridSeries.Text.Quoted
import Mathlib.Data.List.Basic

/-! Literals read back: what a text is quoted as is scanned to that text, and scanning stops at the closing quote. -/
namespace GridSeries.Text

/-- The unit that a quoted character is scanned to: controls without a letter of their own are named by number. -/
def unitOf (c : Char) : LiteralUnit :=
  if c.toNat < 0x20 ∧ ¬ c ∈ ['\x08', '\x0c', '\n', '\r', '\t'] then .code c.toNat else .plain c

private theorem hexValue?_digitChar : ∀ n < 16, hexValue? (Nat.digitChar n) = some n := by decide

private theorem scanUnits_plain {c : Char} (hq : c ≠ '"') (hb : c ≠ '\\') (hc : ¬ c.toNat < 0x20) (rest : List Char) :
    scanUnits (c :: rest) = (scanUnits rest).map fun r => (.plain c :: r.1, r.2) := by
  rw [scanUnits]
  · rw [if_neg (by simp [hc, hb])]
    cases scanUnits rest with
    | none => rfl
    | some r => rfl
  all_goals simp_all

private theorem scanUnits_code {n : Nat} (h : n < 0x20) (rest : List Char) :
    scanUnits ('\\' :: 'u' :: '0' :: '0' :: Nat.digitChar (n / 16) :: Nat.digitChar (n % 16) :: rest) =
      (scanUnits rest).map fun r => (.code n :: r.1, r.2) := by
  have hhigh := hexValue?_digitChar (n / 16) (by omega)
  have hlow := hexValue?_digitChar (n % 16) (by omega)
  have hquad : hexQuad? '0' '0' (Nat.digitChar (n / 16)) (Nat.digitChar (n % 16)) = some n := by
    have hzero : hexValue? '0' = some 0 := by decide
    have hn : 16 * (n / 16) + n % 16 = n := by omega
    simp [hexQuad?, hzero, hhigh, hlow, hn]
  rw [scanUnits, hquad]
  cases scanUnits rest with
  | none => rfl
  | some r => rfl

/-- The characters that are quoted by a letter, each with its letter. -/
def lettered : List (Char × Char) :=
  [('"', '"'), ('\\', '\\'), ('\x08', 'b'), ('\x0c', 'f'), ('\n', 'n'), ('\r', 'r'), ('\t', 't')]

private theorem scanUnits_letter {c e : Char} (h : (c, e) ∈ lettered) (rest : List Char) :
    scanUnits (escapeChar c ++ rest) = (scanUnits rest).map fun r => (unitOf c :: r.1, r.2) := by
  have hall : ∀ p ∈ lettered, escapeChar p.1 = ['\\', p.2] ∧ shortEscape? p.2 = some p.1 ∧ p.2 ≠ 'u' ∧
      unitOf p.1 = .plain p.1 := by decide
  obtain ⟨hescape, hshort, hu, hunit⟩ := hall _ h
  rw [hescape, hunit, List.cons_append, List.cons_append, List.nil_append, scanUnits, hshort]
  · cases scanUnits rest with
    | none => rfl
    | some r => rfl
  · intro _ _ _ _ _ heq
    exact absurd heq hu

private theorem scanUnits_escapeChar (c : Char) (rest : List Char) :
    scanUnits (escapeChar c ++ rest) = (scanUnits rest).map fun r => (unitOf c :: r.1, r.2) := by
  by_cases hletter : c ∈ lettered.map (·.1)
  · obtain ⟨⟨_, e⟩, he, rfl⟩ := List.mem_map.1 hletter
    exact scanUnits_letter he rest
  · have hother : c ≠ '"' ∧ c ≠ '\\' ∧ c ≠ '\x08' ∧ c ≠ '\x0c' ∧ c ≠ '\n' ∧ c ≠ '\r' ∧ c ≠ '\t' := by
      simpa [lettered] using hletter
    obtain ⟨hq, hs, hb, hf, hn, hr, ht⟩ := hother
    by_cases hc : c.toNat < 0x20
    · have hunit : unitOf c = .code c.toNat := if_pos ⟨hc, by simp [hb, hf, hn, hr, ht]⟩
      have hescape : escapeChar c =
          ['\\', 'u', '0', '0', Nat.digitChar (c.toNat / 16), Nat.digitChar (c.toNat % 16)] := by
        simp [escapeChar, hq, hs, hb, hf, hn, hr, ht, hc]
      rw [hescape, hunit]
      exact scanUnits_code hc rest
    · have hunit : unitOf c = .plain c := if_neg fun h => hc h.1
      have hescape : escapeChar c = [c] := by simp [escapeChar, hq, hs, hb, hf, hn, hr, ht, hc]
      rw [hescape, hunit]
      exact scanUnits_plain hq hs hc rest

private theorem scanUnits_escaped (cs rest : List Char) :
    scanUnits (cs.flatMap escapeChar ++ '"' :: rest) = some (cs.map unitOf, rest) := by
  induction cs with
  | nil => rfl
  | cons c cs ih =>
    rw [List.flatMap_cons, List.append_assoc, scanUnits_escapeChar, ih]
    rfl

/-- A number that is no half of a pair stands for its own character, whatever comes next. -/
private theorem assemble?_code {n : Nat} (hn : n < 0xD800) (units : List LiteralUnit) :
    assemble? (.code n :: units) = (assemble? units).map (Char.ofNat n :: ·) := by
  have hhigh : isHighSurrogate n = false := by
    simp only [isHighSurrogate, Bool.and_eq_false_iff, decide_eq_false_iff_not]
    omega
  have hlow : isLowSurrogate n = false := by
    simp only [isLowSurrogate, Bool.and_eq_false_iff, decide_eq_false_iff_not]
    omega
  cases units with
  | nil => simp [assemble?, hhigh, hlow]
  | cons u rest =>
    cases u with
    | plain c => simp [assemble?, hhigh, hlow]
    | code m => simp [assemble?, hhigh, hlow]

private theorem assemble?_unitOf (cs : List Char) : assemble? (cs.map unitOf) = some cs := by
  induction cs with
  | nil => rfl
  | cons c cs ih =>
    rw [List.map_cons]
    by_cases h : c.toNat < 0x20 ∧ ¬ c ∈ ['\x08', '\x0c', '\n', '\r', '\t']
    · have hunit : unitOf c = .code c.toNat := if_pos h
      rw [hunit, assemble?_code (by omega), ih, Option.map_some, Char.ofNat_toNat]
    · have hunit : unitOf c = .plain c := if_neg h
      rw [hunit, assemble?, ih, Option.map_some]

/-- A quoted text is scanned to the text. -/
theorem scanLiteral_quoted (s : String) (rest : List Char) :
    scanLiteral (s.toList.flatMap escapeChar ++ '"' :: rest) = some (some s, rest) := by
  rw [scanLiteral, scanUnits_escaped]
  simp [assemble?_unitOf]

end GridSeries.Text
