import GridSeries.Proofs.Json.RoundTrip
import Mathlib.Data.List.TakeWhile

/-! Doubles that read back. Whether the text of a double reads as the same double is a matter of the two conversions
alone; where it does, so does every tree around it. -/
namespace GridSeries.Json

/-- The text of the double, as a document of its own, reads as that double. No double that is not finite does; a finite
one may miss itself by a unit in the last place, since digits are scaled in doubles. -/
def ReadsBack (x : Float) : Prop := read? (ofFloat x).compact = some (ofFloat x)

example : (read? (ofFloat 10.957860598549463).compact).map compact = some "10.957860598549464" := by decide +kernel

section Characters

private theorem isNumeric_of_mem_toDigits {n : Nat} {c : Char} (h : c ∈ Nat.toDigits 10 n) : isNumeric c = true := by
  have hc := Nat.isDigit_of_mem_toDigits (by decide) (by decide) h
  simp only [Char.isDigit, Bool.and_eq_true, decide_eq_true_eq] at hc
  have hdigit : Text.isDigit c = true := by
    simp only [Text.isDigit, Bool.and_eq_true, decide_eq_true_eq]
    exact hc
  simp [isNumeric, hdigit]

private theorem isNumeric_positional {keep : Bool} {digits : List Char} {lead : Int}
    (h : ∀ c ∈ digits, isNumeric c = true) : ∀ c ∈ Decimal.positionalChars keep digits lead, isNumeric c = true := by
  have hzeros {n : Nat} : ∀ c ∈ List.replicate n '0', isNumeric c = true := by
    intro c hc
    rw [List.eq_of_mem_replicate hc]
    rfl
  intro c hc
  unfold Decimal.positionalChars at hc
  split at hc
  · rcases List.mem_cons.1 hc with rfl | hc
    · rfl
    rcases List.mem_cons.1 hc with rfl | hc
    · rfl
    rcases List.mem_append.1 hc with hc | hc
    · exact hzeros c hc
    · exact h c hc
  · dsimp only at hc
    split at hc
    · rcases List.mem_append.1 hc with hc | hc
      · rcases List.mem_append.1 hc with hc | hc
        · exact h c hc
        · exact hzeros c hc
      · cases keep with
        | true =>
          simp only [if_true, List.mem_cons, List.not_mem_nil, or_false] at hc
          rcases hc with rfl | rfl <;> rfl
        | false => simp at hc
    · rcases List.mem_append.1 hc with hc | hc
      · exact h c (List.mem_of_mem_take hc)
      · rcases List.mem_cons.1 hc with rfl | hc
        · rfl
        · exact h c (List.mem_of_mem_drop hc)

private theorem isNumeric_exponent {digits : List Char} {lead : Int}
    (h : ∀ c ∈ digits, isNumeric c = true) : ∀ c ∈ Decimal.exponentChars digits lead, isNumeric c = true := by
  intro c hc
  unfold Decimal.exponentChars at hc
  rcases List.mem_append.1 hc with hc | hc
  · rcases List.mem_append.1 hc with hc | hc
    · exact h c (List.mem_of_mem_take hc)
    · split at hc
      · cases hc
      · rcases List.mem_cons.1 hc with rfl | hc
        · rfl
        · exact h c (List.mem_of_mem_drop hc)
  · rcases List.mem_cons.1 hc with rfl | hc
    · rfl
    rcases List.mem_cons.1 hc with rfl | hc
    · split <;> rfl
    · exact isNumeric_of_mem_toDigits hc

private theorem isNumeric_scaled (s : Decimal.Scaled) :
    ∀ c ∈ Decimal.Layout.document.scaledChars s, isNumeric c = true := by
  have hdigits : ∀ c ∈ Nat.toDigits 10 s.digits, isNumeric c = true := fun c hc => isNumeric_of_mem_toDigits hc
  rw [Decimal.Layout.scaledChars]
  simp only [Decimal.Layout.document]
  split
  · exact isNumeric_positional hdigits
  · exact isNumeric_exponent hdigits

/-- The text of a double is numeric, unless it is that of null. -/
theorem isNumeric_chars (x : Float) :
    (Number.real x).chars = ['n', 'u', 'l', 'l'] ∨ ∀ c ∈ (Number.real x).chars, isNumeric c = true := by
  unfold Number.chars Decimal.Layout.chars
  dsimp only
  split
  · exact .inl rfl
  · rename_i negative _
    cases negative <;> exact .inl rfl
  · rename_i negative mantissa exponent _
    right
    intro c hc
    rcases List.mem_append.1 hc with hc | hc
    · cases negative with
      | true => rw [List.mem_singleton.1 hc]; rfl
      | false => simp at hc
    · split at hc
      · exact isNumeric_positional (by simp [isNumeric, Text.isDigit]) c hc
      · exact isNumeric_scaled _ c hc

end Characters

section Rest

variable {cs after : List Char}

private theorem scanDigits_suffix (cs : List Char) : (scanDigits cs).2 <:+ cs := List.dropWhile_suffix _

private theorem scanFraction_suffix {f : Option (List Nat)} (h : scanFraction cs = some (f, after)) : after <:+ cs := by
  unfold scanFraction at h
  split at h
  · rename_i digits
    dsimp only at h
    split at h
    · cases h
    · cases h
      exact (scanDigits_suffix digits).trans (List.suffix_cons _ _)
  · cases h
    exact List.suffix_refl _

private theorem scanExponentDigits_suffix {negative : Bool} {e : Option Int}
    (h : scanExponentDigits negative cs = some (e, after)) : after <:+ cs := by
  unfold scanExponentDigits at h
  dsimp only at h
  split at h
  · cases h
  · cases h
    exact scanDigits_suffix cs

private theorem scanExponent_suffix {e : Option Int} (h : scanExponent cs = some (e, after)) : after <:+ cs := by
  unfold scanExponent at h
  split at h
  · split at h
    · split at h
      · exact (scanExponentDigits_suffix h).trans ((List.suffix_cons _ _).trans (List.suffix_cons _ _))
      · exact (scanExponentDigits_suffix h).trans ((List.suffix_cons _ _).trans (List.suffix_cons _ _))
      · exact (scanExponentDigits_suffix h).trans (List.suffix_cons _ _)
    · cases h
      exact List.suffix_refl _
  · cases h
    exact List.suffix_refl _

private theorem scanUnsigned_suffix {negative : Bool} {l : Decimal.Literal}
    (h : scanUnsigned negative cs = some (l, after)) : after <:+ cs := by
  unfold scanUnsigned at h
  dsimp only at h
  split at h
  · cases h
  · cases hf : scanFraction (scanDigits cs).2 with
    | none => simp [hf] at h
    | some f =>
      cases he : scanExponent f.2 with
      | none => simp [hf, he] at h
      | some e =>
        simp only [hf, he, Option.pure_def, Option.bind_eq_bind, Option.bind_some, Option.some.injEq,
          Prod.mk.injEq] at h
        obtain ⟨_, rfl⟩ := h
        exact (scanExponent_suffix he).trans ((scanFraction_suffix hf).trans (scanDigits_suffix cs))

private theorem scanNumber_suffix {l : Decimal.Literal} (h : scanNumber cs = some (l, after)) : after <:+ cs := by
  unfold scanNumber at h
  split at h
  · exact (scanUnsigned_suffix h).trans (List.suffix_cons _ _)
  · exact scanUnsigned_suffix h

end Rest

private theorem blank_of_scanTokens {n : Nat} {cs : List Char} (h : scanTokens n cs = some []) : Blank cs := by
  cases n with
  | zero =>
    unfold scanTokens at h
    split at h
    · rename_i hall
      exact List.all_eq_true.1 hall
    · cases h
  | succ n =>
    unfold scanTokens at h
    split at h
    · rename_i hdrop
      exact List.dropWhile_eq_nil_iff.1 hdrop
    · rename_i c rest _
      cases ht : scanToken (c :: rest) with
      | none => simp [ht] at h
      | some r =>
        cases hs : scanTokens n r.2 with
        | none => simp [ht, hs] at h
        | some ts => simp [ht, hs] at h

/-- When tokens that begin with a number make up a whole tree, the number is all there is. -/
private theorem eq_nil_of_complete {n : Option Number} {ts : List Token} {w : Raw}
    (h : (.number n :: ts : List Token).foldlM Reading.step (.value []) = some (.complete w)) :
    ts = [] ∧ w = .number n := by
  cases ts with
  | nil =>
    cases h
    exact ⟨rfl, rfl⟩
  | cons t ts =>
    simp [Reading.step, Reading.begin, Reading.deliver] at h

/-- A numeric text begins with a number, and its other tokens are those of what follows the number. -/
private theorem exists_number_of_scan {cs : List Char} {ts : List Token} (hne : cs ≠ [])
    (hnumeric : ∀ c ∈ cs, isNumeric c = true) (h : Token.scan (String.ofList cs) = some ts) :
    ∃ l after more n, scanNumber cs = some (l, after) ∧ scanTokens n after = some more ∧
      ts = .number (Number.ofLiteral? l) :: more := by
  unfold Token.scan at h
  rw [String.toList_ofList] at h
  cases cs with
  | nil => exact absurd rfl hne
  | cons c rest =>
    obtain ⟨hspace, htoken⟩ := scanToken_of_isNumeric (hnumeric c List.mem_cons_self) rest
    simp only [List.length_cons, scanTokens] at h
    rw [List.dropWhile_cons_of_neg (by simp [hspace])] at h
    dsimp only at h
    rw [htoken] at h
    obtain ⟨⟨token, after⟩, hnumber, h⟩ := Option.bind_eq_some_iff.1 h
    obtain ⟨more, hmore, hts⟩ := Option.bind_eq_some_iff.1 h
    obtain ⟨⟨l, after⟩, hl, hpair⟩ := Option.map_eq_some_iff.1 hnumber
    cases hpair
    cases hts
    exact ⟨l, after, more, _, hl, hmore, rfl⟩

private theorem eq_nil_of_numeric_of_blank {cs : List Char} (hnumeric : ∀ c ∈ cs, isNumeric c = true)
    (hblank : Blank cs) :
    cs = [] := by
  cases cs with
  | nil => rfl
  | cons c rest =>
    have hspace := (scanToken_of_isNumeric (hnumeric c List.mem_cons_self) []).1
    rw [hblank c List.mem_cons_self] at hspace
    cases hspace

/-- A double that reads back is scanned as one number, which is that double. -/
theorem ReadsBack.scans {x : Float} (h : ReadsBack x) : (Number.real x).Scans := by
  have hread : read? (String.ofList (Number.real x).chars) = some (ofFloat x) := h
  rcases isNumeric_chars x with hnull | hnumeric
  · rw [hnull] at hread
    cases hread
  have hne : (Number.real x).chars ≠ [] := by
    intro hnil
    rw [hnil] at hread
    cases hread
  unfold read? Raw.read? at hread
  obtain ⟨w, hw, hjson⟩ := Option.bind_eq_some_iff.1 hread
  obtain ⟨ts, hts, hmachine⟩ := Option.bind_eq_some_iff.1 hw
  obtain ⟨state, hstate, hcomplete⟩ := Option.bind_eq_some_iff.1 hmachine
  have hw : state = .complete w := by
    cases state <;> first | cases hcomplete; rfl | cases hcomplete
  obtain ⟨l, after, more, n, hl, hafter, hcons⟩ := exists_number_of_scan hne hnumeric hts
  rw [hcons, hw] at hstate
  obtain ⟨hmore, hraw⟩ := eq_nil_of_complete hstate
  rw [hmore] at hafter
  have hnil := eq_nil_of_numeric_of_blank (fun c hc => hnumeric c ((scanNumber_suffix hl).subset hc))
    (blank_of_scanTokens hafter)
  rw [hnil] at hl
  refine ⟨l, hl, ?_⟩
  rw [hraw] at hjson
  obtain ⟨k, hk, hsame⟩ := Option.map_eq_some_iff.1 hjson
  cases hsame
  exact hk

end GridSeries.Json
