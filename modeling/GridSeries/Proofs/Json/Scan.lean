import GridSeries.Proofs.Json.Tree
import GridSeries.Proofs.Text.Quoted
import Mathlib.Data.List.Forall2

/-! Printed trees are scanned to their tokens, with or without blanks between them. A number is the only token whose
end depends on what follows, so it is the only one that needs something else to come next. -/
namespace GridSeries.Json

/-- The character could go on a number. -/
def continuesNumber (c : Char) : Bool := Text.isDigit c || c == '.' || c == 'e' || c == 'E'

/-- The characters of numbers as they are written. -/
def isNumeric (c : Char) : Bool := Text.isDigit c || c == '-' || c == '+' || c == '.' || c == 'e'

/-- A number is over where this text begins. -/
def EndsNumber (cs : List Char) : Prop := ∀ c ∈ cs.head?, continuesNumber c = false

private theorem endsNumber_cons {c : Char} {cs : List Char} (h : continuesNumber c = false) : EndsNumber (c :: cs) := by
  intro d hd
  rw [List.head?_cons, Option.mem_some] at hd
  rwa [← hd]

/-- The number reads back from its own text. -/
def Number.Scans (n : Number) : Prop := ∃ l, scanNumber n.chars = some (l, []) ∧ Number.ofLiteral? l = some n

section Numbers

variable {rest after : List Char}

private theorem scanDigits_append (h : EndsNumber rest) (cs : List Char) :
    scanDigits (cs ++ rest) = ((scanDigits cs).1, (scanDigits cs).2 ++ rest) := by
  induction cs with
  | nil =>
    cases rest with
    | nil => rfl
    | cons c rest =>
      have hc := h c rfl
      simp only [continuesNumber, Bool.or_eq_false_iff] at hc
      simp [scanDigits, hc.1.1.1]
  | cons c cs ih =>
    simp only [scanDigits, Prod.mk.injEq] at ih
    by_cases hc : Text.isDigit c = true
    · simp [scanDigits, hc, ih]
    · simp [scanDigits, hc]

/-- A mark that a text lacks at its front is not added by what ends a number. -/
private theorem head?_append_ne (h : EndsNumber rest) {cs : List Char} {c : Char} (hne : cs.head? ≠ some c)
    (hc : continuesNumber c = true) : (cs ++ rest).head? ≠ some c := by
  cases cs with
  | nil =>
    intro hr
    rw [h c hr] at hc
    cases hc
  | cons d cs => exact hne

private theorem scanFraction_of_ne {cs : List Char} (h : cs.head? ≠ some '.') : scanFraction cs = some (none, cs) := by
  unfold scanFraction
  split
  · simp at h
  · rfl

private theorem scanExponent_of_ne {cs : List Char} (he : cs.head? ≠ some 'e') (hE : cs.head? ≠ some 'E') :
    scanExponent cs = some (none, cs) := by
  cases cs with
  | nil => rfl
  | cons c cs =>
    unfold scanExponent
    exact if_neg (by simp_all)

private theorem scanFraction_append (h : EndsNumber rest) {cs : List Char} {f : Option (List Nat)}
    (hs : scanFraction cs = some (f, after)) : scanFraction (cs ++ rest) = some (f, after ++ rest) := by
  by_cases hpoint : cs.head? = some '.'
  · obtain ⟨digits, rfl⟩ := List.head?_eq_some_iff.1 hpoint
    simp only [List.cons_append, scanFraction, scanDigits_append h] at hs ⊢
    split at hs
    · cases hs
    · rename_i hne
      cases hs
      rw [if_neg hne]
  · rw [scanFraction_of_ne hpoint] at hs
    cases hs
    exact scanFraction_of_ne (head?_append_ne h hpoint (by decide))

private theorem scanExponentDigits_append (h : EndsNumber rest) {negative : Bool} {cs : List Char} {e : Option Int}
    (hs : scanExponentDigits negative cs = some (e, after)) :
    scanExponentDigits negative (cs ++ rest) = some (e, after ++ rest) := by
  simp only [scanExponentDigits, scanDigits_append h] at hs ⊢
  split at hs
  · cases hs
  · rename_i hne
    cases hs
    rw [if_neg hne]

private theorem scanExponent_append (h : EndsNumber rest) {cs : List Char} {e : Option Int}
    (hs : scanExponent cs = some (e, after)) : scanExponent (cs ++ rest) = some (e, after ++ rest) := by
  by_cases hmark : cs.head? = some 'e' ∨ cs.head? = some 'E'
  · obtain ⟨c, digits, rfl, hc⟩ : ∃ c digits, cs = c :: digits ∧ (c = 'e' ∨ c = 'E') := by
      cases cs with
      | nil => simp at hmark
      | cons c digits => exact ⟨c, digits, rfl, by simpa using hmark⟩
    rw [List.cons_append]
    unfold scanExponent at hs ⊢
    dsimp only at hs ⊢
    rw [if_pos hc] at hs ⊢
    cases digits with
    | nil => simp [scanExponentDigits, scanDigits] at hs
    | cons d digits =>
      rw [List.cons_append]
      split at hs
      · rename_i heq
        cases heq
        exact scanExponentDigits_append h hs
      · rename_i heq
        cases heq
        exact scanExponentDigits_append h hs
      · rename_i hplus hminus
        split
        · rename_i heq
          cases heq
          exact absurd rfl (hplus digits)
        · rename_i heq
          cases heq
          exact absurd rfl (hminus digits)
        · exact scanExponentDigits_append h hs
  · rw [not_or] at hmark
    rw [scanExponent_of_ne hmark.1 hmark.2] at hs
    cases hs
    exact scanExponent_of_ne (head?_append_ne h hmark.1 (by decide)) (head?_append_ne h hmark.2 (by decide))

private theorem scanUnsigned_append (h : EndsNumber rest) {negative : Bool} {cs : List Char} {l : Decimal.Literal}
    (hs : scanUnsigned negative cs = some (l, after)) :
    scanUnsigned negative (cs ++ rest) = some (l, after ++ rest) := by
  simp only [scanUnsigned, scanDigits_append h] at hs ⊢
  split at hs
  · cases hs
  · rename_i hne
    rw [if_neg hne]
    cases hf : scanFraction (scanDigits cs).2 with
    | none => simp [hf] at hs
    | some f =>
      cases he : scanExponent f.2 with
      | none => simp [hf, he] at hs
      | some e =>
        simp only [hf, he, Option.pure_def, Option.bind_eq_bind, Option.bind_some, Option.some.injEq,
          Prod.mk.injEq] at hs
        obtain ⟨rfl, rfl⟩ := hs
        simp [scanFraction_append h hf, scanExponent_append h he]

private theorem scanNumber_append (h : EndsNumber rest) {cs : List Char} {l : Decimal.Literal}
    (hs : scanNumber cs = some (l, after)) : scanNumber (cs ++ rest) = some (l, after ++ rest) := by
  cases cs with
  | nil => simp [scanNumber, scanUnsigned, scanDigits] at hs
  | cons c cs =>
    by_cases hc : c = '-'
    · subst hc
      exact scanUnsigned_append h hs
    · have hplain (cs : List Char) : scanNumber (c :: cs) = scanUnsigned false (c :: cs) := by
        unfold scanNumber
        split
        · rename_i heq
          cases heq
          exact absurd rfl hc
        · rfl
      rw [hplain] at hs
      rw [List.cons_append, hplain]
      exact scanUnsigned_append h hs

end Numbers

/-- Only characters that may stand between tokens. -/
def Blank (cs : List Char) : Prop := ∀ c ∈ cs, isSpace c = true

/-- The text holds exactly these tokens. -/
inductive Spells : List Token → List Char → Prop
  | done : Spells [] []
  | blank {c : Char} {ts : List Token} {cs : List Char} : isSpace c = true → Spells ts cs → Spells ts (c :: cs)
  | token {t : Token} {c : Char} {literal : List Char} {ts : List Token} {cs : List Char} : isSpace c = false →
      scanToken (c :: literal ++ cs) = some (t, cs) → Spells ts cs → Spells (t :: ts) (c :: literal ++ cs)

/-- A mark in front of a text spells its token in front of the others. -/
theorem Spells.mark {t : Token} {c : Char} {ts : List Token} {cs : List Char} (hc : isSpace c = false)
    (ht : scanToken (c :: cs) = some (t, cs)) (h : Spells ts cs) : Spells (t :: ts) (c :: cs) :=
  @Spells.token t c [] ts cs hc ht h

/-- A text is scanned to the tokens it holds. -/
theorem scanTokens_of_spells {ts : List Token} {cs : List Char} (h : Spells ts cs) {n : Nat} (hn : cs.length ≤ n) :
    scanTokens n cs = some ts := by
  induction h generalizing n with
  | done =>
    cases n with
    | zero => rfl
    | succ n => rfl
  | @blank c ts cs hc _ ih =>
    obtain ⟨m, rfl⟩ : ∃ m, n = m + 1 := ⟨n - 1, by simp at hn; omega⟩
    have hcs := ih (n := m + 1) (by simp at hn; omega)
    rw [← hcs, scanTokens, scanTokens, List.dropWhile_cons_of_pos hc]
  | @token t c literal ts cs hc ht _ ih =>
    obtain ⟨m, rfl⟩ : ∃ m, n = m + 1 := ⟨n - 1, by simp at hn; omega⟩
    have hcs := ih (n := m) (by simp at hn; omega)
    rw [List.cons_append] at ht
    rw [List.cons_append, scanTokens, List.dropWhile_cons_of_neg (by simp [hc])]
    simp [ht, hcs]

/-- Text that holds some tokens wherever it stands, as long as no number is cut short by what follows. -/
def Prints (ts : List Token) (text : List Char) : Prop :=
  ∀ (rest : List Token) (cs : List Char), EndsNumber cs → Spells rest cs → Spells (ts ++ rest) (text ++ cs)

section Pieces

variable {ts : List Token} {text blank : List Char}

private theorem spells_blanks {cs : List Char} (hb : Blank blank) (h : Spells ts cs) :
    Spells ts (blank ++ cs) := by
  induction blank with
  | nil => exact h
  | cons c blank ih =>
    exact .blank (hb c (by simp)) (ih fun d hd => hb d (List.mem_cons_of_mem c hd))

private theorem continuesNumber_of_isSpace {c : Char} (h : isSpace c = true) : continuesNumber c = false := by
  simp only [isSpace, Bool.or_eq_true, beq_iff_eq] at h
  rcases h with ((rfl | rfl) | rfl) | rfl <;> decide

private theorem endsNumber_blanks {c : Char} {cs : List Char} (hb : Blank blank)
    (hc : continuesNumber c = false) : EndsNumber (blank ++ c :: cs) := by
  cases blank with
  | nil => exact endsNumber_cons hc
  | cons b blank => exact endsNumber_cons (continuesNumber_of_isSpace (hb b (by simp)))

/-- The text of a literal starts with its sign or a digit. -/
private theorem head_of_scanNumber {cs : List Char} {r : Decimal.Literal × List Char} (h : scanNumber cs = some r) :
    ∃ c rest, cs = c :: rest ∧ isNumeric c = true := by
  cases cs with
  | nil => simp [scanNumber, scanUnsigned, scanDigits] at h
  | cons c rest =>
    refine ⟨c, rest, rfl, ?_⟩
    by_cases hc : c = '-'
    · rw [hc]
      rfl
    · by_contra hd
      simp only [isNumeric, Bool.or_eq_true, not_or] at hd
      unfold scanNumber at h
      split at h
      · rename_i heq
        cases heq
        exact hc rfl
      · simp [scanUnsigned, scanDigits, hd.1.1.1.1] at h

/-- Where a numeric character stands, a number is scanned. -/
theorem scanToken_of_isNumeric {c : Char} (hc : isNumeric c = true) (cs : List Char) :
    isSpace c = false ∧
      scanToken (c :: cs) = (scanNumber (c :: cs)).map fun r => (.number (Number.ofLiteral? r.1), r.2) := by
  constructor
  · cases hs : isSpace c with
    | false => rfl
    | true =>
      simp only [isSpace, Bool.or_eq_true, beq_iff_eq] at hs
      rcases hs with ((rfl | rfl) | rfl) | rfl <;> exact absurd hc (by decide)
  · unfold scanToken
    split <;> first | rfl | (rename_i heq; cases heq; exact absurd hc (by decide))

private theorem prints_number {n : Number} (h : n.Scans) : Prints [.number (some n)] n.chars := by
  intro rest cs hcs hrest
  obtain ⟨l, hl, hn⟩ := h
  obtain ⟨c, digits, hchars, hc⟩ := head_of_scanNumber hl
  have hscan := scanNumber_append hcs hl
  obtain ⟨hspace, htoken⟩ := scanToken_of_isNumeric hc (digits ++ cs)
  rw [hchars, List.cons_append] at hscan
  rw [hchars]
  refine .token hspace ?_ hrest
  rw [List.cons_append, htoken, hscan, Option.map_some, hn]
  rfl

private theorem prints_string (s : String) : Prints [.string (some s)] (Text.quoteChars s) := by
  intro rest cs _ hrest
  refine .token rfl ?_ hrest
  have hscan := Text.scanLiteral_quoted s cs
  simp only [List.cons_append, List.append_assoc, List.nil_append, scanToken]
  rw [hscan]
  rfl

private theorem prints_field (k : String) (hb : Blank blank) (h : Prints ts text) :
    Prints (.string (some k) :: .colon :: ts) (Text.quoteChars k ++ ':' :: (blank ++ text)) := by
  intro rest cs hcs hrest
  have hvalue := spells_blanks hb (h _ _ hcs hrest)
  have hcolon : Spells (.colon :: (ts ++ rest)) (':' :: (blank ++ (text ++ cs))) := .mark rfl rfl hvalue
  have hfield := prints_string k _ _ (endsNumber_cons (by decide)) hcolon
  simpa only [List.cons_append, List.append_assoc, List.nil_append] using hfield

private theorem spells_pieces {pieces : List (List Token)} {texts : List (List Char)}
    (h : List.Forall₂ Prints pieces texts) (hb : Blank blank) {rest : List Token} {cs : List Char}
    (hcs : EndsNumber cs) (hrest : Spells rest cs) :
    Spells (List.intercalate [.comma] pieces ++ rest) (List.intercalate (',' :: blank) texts ++ cs) := by
  induction h with
  | nil => exact hrest
  | @cons piece text pieces texts hpiece htail ih =>
    cases htail with
    | nil =>
      rw [List.intercalate_singleton, List.intercalate_singleton]
      exact hpiece _ _ hcs hrest
    | @cons next nextText pieces texts hnext htail =>
      rw [List.intercalate_cons_cons, List.intercalate_cons_cons]
      simp only [List.append_assoc, List.cons_append, List.nil_append] at ih ⊢
      refine hpiece _ _ (endsNumber_cons (by decide)) (.mark rfl rfl ?_)
      exact spells_blanks hb ih

/-- A container with blanks around its pieces and after its commas. -/
private theorem prints_container {opening closing : Token} {first last : Char} {front gap back : List Char}
    {pieces : List (List Token)} {texts : List (List Char)}
    (ho : isSpace first = false ∧ ∀ cs, scanToken (first :: cs) = some (opening, cs))
    (hc : isSpace last = false ∧ continuesNumber last = false ∧ ∀ cs, scanToken (last :: cs) = some (closing, cs))
    (hf : Blank front) (hg : Blank gap) (hb : Blank back) (h : List.Forall₂ Prints pieces texts) :
    Prints (opening :: (List.intercalate [.comma] pieces ++ [closing]))
      (first :: (front ++ List.intercalate (',' :: gap) texts ++ back ++ [last])) := by
  intro rest cs _ hrest
  have hlast : Spells (closing :: rest) (last :: cs) := .mark hc.1 (hc.2.2 cs) hrest
  have hbody := spells_pieces h hg (endsNumber_blanks hb hc.2.1) (spells_blanks hb hlast)
  have hall := Spells.mark ho.1 (ho.2 _) (spells_blanks hf hbody)
  simpa only [List.cons_append, List.append_assoc, List.nil_append] using hall

private theorem prints_array {front gap back : List Char} {pieces : List (List Token)} {texts : List (List Char)}
    (hf : Blank front) (hg : Blank gap) (hb : Blank back) (h : List.Forall₂ Prints pieces texts) :
    Prints (.beginArray :: (List.intercalate [.comma] pieces ++ [.endArray]))
      ('[' :: (front ++ List.intercalate (',' :: gap) texts ++ back ++ [']'])) :=
  prints_container ⟨rfl, fun _ => rfl⟩ ⟨rfl, rfl, fun _ => rfl⟩ hf hg hb h

private theorem prints_object {front gap back : List Char} {pieces : List (List Token)} {texts : List (List Char)}
    (hf : Blank front) (hg : Blank gap) (hb : Blank back) (h : List.Forall₂ Prints pieces texts) :
    Prints (.beginObject :: (List.intercalate [.comma] pieces ++ [.endObject]))
      ('\x7b' :: (front ++ List.intercalate (',' :: gap) texts ++ back ++ ['\x7d'])) :=
  prints_container ⟨rfl, fun _ => rfl⟩ ⟨rfl, rfl, fun _ => rfl⟩ hf hg hb h

end Pieces

private theorem compactItems_eq (items : List Json) : compactItems items = items.map compactChars := by
  induction items with
  | nil => rfl
  | cons v rest ih => simp [compactItems, ih]

private theorem compactFields_eq (fields : List (String × Json)) :
    compactFields fields = fields.map fun f => Text.quoteChars f.1 ++ ':' :: compactChars f.2 := by
  induction fields with
  | nil => rfl
  | cons f rest ih => simp [compactFields, ih]

private theorem prettyItems_eq (level : Nat) (items : List Json) :
    prettyItems level items = items.map (prettyChars level) := by
  induction items with
  | nil => rfl
  | cons v rest ih => simp [prettyItems, ih]

private theorem prettyFields_eq (level : Nat) (fields : List (String × Json)) :
    prettyFields level fields = fields.map fun f => Text.quoteChars f.1 ++ ':' :: ' ' :: prettyChars level f.2 := by
  induction fields with
  | nil => rfl
  | cons f rest ih => simp [prettyFields, ih]

private theorem prints_word {t : Token} {c : Char} {word : List Char} (hc : isSpace c = false)
    (h : ∀ cs, scanToken (c :: word ++ cs) = some (t, cs)) : Prints [t] (c :: word) := by
  intro rest cs _ hrest
  exact .token hc (h cs) hrest

private theorem prints_null : Prints [.null] ['n', 'u', 'l', 'l'] := prints_word rfl fun _ => rfl

private theorem prints_bool (b : Bool) : Prints [.bool b] (wordChars b) := by
  cases b with
  | true => exact prints_word rfl fun _ => rfl
  | false => exact prints_word rfl fun _ => rfl

private theorem forall₂_map {α : Type} {f : α → List Token} {g : α → List Char} {l : List α}
    (h : ∀ a ∈ l, Prints (f a) (g a)) : List.Forall₂ Prints (l.map f) (l.map g) := by
  rw [List.forall₂_map_left_iff, List.forall₂_map_right_iff]
  exact List.forall₂_same.2 h

private theorem blank_nil : Blank [] := by
  intro c hc
  cases hc

private theorem blank_lineBreak (level : Nat) : Blank (lineBreak level) := by
  intro c hc
  rcases List.mem_cons.1 hc with rfl | hc
  · rfl
  · rw [List.eq_of_mem_replicate hc]
    rfl

/-- The text without spaces holds the tokens of its tree. -/
theorem prints_compact (v : Json) (h : ∀ n ∈ numbers v, n.Scans) : Prints (tokens v) (compactChars v) := by
  induction v using treeInduction with
  | null => exact prints_null
  | bool b => exact prints_bool b
  | number n => exact prints_number (h n (by simp [numbers]))
  | string s => exact prints_string s
  | array items ih =>
    rw [numbers, itemsNumbers_eq] at h
    rw [tokens, compactChars, itemsTokens_eq, compactItems_eq]
    have hitems := forall₂_map fun v hv => ih v hv fun n hn => h n (List.mem_flatMap.2 ⟨v, hv, hn⟩)
    simpa using prints_array blank_nil blank_nil blank_nil hitems
  | object fields ih =>
    rw [numbers, fieldsNumbers_eq] at h
    rw [tokens, compactChars, fieldsTokens_eq, compactFields_eq]
    have hfields := forall₂_map fun (f : String × Json) hf => prints_field f.1 blank_nil
      (ih f hf fun n hn => h n (List.mem_flatMap.2 ⟨f, hf, hn⟩))
    simpa using prints_object blank_nil blank_nil blank_nil hfields

/-- So does the text over several lines, at any level. -/
theorem prints_pretty (v : Json) (h : ∀ n ∈ numbers v, n.Scans) (level : Nat) :
    Prints (tokens v) (prettyChars level v) := by
  induction v using treeInduction generalizing level with
  | null => exact prints_null
  | bool b => exact prints_bool b
  | number n => exact prints_number (h n (by simp [numbers]))
  | string s => exact prints_string s
  | array items ih =>
    rw [numbers, itemsNumbers_eq] at h
    rw [tokens, prettyChars, itemsTokens_eq, prettyItems_eq, spread]
    have hitems := forall₂_map fun v hv => ih v hv (fun n hn => h n (List.mem_flatMap.2 ⟨v, hv, hn⟩)) (level + 1)
    split
    · rename_i hempty
      obtain rfl : items = [] := by simpa using hempty
      exact prints_array blank_nil blank_nil blank_nil .nil
    · exact prints_array (blank_lineBreak _) (blank_lineBreak _) (blank_lineBreak _) hitems
  | object fields ih =>
    rw [numbers, fieldsNumbers_eq] at h
    rw [tokens, prettyChars, fieldsTokens_eq, prettyFields_eq, spread]
    have hspace : Blank [' '] := by simp [Blank, isSpace]
    have hfields := forall₂_map fun (f : String × Json) hf => prints_field f.1 hspace
      (ih f hf (fun n hn => h n (List.mem_flatMap.2 ⟨f, hf, hn⟩)) (level + 1))
    split
    · rename_i hempty
      obtain rfl : fields = [] := by simpa using hempty
      exact prints_object blank_nil blank_nil blank_nil .nil
    · exact prints_object (blank_lineBreak _) (blank_lineBreak _) (blank_lineBreak _) hfields

end GridSeries.Json
