import GridSeries.Json.Printer
import GridSeries.Json.Reader

/-! JSON trees by induction: what holds of a container once it holds of its members. Measures of trees and their
tokens are defined along the same lines. -/
namespace GridSeries.Json

/-- A property that passes from the members of a container to the container holds of every tree. -/
@[elab_as_elim]
theorem treeInduction {P : Json → Prop} (null : P .null) (bool : ∀ b, P (.bool b)) (number : ∀ n, P (.number n))
    (string : ∀ s, P (.string s)) (array : ∀ items, (∀ v ∈ items, P v) → P (.array items))
    (object : ∀ fields, (∀ f ∈ fields, P f.2) → P (.object fields)) (v : Json) : P v := by
  have noItem : ∀ v ∈ ([] : List Json), P v := by simp
  have noField : ∀ f ∈ ([] : List (String × Json)), P f.2 := by simp
  have item (v : Json) (rest : List Json) (hv : P v) (hrest : ∀ w ∈ rest, P w) : ∀ w ∈ v :: rest, P w := by
    intro w hw
    rcases List.mem_cons.1 hw with rfl | hw
    · exact hv
    · exact hrest w hw
  have field (f : String × Json) (rest : List (String × Json)) (hf : P f.2) (hrest : ∀ g ∈ rest, P g.2) :
      ∀ g ∈ f :: rest, P g.2 := by
    intro g hg
    rcases List.mem_cons.1 hg with rfl | hg
    · exact hf
    · exact hrest g hg
  exact @Json.rec P (fun items => ∀ v ∈ items, P v) (fun fields => ∀ f ∈ fields, P f.2) (fun f => P f.2)
    null bool number string array object noItem item noField field (fun _ _ hv => hv) v

mutual

/-- How many containers nest at most. -/
def depth : Json → Nat
  | .array items => itemsDepth items + 1
  | .object fields => fieldsDepth fields + 1
  | _ => 0

def itemsDepth : List Json → Nat
  | [] => 0
  | v :: rest => max (depth v) (itemsDepth rest)

def fieldsDepth : List (String × Json) → Nat
  | [] => 0
  | (_, v) :: rest => max (depth v) (fieldsDepth rest)

end

mutual

def numbers : Json → List Number
  | .number n => [n]
  | .array items => itemsNumbers items
  | .object fields => fieldsNumbers fields
  | _ => []

def itemsNumbers : List Json → List Number
  | [] => []
  | v :: rest => numbers v ++ itemsNumbers rest

def fieldsNumbers : List (String × Json) → List Number
  | [] => []
  | (_, v) :: rest => numbers v ++ fieldsNumbers rest

end

mutual

def tokens : Json → List Token
  | .null => [.null]
  | .bool b => [.bool b]
  | .number n => [.number (some n)]
  | .string s => [.string (some s)]
  | .array items => .beginArray :: (List.intercalate [.comma] (itemsTokens items) ++ [.endArray])
  | .object fields => .beginObject :: (List.intercalate [.comma] (fieldsTokens fields) ++ [.endObject])

def itemsTokens : List Json → List (List Token)
  | [] => []
  | v :: rest => tokens v :: itemsTokens rest

def fieldsTokens : List (String × Json) → List (List Token)
  | [] => []
  | (k, v) :: rest => (.string (some k) :: .colon :: tokens v) :: fieldsTokens rest

end

mutual

/-- The tree as it stands in its text. -/
def raw : Json → Raw
  | .null => .null
  | .bool b => .bool b
  | .number n => .number (some n)
  | .string s => .string (some s)
  | .array items => .array (itemsRaw items)
  | .object fields => .object (fieldsRaw fields)

def itemsRaw : List Json → List Raw
  | [] => []
  | v :: rest => raw v :: itemsRaw rest

def fieldsRaw : List (String × Json) → List (Option String × Raw)
  | [] => []
  | (k, v) :: rest => (some k, raw v) :: fieldsRaw rest

end

/-- The tokens of items are those of each in turn. -/
theorem itemsTokens_eq (items : List Json) : itemsTokens items = items.map tokens := by
  induction items with
  | nil => rfl
  | cons v rest ih => simp [itemsTokens, ih]

theorem fieldsTokens_eq (fields : List (String × Json)) :
    fieldsTokens fields = fields.map fun f => .string (some f.1) :: .colon :: tokens f.2 := by
  induction fields with
  | nil => rfl
  | cons f rest ih => simp [fieldsTokens, ih]

/-- Items stand as they are one by one. -/
theorem itemsRaw_eq (items : List Json) : itemsRaw items = items.map raw := by
  induction items with
  | nil => rfl
  | cons v rest ih => simp [itemsRaw, ih]

theorem fieldsRaw_eq (fields : List (String × Json)) :
    fieldsRaw fields = fields.map fun f => (some f.1, raw f.2) := by
  induction fields with
  | nil => rfl
  | cons f rest ih => simp [fieldsRaw, ih]

/-- The numbers of items are those of each in turn. -/
theorem itemsNumbers_eq (items : List Json) : itemsNumbers items = items.flatMap numbers := by
  induction items with
  | nil => rfl
  | cons v rest ih => simp [itemsNumbers, ih]

theorem fieldsNumbers_eq (fields : List (String × Json)) :
    fieldsNumbers fields = fields.flatMap fun f => numbers f.2 := by
  induction fields with
  | nil => rfl
  | cons f rest ih => simp [fieldsNumbers, ih]

/-- Items nest as deep as the deepest of them. -/
theorem itemsDepth_le_iff {items : List Json} {n : Nat} : itemsDepth items ≤ n ↔ ∀ v ∈ items, depth v ≤ n := by
  induction items with
  | nil => simp [itemsDepth]
  | cons v rest ih => simp only [itemsDepth, Nat.max_le, ih, List.forall_mem_cons]

/-- So do fields. -/
theorem fieldsDepth_le_iff {fields : List (String × Json)} {n : Nat} :
    fieldsDepth fields ≤ n ↔ ∀ f ∈ fields, depth f.2 ≤ n := by
  induction fields with
  | nil => simp [fieldsDepth]
  | cons f rest ih => simp only [fieldsDepth, Nat.max_le, ih, List.forall_mem_cons]

variable {P : Number → Prop} {c d : Nat}

/-- The tree nests at most `d` containers, and every number in it has the property. -/
def Within (P : Number → Prop) (d : Nat) (v : Json) : Prop := v.depth ≤ d ∧ ∀ n ∈ v.numbers, P n

theorem within_string (s : String) : Within P d (.string s) := ⟨Nat.zero_le d, fun _ hn => nomatch hn⟩

theorem within_number {n : Number} (h : P n) : Within P d (.number n) := by
  refine ⟨Nat.zero_le d, fun k hk => ?_⟩
  rw [List.mem_singleton.1 hk]
  exact h

/-- An array nests one level deeper than its items. -/
theorem within_array {items : List Json} (h : ∀ v ∈ items, Within P d v) : Within P (d + 1) (.array items) := by
  refine ⟨Nat.succ_le_succ (itemsDepth_le_iff.2 fun v hv => (h v hv).1), fun n hn => ?_⟩
  rw [numbers, itemsNumbers_eq] at hn
  obtain ⟨v, hv, hn⟩ := List.mem_flatMap.1 hn
  exact (h v hv).2 n hn

/-- So does an object. -/
theorem within_object {fields : List (String × Json)} (h : ∀ f ∈ fields, Within P d f.2) :
    Within P (d + 1) (.object fields) := by
  refine ⟨Nat.succ_le_succ (fieldsDepth_le_iff.2 fun f hf => (h f hf).1), fun n hn => ?_⟩
  rw [numbers, fieldsNumbers_eq] at hn
  obtain ⟨f, hf, hn⟩ := List.mem_flatMap.1 hn
  exact (h f hf).2 n hn

/-- A tree within a depth is within every greater one. -/
theorem Within.mono {v : Json} (h : Within P c v) (hd : c ≤ d) : Within P d v := ⟨Nat.le_trans h.1 hd, h.2⟩

end GridSeries.Json
