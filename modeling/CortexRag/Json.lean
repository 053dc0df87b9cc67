-- JSON values, and what a database makes of one that it stores in binary form: a
-- later field takes the place of an earlier one of its name, the fields come
-- in the order of their names, and no text may hold the null character or a
-- surrogate that stands alone.
import CortexRag.Rows
import Mathlib.Data.List.Sort

open keyed_rows

namespace json_values

/-! ## Values -/

/-- A text. JSON may escape a surrogate that stands alone, and then the text is none
of characters only: `broken` has what is before the first such surrogate, and after it. -/
inductive Text where
  | plain (s : String)
  | broken (before : String) (surrogate : Fin 0x800) (after : List (Char ⊕ Fin 0x800))
deriving DecidableEq

instance : Coe String Text := ⟨.plain⟩

/-- The text as one of characters. -/
def Text.string? : Text → Option String
  | .plain s => some s
  | .broken .. => none

theorem Text.string?_eq {t : Text} {s : String} : t.string? = some s ↔ t = .plain s := by
  cases t <;> simp [Text.string?]

@[simp] theorem Text.plain_beq (a b : String) : (Text.plain a == Text.plain b) = (a == b) := by
  by_cases h : a = b <;> simp [h]

/-- A JSON value. A number is its text. -/
inductive Json where
  | null
  | bool (b : Bool)
  | number (text : String)
  | string (t : Text)
  | array (items : List Json)
  | object (fields : List (Text × Json))

/-- The value that is a text of characters. -/
@[match_pattern, reducible] def Json.text (s : String) : Json := .string (.plain s)

/-- The fields as a map: the last value of a name counts. -/
def merged {κ α : Type} [DecidableEq κ] (fields : List (κ × α)) : List (κ × α) :=
  fields.foldl (upsert Prod.fst) []

/-- A JSON object, whose names are distinct. -/
structure JsonObject where
  fields : List (Text × Json)
  distinct : Keyed Prod.fst fields

variable {κ α β : Type} [DecidableEq κ]

theorem upserts_append {before fields : List (κ × α)}
    (h : Keyed Prod.fst (before ++ fields)) :
    fields.foldl (upsert Prod.fst) before = before ++ fields := by
  induction fields generalizing before with
  | nil => simp
  | cons field fields ih =>
    have hnew : field.1 ∉ before.map Prod.fst := by
      unfold Keyed at h
      rw [List.map_append, List.nodup_append] at h
      intro hmem
      exact h.2.2 field.1 hmem field.1 (by simp) rfl
    rw [List.foldl_cons, upsert, if_neg hnew, ih, List.append_assoc, List.singleton_append]
    rw [List.append_assoc, List.singleton_append]
    exact h

/-- Fields of distinct names are their own map. -/
theorem merged_eq {fields : List (κ × α)} (h : Keyed Prod.fst fields) :
    merged fields = fields := upserts_append h

theorem keyed_merged (fields : List (κ × α)) : Keyed Prod.fst (merged fields) :=
  keyed_upserts Prod.fst fields List.nodup_nil

theorem lookup_iff_mem {fields : List (κ × α)} (h : Keyed Prod.fst fields) {name : κ}
    {value : α} : fields.lookup name = some value ↔ (name, value) ∈ fields := by
  constructor
  · intro hlookup
    obtain ⟨before, after, rfl, _⟩ := List.lookup_eq_some_iff.mp hlookup
    simp
  · intro hmem
    obtain ⟨before, after, rfl⟩ := List.append_of_mem hmem
    refine List.lookup_eq_some_iff.mpr ⟨before, after, rfl, ?_⟩
    intro field hfield
    unfold Keyed at h
    rw [List.map_append, List.nodup_append] at h
    rw [bne_iff_ne]
    exact (h.2.2 field.1 (List.mem_map_of_mem hfield) name (by simp)).symm

/-- A map does not depend on the order of its fields. -/
theorem lookup_of_perm {fields fields' : List (κ × α)} (h : Keyed Prod.fst fields)
    (hperm : fields'.Perm fields) (name : κ) :
    fields'.lookup name = fields.lookup name := by
  have h' : Keyed Prod.fst fields' := (hperm.map Prod.fst).nodup_iff.mpr h
  apply Option.ext
  intro value
  rw [lookup_iff_mem h, lookup_iff_mem h', hperm.mem_iff]

/-! ## The binary form -/

section Binary

variable (numeric : String → Option String)

/-- The order of names: by their length in bytes, then by their characters. No other
name has a binary form. -/
def name_le : Text → Text → Bool
  | .plain a, .plain b =>
    decide (a.utf8ByteSize < b.utf8ByteSize ∨ (a.utf8ByteSize = b.utf8ByteSize ∧ a ≤ b))
  | .plain _, .broken .. => true
  | .broken .., .plain _ => false
  | .broken .., .broken .. => true

def sorted (fields : List (Text × Json)) : List (Text × Json) :=
  fields.insertionSort (fun a b => name_le a.1 b.1)

/-- The texts without a binary form: those with the null character, and those with a
surrogate that stands alone. -/
def refused : Text → Bool
  | .plain s => decide ('\x00' ∈ s.toList)
  | .broken .. => true

theorem plain_of_accepted {t : Text} (h : refused t = false) : ∃ s, t = .plain s := by
  cases t with
  | plain s => exact ⟨s, rfl⟩
  | broken => cases h

/-- A field whose value is a text. -/
def text_field (field : String × String) : Text × Json := (field.1, .text field.2)

theorem keyed_texts {fields : List (String × String)} :
    Keyed Prod.fst (fields.map text_field) ↔ Keyed Prod.fst fields := by
  have hnames : (fields.map text_field).map Prod.fst = (fields.map Prod.fst).map Text.plain := by
    rw [List.map_map, List.map_map]
    rfl
  unfold Keyed
  rw [hnames, List.nodup_map_iff (fun _ _ h => Text.plain.inj h)]

/-- The value of the field is a text, and both it and the name have a binary form. -/
def is_text (field : Text × Json) : Prop :=
  refused field.1 = false ∧ ∃ t, field.2 = .string t ∧ refused t = false

mutual

/-- The cast to the binary form. `numeric` is the text that a number gets, if it
is in range. -/
def to_jsonb : Json → Option Json
  | .null => some .null
  | .bool b => some (.bool b)
  | .number text => (numeric text).map .number
  | .string s => if refused s then none else some (.string s)
  | .array items => (items_to_jsonb items).map .array
  | .object fields => (fields_to_jsonb fields).map (fun fields => .object (sorted (merged fields)))

def items_to_jsonb : List Json → Option (List Json)
  | [] => some []
  | item :: items => do
    let item ← to_jsonb item
    let items ← items_to_jsonb items
    return item :: items

def fields_to_jsonb : List (Text × Json) → Option (List (Text × Json))
  | [] => some []
  | (name, value) :: fields =>
    if refused name then none
    else do
      let value ← to_jsonb value
      let fields ← fields_to_jsonb fields
      return (name, value) :: fields

end

variable {numeric}

theorem sorted_perm (fields : List (Text × Json)) : (sorted fields).Perm fields :=
  List.perm_insertionSort _ fields

/-- A text of the binary form was that text before. -/
theorem string_of_jsonb {value : Json} {s : Text}
    (h : to_jsonb numeric value = some (.string s)) : value = .string s ∧ refused s = false := by
  cases value with
  | null => simp [to_jsonb] at h
  | bool b => simp [to_jsonb] at h
  | number text => simp [to_jsonb] at h
  | string t =>
    simp only [to_jsonb] at h
    split at h
    · cases h
    · rename_i hnull
      cases h
      exact ⟨rfl, by simpa using hnull⟩
  | array items => simp [to_jsonb] at h
  | object fields => simp [to_jsonb] at h

/-- The cast keeps the names of the fields and casts each value. -/
theorem fields_to_jsonb_eq {fields out : List (Text × Json)} :
    fields_to_jsonb numeric fields = some out ↔
      List.Forall₂ (fun field field' => field'.1 = field.1 ∧ refused field.1 = false ∧
        to_jsonb numeric field.2 = some field'.2) fields out := by
  induction fields generalizing out with
  | nil =>
    rw [List.forall₂_nil_left_iff]
    simp [fields_to_jsonb, eq_comm]
  | cons field fields ih =>
    obtain ⟨name, value⟩ := field
    rw [List.forall₂_cons_left_iff]
    simp only [fields_to_jsonb]
    split
    · rename_i hnull
      simp [hnull]
    · rename_i hnull
      simp only [Option.bind_eq_bind, Option.bind_eq_some_iff, ih]
      constructor
      · rintro ⟨value', hvalue, fields', hfields, he⟩
        cases he
        exact ⟨(name, value'), fields', ⟨rfl, by simpa using hnull, hvalue⟩, hfields, rfl⟩
      · rintro ⟨⟨_, value'⟩, fields', ⟨rfl, _, hvalue⟩, hfields, rfl⟩
        exact ⟨value', hvalue, fields', hfields, rfl⟩

/-- A cast keeps distinct names distinct. -/
theorem keyed_of_jsonb {fields out : List (Text × Json)}
    (h : fields_to_jsonb numeric fields = some out) (hkeyed : Keyed Prod.fst fields) :
    Keyed Prod.fst out := by
  have hnames : out.map Prod.fst = fields.map Prod.fst := by
    have hfields := fields_to_jsonb_eq.mp h
    clear h hkeyed
    induction hfields with
    | nil => rfl
    | cons hfield _ ih => rw [List.map_cons, List.map_cons, ih, hfield.1]
  unfold Keyed
  rw [hnames]
  exact hkeyed

/-- The binary form of an object. -/
theorem object_to_jsonb {o : JsonObject} {value : Json} :
    to_jsonb numeric (.object o.fields) = some value ↔
      ∃ out, fields_to_jsonb numeric o.fields = some out ∧ value = .object (sorted out) := by
  simp only [to_jsonb, Option.map_eq_some_iff]
  constructor
  · rintro ⟨out, hout, rfl⟩
    exact ⟨out, hout, by rw [merged_eq (keyed_of_jsonb hout o.distinct)]⟩
  · rintro ⟨out, hout, rfl⟩
    exact ⟨out, hout, by rw [merged_eq (keyed_of_jsonb hout o.distinct)]⟩

/-- Fields that are texts in the binary form were these texts before. -/
theorem texts_of_jsonb {fields out : List (Text × Json)}
    (h : fields_to_jsonb numeric fields = some out)
    (htexts : ∀ field ∈ out, ∃ s, field.2 = .string s) :
    out = fields ∧ ∀ field ∈ fields, is_text field := by
  have hpairs := fields_to_jsonb_eq.mp h
  clear h
  induction hpairs with
  | nil => simp
  | @cons field field' fields out hfield _ ih =>
    obtain ⟨rfl, hrest⟩ := ih (fun f hf => htexts f (List.mem_cons_of_mem _ hf))
    obtain ⟨hname, hnull, hvalue⟩ := hfield
    obtain ⟨s, hs⟩ := htexts field' List.mem_cons_self
    rw [hs] at hvalue
    obtain ⟨hsame, hclean⟩ := string_of_jsonb hvalue
    have heq : field' = field := Prod.ext hname (hs.trans hsame.symm)
    refine ⟨by rw [heq], ?_⟩
    rintro f (_ | ⟨_, hf⟩)
    · exact ⟨hnull, s, hsame, hclean⟩
    · exact hrest f hf

theorem jsonb_of_texts {fields : List (Text × Json)} (h : ∀ field ∈ fields, is_text field) :
    fields_to_jsonb numeric fields = some fields := by
  rw [fields_to_jsonb_eq, List.forall₂_same]
  intro field hfield
  obtain ⟨hnull, s, hs, hclean⟩ := h field hfield
  refine ⟨rfl, hnull, ?_⟩
  rw [hs, to_jsonb, hclean]
  rfl

end Binary

end json_values
