-- Equality of JSON values: numbers by their value, objects as maps. The binary form
-- of a value is equal to it, and casting it again changes nothing.
import CortexRag.JsonText
import CortexRag.RelatedLists
import Mathlib.Data.Rat.Defs

open keyed_rows json_text related_lists

namespace json_values

/-! ## Induction -/

/-- Induction over a value, through its items and fields. -/
theorem Json.induction {motive : Json → Prop} (null : motive .null)
    (bool : ∀ b, motive (.bool b)) (number : ∀ text, motive (.number text))
    (string : ∀ s, motive (.string s))
    (array : ∀ items, (∀ item ∈ items, motive item) → motive (.array items))
    (object : ∀ fields, (∀ field ∈ fields, motive field.2) → motive (.object fields)) :
    ∀ value, motive value
  | .null => null
  | .bool b => bool b
  | .number n => number n
  | .string s => string s
  | .array items => array items (fun item _ =>
      Json.induction null bool number string array object item)
  | .object fields => object fields (fun field _ =>
      Json.induction null bool number string array object field.2)
termination_by value => sizeOf value
decreasing_by
  · rename_i h
    have := List.sizeOf_lt_of_mem h
    simp only [Json.array.sizeOf_spec]
    omega
  · rename_i h
    have := List.sizeOf_lt_of_mem h
    obtain ⟨name, value⟩ := field
    simp only [Json.object.sizeOf_spec, Prod.mk.sizeOf_spec] at this ⊢
    omega

/-! ## Equality -/

def digits_value (cs : List Char) : Nat := cs.foldl (fun n c => n * 10 + (c.toNat - 48)) 0

def exponent_value : List Char → Int
  | _ :: '-' :: digits => -digits_value digits
  | _ :: '+' :: digits => digits_value digits
  | _ :: digits => digits_value digits
  | [] => 0

/-- The value of the text of a number. -/
def number_value (text : String) : Option Rat := do
  let (sign, cs) : Rat × List Char := match text.toList with
    | '-' :: cs => (-1, cs)
    | cs => (1, cs)
  let (digits, cs) ← read_integer cs
  let (fraction, cs) := read_fraction cs
  let (exponent, cs) := read_exponent cs
  let decimals := fraction.drop 1
  if cs = [] then
    return sign * (digits_value digits + digits_value decimals / 10 ^ decimals.length) *
      10 ^ exponent_value exponent
  else none

/-- Two texts of one number. -/
def SameNumber (s t : String) : Prop :=
  s = t ∨ ∃ value, number_value s = some value ∧ number_value t = some value

inductive SameJson : Json → Json → Prop
  | null : SameJson .null .null
  | bool (b : Bool) : SameJson (.bool b) (.bool b)
  | number {s t : String} : SameNumber s t → SameJson (.number s) (.number t)
  | string (t : Text) : SameJson (.string t) (.string t)
  | array {items items' : List Json} :
      List.Forall₂ SameJson items items' → SameJson (.array items) (.array items')
  | object {fields fields' : List (Text × Json)} :
      (∀ name, Option.Rel SameJson ((merged fields).lookup name) ((merged fields').lookup name)) →
      SameJson (.object fields) (.object fields')

/-! ## The binary form -/

section Binary

variable {numeric : String → Option String}

/-- No text of the value holds the null character or a surrogate that stands alone, and
each of its numbers is in range. -/
inductive Storable (numeric : String → Option String) : Json → Prop
  | null : Storable numeric .null
  | bool (b : Bool) : Storable numeric (.bool b)
  | number {text : String} : (numeric text).isSome → Storable numeric (.number text)
  | string {t : Text} : refused t = false → Storable numeric (.string t)
  | array {items : List Json} :
      (∀ item ∈ items, Storable numeric item) → Storable numeric (.array items)
  | object {fields : List (Text × Json)} :
      (∀ field ∈ fields, refused field.1 = false) →
      (∀ field ∈ fields, Storable numeric field.2) → Storable numeric (.object fields)

/-- What the database does to a number keeps its value, and does nothing to what it
has made. -/
structure Exact (numeric : String → Option String) : Prop where
  same : ∀ s t, numeric s = some t → SameNumber s t
  again : ∀ s t, numeric s = some t → numeric t = some t

theorem items_to_jsonb_eq {items out : List Json} :
    items_to_jsonb numeric items = some out ↔
      List.Forall₂ (fun item item' => to_jsonb numeric item = some item') items out := by
  have hmap : ∀ items, items_to_jsonb numeric items = items.mapM (to_jsonb numeric) := by
    intro items
    induction items with
    | nil => rfl
    | cons item items ih => rw [items_to_jsonb, List.mapM_cons, ih]
  rw [hmap, mapM_eq_some]

/-- The values that have a binary form. -/
theorem storable_iff (value : Json) :
    Storable numeric value ↔ ∃ value', to_jsonb numeric value = some value' := by
  induction value using Json.induction with
  | null => exact ⟨fun _ => ⟨_, rfl⟩, fun _ => .null⟩
  | bool b => exact ⟨fun _ => ⟨_, rfl⟩, fun _ => .bool b⟩
  | number text =>
    simp only [to_jsonb, Option.map_eq_some_iff]
    constructor
    · rintro (_ | _ | hrange)
      obtain ⟨text', htext'⟩ := Option.isSome_iff_exists.mp hrange
      exact ⟨_, text', htext', rfl⟩
    · rintro ⟨_, text', htext', _⟩
      exact .number (by rw [htext']; rfl)
  | string s =>
    simp only [to_jsonb]
    constructor
    · rintro (_ | _ | _ | hnull)
      exact ⟨.string s, by rw [hnull]; rfl⟩
    · rintro ⟨value', hvalue'⟩
      exact .string (by simpa using (Option.ite_none_left_eq_some.mp hvalue').1)
  | array items ih =>
    simp only [to_jsonb, Option.map_eq_some_iff, items_to_jsonb_eq]
    constructor
    · rintro (_ | _ | _ | _ | hitems)
      obtain ⟨out, hout⟩ := exists_forall₂.mpr (fun item hitem =>
        (ih item hitem).mp (hitems item hitem))
      exact ⟨_, out, hout, rfl⟩
    · rintro ⟨_, out, hout, _⟩
      have hitems := exists_forall₂.mp ⟨out, hout⟩
      exact .array (fun item hitem => (ih item hitem).mpr (hitems item hitem))
  | object fields ih =>
    simp only [to_jsonb, Option.map_eq_some_iff]
    constructor
    · rintro (_ | _ | _ | _ | _ | ⟨hnames, hvalues⟩)
      have hout : ∃ out, fields_to_jsonb numeric fields = some out := by
        simp only [fields_to_jsonb_eq]
        refine exists_forall₂.mpr ?_
        intro field hfield
        obtain ⟨value', hvalue'⟩ := (ih field hfield).mp (hvalues field hfield)
        exact ⟨(field.1, value'), rfl, hnames field hfield, hvalue'⟩
      obtain ⟨out, hout⟩ := hout
      exact ⟨_, out, hout, rfl⟩
    · rintro ⟨_, out, hout, _⟩
      have hfields := exists_forall₂.mp ⟨out, fields_to_jsonb_eq.mp hout⟩
      refine .object (fun field hfield => ?_) (fun field hfield => ?_)
      · obtain ⟨field', _, hnull, _⟩ := hfields field hfield
        exact hnull
      · obtain ⟨field', _, _, hvalue'⟩ := hfields field hfield
        exact (ih field hfield).mpr ⟨_, hvalue'⟩

/-! ### Equal maps -/

section Maps

variable {α β : Type} {R : α → β → Prop}

/-- Fields of the same names with related values. -/
def SameFields (R : α → β → Prop) : List (Text × α) → List (Text × β) → Prop :=
  List.Forall₂ (fun field field' => field'.1 = field.1 ∧ R field.2 field'.2)

theorem names_of_sameFields {fields : List (Text × α)} {fields' : List (Text × β)}
    (h : SameFields R fields fields') : fields'.map Prod.fst = fields.map Prod.fst := by
  induction h with
  | nil => rfl
  | cons hfield _ ih => rw [List.map_cons, List.map_cons, ih, hfield.1]

theorem sameFields_upsert {fields : List (Text × α)} {fields' : List (Text × β)}
    (h : SameFields R fields fields') {field : Text × α} {field' : Text × β}
    (hfield : field'.1 = field.1 ∧ R field.2 field'.2) :
    SameFields R (upsert Prod.fst fields field) (upsert Prod.fst fields' field') := by
  unfold upsert
  rw [names_of_sameFields h, hfield.1]
  split
  · unfold SameFields keyed_rows.modify
    rw [List.forall₂_map_left_iff, List.forall₂_map_right_iff]
    refine List.Forall₂.imp ?_ h
    rintro a b ⟨hname, hvalue⟩
    rw [hname]
    split
    · exact hfield
    · exact ⟨hname, hvalue⟩
  · exact List.rel_append h (.cons hfield .nil)

/-- The maps of such fields have the same names and related values. -/
theorem sameFields_merged {fields : List (Text × α)} {fields' : List (Text × β)}
    (h : SameFields R fields fields') : SameFields R (merged fields) (merged fields') := by
  have hfold : ∀ {before before'}, SameFields R before before' →
      SameFields R (fields.foldl (upsert Prod.fst) before)
        (fields'.foldl (upsert Prod.fst) before') := by
    induction h with
    | nil => exact id
    | cons hfield _ ih => exact fun hbefore => ih (sameFields_upsert hbefore hfield)
  exact hfold .nil

theorem rel_lookup {fields : List (Text × α)} {fields' : List (Text × β)}
    (h : SameFields R fields fields') (name : Text) :
    Option.Rel R (fields.lookup name) (fields'.lookup name) := by
  induction h with
  | nil => exact .none
  | @cons field field' fields fields' hfield _ ih =>
    obtain ⟨key, a⟩ := field
    obtain ⟨key', b⟩ := field'
    obtain ⟨rfl, hab⟩ := hfield
    rw [List.lookup_cons, List.lookup_cons]
    by_cases hname : name == key'
    · simp only [hname]
      exact .some hab
    · simp only [hname]
      exact ih

end Maps

/-! ### Once in binary form -/

theorem name_le_plain (a b : String) : name_le (.plain a) (.plain b) = true ↔
    a.utf8ByteSize < b.utf8ByteSize ∨ (a.utf8ByteSize = b.utf8ByteSize ∧ a ≤ b) :=
  decide_eq_true_iff

theorem plain_total (a b : String) :
    name_le (.plain a) (.plain b) = true ∨ name_le (.plain b) (.plain a) = true := by
  simp only [name_le_plain]
  rcases Nat.lt_trichotomy a.utf8ByteSize b.utf8ByteSize with hlt | heq | hgt
  · exact Or.inl (Or.inl hlt)
  · rcases String.le_total a b with h | h
    · exact Or.inl (Or.inr ⟨heq, h⟩)
    · exact Or.inr (Or.inr ⟨heq.symm, h⟩)
  · exact Or.inr (Or.inl hgt)

theorem plain_trans {a b c : String} (hab : name_le (.plain a) (.plain b) = true)
    (hbc : name_le (.plain b) (.plain c) = true) : name_le (.plain a) (.plain c) = true := by
  rw [name_le_plain] at *
  rcases hab with hab | ⟨hab, hle⟩
  · rcases hbc with hbc | ⟨hbc, _⟩
    · exact Or.inl (hab.trans hbc)
    · exact Or.inl (hbc ▸ hab)
  · rcases hbc with hbc | ⟨hbc, hle'⟩
    · exact Or.inl (hab ▸ hbc)
    · exact Or.inr ⟨hab.trans hbc, String.le_trans hle hle'⟩

theorem name_le_total : Std.Total (fun a b : Text × Json => name_le a.1 b.1 = true) := by
  constructor
  rintro ⟨a, _⟩ ⟨b, _⟩
  cases a with
  | plain a =>
    cases b with
    | plain b => exact plain_total a b
    | broken => exact Or.inl rfl
  | broken =>
    cases b with
    | plain b => exact Or.inr rfl
    | broken => exact Or.inl rfl

theorem name_le_trans : IsTrans (Text × Json) (fun a b => name_le a.1 b.1 = true) := by
  constructor
  rintro ⟨a, _⟩ ⟨b, _⟩ ⟨c, _⟩ hab hbc
  cases a with
  | plain a =>
    cases c with
    | plain c =>
      cases b with
      | plain b => exact plain_trans hab hbc
      | broken => cases hbc
    | broken => rfl
  | broken =>
    cases b with
    | plain b => cases hab
    | broken =>
      cases c with
      | plain c => cases hbc
      | broken => rfl

theorem sorted_sorted (fields : List (Text × Json)) :
    sorted (sorted fields) = sorted fields := by
  have := name_le_total
  have := name_le_trans
  exact List.Pairwise.insertionSort_eq (List.pairwise_insertionSort _ fields)

theorem mem_of_mem_merged {α : Type} {fields : List (Text × α)} {field : Text × α}
    (h : field ∈ merged fields) : field ∈ fields := by
  rcases mem_of_upserts Prod.fst h with h | h
  · exact h
  · cases h

/-- The fields of an object in binary form. -/
theorem binary_fields (fields : List (Text × Json)) :
    sorted (merged (sorted (merged fields))) = sorted (merged fields) := by
  have hkeyed : Keyed Prod.fst (sorted (merged fields)) :=
    ((sorted_perm _).map Prod.fst).nodup_iff.mpr (keyed_merged fields)
  rw [merged_eq hkeyed, sorted_sorted]

/-- What is in binary form stays as it is. -/
theorem to_jsonb_again (hexact : Exact numeric) {value value' : Json}
    (h : to_jsonb numeric value = some value') : to_jsonb numeric value' = some value' := by
  induction value using Json.induction generalizing value' with
  | null =>
    obtain rfl := Option.some.inj h
    rfl
  | bool b =>
    obtain rfl := Option.some.inj h
    rfl
  | number text =>
    simp only [to_jsonb, Option.map_eq_some_iff] at h
    obtain ⟨text', htext', rfl⟩ := h
    simp only [to_jsonb, hexact.again _ _ htext', Option.map_some]
  | string s =>
    simp only [to_jsonb] at h
    obtain ⟨hnull, hvalue⟩ := Option.ite_none_left_eq_some.mp h
    rw [← Option.some.inj hvalue]
    simp only [to_jsonb, if_neg hnull]
  | array items ih =>
    simp only [to_jsonb, Option.map_eq_some_iff, items_to_jsonb_eq] at h
    obtain ⟨out, hout, rfl⟩ := h
    have hagain : items_to_jsonb numeric out = some out := by
      rw [items_to_jsonb_eq, List.forall₂_same]
      intro item' hitem'
      obtain ⟨item, hitem, hcast⟩ := exists_of_mem_right hout hitem'
      exact ih item hitem hcast
    simp only [to_jsonb, hagain, Option.map_some]
  | object fields ih =>
    simp only [to_jsonb, Option.map_eq_some_iff, fields_to_jsonb_eq] at h
    obtain ⟨out, hout, rfl⟩ := h
    have hagain : fields_to_jsonb numeric (sorted (merged out)) = some (sorted (merged out)) := by
      rw [fields_to_jsonb_eq, List.forall₂_same]
      intro field' hfield'
      have hmem := mem_of_mem_merged ((sorted_perm _).mem_iff.mp hfield')
      obtain ⟨field, hfield, hname, hnull, hcast⟩ := exists_of_mem_right hout hmem
      exact ⟨rfl, hname ▸ hnull, ih field hfield hcast⟩
    simp only [to_jsonb, hagain, Option.map_some, binary_fields]

/-- The binary form of a value is equal to it. -/
theorem same_to_jsonb (hexact : Exact numeric) {value value' : Json}
    (h : to_jsonb numeric value = some value') : SameJson value value' := by
  induction value using Json.induction generalizing value' with
  | null =>
    obtain rfl := Option.some.inj h
    exact .null
  | bool b =>
    obtain rfl := Option.some.inj h
    exact .bool b
  | number text =>
    simp only [to_jsonb, Option.map_eq_some_iff] at h
    obtain ⟨text', htext', rfl⟩ := h
    exact .number (hexact.same _ _ htext')
  | string s =>
    simp only [to_jsonb] at h
    rw [← Option.some.inj (Option.ite_none_left_eq_some.mp h).2]
    exact .string s
  | array items ih =>
    simp only [to_jsonb, Option.map_eq_some_iff, items_to_jsonb_eq] at h
    obtain ⟨out, hout, rfl⟩ := h
    exact .array (forall₂_imp_mem hout (fun item hitem _ hcast => ih item hitem hcast))
  | object fields ih =>
    simp only [to_jsonb, Option.map_eq_some_iff, fields_to_jsonb_eq] at h
    obtain ⟨out, hout, rfl⟩ := h
    have hfields : SameFields SameJson fields out :=
      forall₂_imp_mem hout (fun field hfield _ hcast => ⟨hcast.1, ih field hfield hcast.2.2⟩)
    have hmaps := sameFields_merged hfields
    refine .object (fun name => ?_)
    have hkeyed : Keyed Prod.fst (sorted (merged out)) :=
      ((sorted_perm _).map Prod.fst).nodup_iff.mpr (keyed_merged out)
    rw [merged_eq hkeyed, lookup_of_perm (keyed_merged out) (sorted_perm _)]
    exact rel_lookup hmaps name

end Binary

end json_values
