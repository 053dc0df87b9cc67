-- JSON objects of texts, written with ASCII characters alone: each other character
-- as its code units. The reader of JSON gives the object back.
import CortexRag.JsonText

namespace json_text

open json_values

/-! ## Characters -/

/-- `\uXXXX`. -/
def unit_escape (n : Nat) : List Char :=
  ['\\', 'u', hex_digit (n / 4096), hex_digit (n / 256 % 16), hex_digit (n / 16 % 16),
    hex_digit (n % 16)]

/-- The code units of a character: two beyond the first 65536. -/
def units_of (c : Char) : List Nat :=
  if c.toNat < 0x10000 then [c.toNat]
  else [0xD800 + (c.toNat - 0x10000) / 0x400, 0xDC00 + (c.toNat - 0x10000) % 0x400]

def ascii_escaped (c : Char) : List Char :=
  if c = '"' then ['\\', '"']
  else if c = '\\' then ['\\', '\\']
  else if c = '\n' then ['\\', 'n']
  else if c = '\r' then ['\\', 'r']
  else if c = '\t' then ['\\', 't']
  else if c = '\x0c' then ['\\', 'f']
  else if c = '\x08' then ['\\', 'b']
  else if 0x20 ≤ c.toNat ∧ c.toNat < 0x7F then [c]
  else (units_of c).flatMap unit_escape

/-- The text in quotes. -/
def ascii_quoted (s : String) : List Char := '"' :: (s.toList.flatMap ascii_escaped ++ ['"'])

/-- `"name": "value"`. -/
def ascii_field (field : String × String) : List Char :=
  ascii_quoted field.1 ++ (':' :: ' ' :: ascii_quoted field.2)

/-- The object with the fields, as JSON. -/
def dump_object (fields : List (String × String)) : String :=
  String.ofList ('{' :: (List.intercalate [',', ' '] (fields.map ascii_field) ++ ['}']))

/-! ## What is written is read -/

theorem read_unit_escape {n : Nat} (h : n < 0x10000) (cs : List Char) :
    read_units (unit_escape n ++ cs) = (read_units cs).map (fun r => (n :: r.1, r.2)) := by
  have hhex : hex4 (hex_digit (n / 4096)) (hex_digit (n / 256 % 16)) (hex_digit (n / 16 % 16))
      (hex_digit (n % 16)) = some n := by
    have h1 := @hex_value_digit (n / 4096) (by omega)
    have h2 := @hex_value_digit (n / 256 % 16) (by omega)
    have h3 := @hex_value_digit (n / 16 % 16) (by omega)
    have h4 := @hex_value_digit (n % 16) (by omega)
    simp only [hex4, h1, h2, h3, h4, bind, Option.bind, pure, Option.some.injEq]
    omega
  unfold unit_escape
  simp [read_units, hhex]

theorem toNat_bound (c : Char) : c.toNat < 0x110000 := by
  have hvalid := c.valid
  have hrange : c.toNat < 0xD800 ∨ (0xDFFF < c.toNat ∧ c.toNat < 0x110000) := hvalid
  omega

theorem units_one {c : Char} (h : c.toNat < 0x10000) : units_of c = [c.toNat] := if_pos h

theorem units_two {c : Char} (h : ¬c.toNat < 0x10000) :
    units_of c = [0xD800 + (c.toNat - 0x10000) / 0x400, 0xDC00 + (c.toNat - 0x10000) % 0x400] :=
  if_neg h

theorem units_lt (c : Char) : ∀ n ∈ units_of c, n < 0x10000 := by
  have hlt := toNat_bound c
  by_cases hone : c.toNat < 0x10000
  · rw [units_one hone]
    rintro n hn
    rw [List.mem_singleton.1 hn]
    exact hone
  · rw [units_two hone]
    intro n hn
    rw [List.mem_cons, List.mem_singleton] at hn
    omega

theorem read_units_escaped (ns : List Nat) (h : ∀ n ∈ ns, n < 0x10000) (cs : List Char) :
    read_units (ns.flatMap unit_escape ++ cs) =
      (read_units cs).map (fun r => (ns ++ r.1, r.2)) := by
  induction ns with
  | nil => simp
  | cons n ns ih =>
    rw [List.forall_mem_cons] at h
    rw [List.flatMap_cons, List.append_assoc, read_unit_escape h.1, ih h.2, Option.map_map]
    rfl

theorem read_ascii_escaped (c : Char) (cs : List Char) :
    read_units (ascii_escaped c ++ cs) =
      (read_units cs).map (fun r => (units_of c ++ r.1, r.2)) := by
  -- a letter after a backslash stands for a character of one unit
  have hletter : ∀ {e : Char}, unescaped e = some c.toNat → e ≠ 'u' → c.toNat < 0x80 →
      read_units (['\\', e] ++ cs) = (read_units cs).map (fun r => (units_of c ++ r.1, r.2)) := by
    intro e he hu hlt
    rw [units_one (by omega)]
    simp only [List.cons_append, List.nil_append]
    rw [read_units]
    · simp only [he]
    · intro a b c' d cs' he _
      exact absurd he hu
  unfold ascii_escaped
  split_ifs with h1 h2 h3 h4 h5 h6 h7 h8
  · subst h1; exact hletter rfl (by decide) (by decide)
  · subst h2; exact hletter rfl (by decide) (by decide)
  · subst h3; exact hletter rfl (by decide) (by decide)
  · subst h4; exact hletter rfl (by decide) (by decide)
  · subst h5; exact hletter rfl (by decide) (by decide)
  · subst h6; exact hletter rfl (by decide) (by decide)
  · subst h7; exact hletter rfl (by decide) (by decide)
  · have hcontrol : ¬c.toNat < 0x20 := by omega
    rw [units_one (by omega)]
    simp [read_units, h2, hcontrol]
  · exact read_units_escaped _ (units_lt c) cs

/-- The units of a text give its characters back. -/
theorem characters_of_units (cs : List Char) : characters (cs.flatMap units_of) = some cs := by
  induction cs with
  | nil => rfl
  | cons c cs ih =>
    obtain ⟨hhigh, hlow⟩ := not_surrogate c
    rw [List.flatMap_cons]
    by_cases hone : c.toNat < 0x10000
    · rw [units_one hone, List.singleton_append]
      rcases hrest : cs.flatMap units_of with _ | ⟨m, ns⟩
      · rw [hrest] at ih
        cases ih
        simp [characters, hhigh, hlow]
      · rw [hrest] at ih
        simp [characters, hhigh, hlow, ih]
    · have hlt := toNat_bound c
      have hpair : is_high (0xD800 + (c.toNat - 0x10000) / 0x400) = true ∧
          is_low (0xDC00 + (c.toNat - 0x10000) % 0x400) = true := by
        unfold is_high is_low
        rw [decide_eq_true_eq, decide_eq_true_eq]
        omega
      have hchar : Char.ofNat (0x10000 + (0xD800 + (c.toNat - 0x10000) / 0x400 - 0xD800) * 0x400 +
          (0xDC00 + (c.toNat - 0x10000) % 0x400 - 0xDC00)) = c := by
        have hnat : 0x10000 + (0xD800 + (c.toNat - 0x10000) / 0x400 - 0xD800) * 0x400 +
            (0xDC00 + (c.toNat - 0x10000) % 0x400 - 0xDC00) = c.toNat := by omega
        rw [hnat, Char.ofNat_toNat]
      rw [units_two hone, List.cons_append, List.singleton_append, characters, if_pos hpair, ih,
        Option.map_some, hchar]

theorem read_ascii_quoted (s : String) (rest : List Char) :
    read_text (s.toList.flatMap ascii_escaped ++ '"' :: rest) = some (s, rest) := by
  have hunits : ∀ cs : List Char, read_units (cs.flatMap ascii_escaped ++ '"' :: rest) =
      some (cs.flatMap units_of, rest) := by
    intro cs
    induction cs with
    | nil => simp [read_units]
    | cons c cs ih => rw [List.flatMap_cons, List.append_assoc, read_ascii_escaped, ih]; rfl
  unfold read_text
  rw [hunits]
  simp only [bind, Option.bind, characters_of_units, pure, String.ofList_toList]

theorem read_value_ascii (n : Nat) (s : String) (rest : List Char) :
    read_value (n + 1) (ascii_quoted s ++ rest) = some (.text s, rest) := by
  have htext : ascii_quoted s ++ rest =
      '"' :: (s.toList.flatMap ascii_escaped ++ '"' :: rest) := by
    simp [ascii_quoted]
  rw [htext, read_value, read_ascii_quoted]
  rfl

/-- A name and its value are read, and then what follows them. -/
theorem read_field {n : Nat} (field : String × String) (rest : List Char) :
    (∀ cs, skip rest = '}' :: cs →
      read_fields (n + 1 + 1) (ascii_field field ++ rest) = some ([text_field field], cs)) ∧
    (∀ cs, skip rest = ',' :: cs →
      read_fields (n + 1 + 1) (ascii_field field ++ rest) =
        (read_fields (n + 1) (skip cs)).map (fun r => (text_field field :: r.1, r.2))) := by
  have htext : ascii_field field ++ rest =
      '"' :: (field.1.toList.flatMap ascii_escaped ++ '"' :: ':' :: ' ' ::
        (ascii_quoted field.2 ++ rest)) := by
    simp [ascii_field, ascii_quoted]
  have hcolon : skip (':' :: ' ' :: (ascii_quoted field.2 ++ rest)) =
      ':' :: ' ' :: (ascii_quoted field.2 ++ rest) := rfl
  have hvalue : skip (' ' :: (ascii_quoted field.2 ++ rest)) = ascii_quoted field.2 ++ rest := rfl
  constructor <;>
    (intro cs hcs
     rw [htext, read_fields, read_ascii_quoted]
     simp only [hcolon, hvalue, read_value_ascii, hcs]
     rfl)

/-- The fields of an object that is not empty start with a quote. -/
theorem intercalate_fields (field : String × String) (fields : List (String × String)) :
    ∃ after, List.intercalate [',', ' '] ((field :: fields).map ascii_field) = '"' :: after := by
  rcases fields with _ | ⟨next, fields⟩
  · exact ⟨_, rfl⟩
  · exact ⟨_, rfl⟩

/-- The fields of an object that is not empty, after its opening brace. -/
theorem read_fields_written (field : String × String) (fields : List (String × String))
    (rest : List Char) {n : Nat} (h : fields.length + 2 ≤ n) :
    read_fields n
        (List.intercalate [',', ' '] ((field :: fields).map ascii_field) ++ '}' :: rest) =
      some ((field :: fields).map text_field, rest) := by
  induction fields generalizing field n with
  | nil =>
    rw [List.length_nil] at h
    obtain ⟨n, rfl⟩ : ∃ k, n = k + 1 + 1 := ⟨n - 2, by omega⟩
    rw [List.map_singleton, List.intercalate_singleton]
    exact (read_field field ('}' :: rest)).1 rest rfl
  | cons next fields ih =>
    rw [List.length_cons] at h
    obtain ⟨n, rfl⟩ : ∃ k, n = k + 1 + 1 := ⟨n - 2, by omega⟩
    have hrest := @ih next (n + 1) (by omega)
    obtain ⟨after, hafter⟩ := intercalate_fields next fields
    rw [hafter] at hrest
    rw [List.map_cons, List.map_cons, List.intercalate_cons_cons, ← List.map_cons,
      List.append_assoc, List.append_assoc, hafter]
    have hcomma : skip ([',', ' '] ++ ('"' :: after ++ '}' :: rest)) =
        ',' :: ' ' :: ('"' :: after ++ '}' :: rest) := rfl
    have hnext : skip (' ' :: ('"' :: after ++ '}' :: rest)) = '"' :: after ++ '}' :: rest := rfl
    rw [(read_field field _).2 _ hcomma, hnext, hrest]
    rfl

theorem length_fields (fields : List (String × String)) :
    fields.length ≤ (List.intercalate [',', ' '] (fields.map ascii_field)).length := by
  induction fields with
  | nil => simp
  | cons field fields ih =>
    rcases fields with _ | ⟨next, fields⟩
    · simp [ascii_field, ascii_quoted]
    · rw [List.map_cons, List.map_cons, List.intercalate_cons_cons, ← List.map_cons]
      simp only [List.length_cons, List.length_append] at ih ⊢
      omega

/-- An object of texts is read back, with its fields in their order. -/
theorem loads_dump_object (fields : List (String × String)) :
    loads (dump_object fields) = some (.object (fields.map text_field)) := by
  have htext : (dump_object fields).toList =
      '{' :: (List.intercalate [',', ' '] (fields.map ascii_field) ++ ['}']) := String.toList_ofList
  have hvalue : read_value ((dump_object fields).toList.length + 1) (dump_object fields).toList =
      some (.object (fields.map text_field), []) := by
    rcases fields with _ | ⟨field, fields⟩
    · rfl
    · have hlength := length_fields (field :: fields)
      have hfields := @read_fields_written field fields []
        (dump_object (field :: fields)).toList.length (by
          rw [htext]
          simp only [List.length_cons, List.length_append] at hlength ⊢
          omega)
      generalize (dump_object (field :: fields)).toList.length = n at hfields
      obtain ⟨after, hafter⟩ := intercalate_fields field fields
      rw [hafter] at hfields
      rw [htext, hafter, read_value]
      have hskip : skip ('"' :: after ++ ['}']) = '"' :: (after ++ ['}']) := rfl
      rw [hskip]
      change (read_fields n ('"' :: after ++ ['}'])).map (fun r => (Json.object r.1, r.2)) = _
      rw [hfields]
      rfl
  have hskip : skip (dump_object fields).toList = (dump_object fields).toList := by
    rw [htext]
    rfl
  simp only [loads, hskip, hvalue]
  rfl

end json_text
