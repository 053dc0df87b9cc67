-- JSON as text: a reader of JSON values, and a writer of arrays of texts whose
-- output the reader gives back.
import CortexRag.Json

namespace json_text

open json_values

/-! ## Texts -/

def hex_value (c : Char) : Option Nat :=
  let n := c.toNat
  if 48 ≤ n ∧ n ≤ 57 then some (n - 48)
  else if 97 ≤ n ∧ n ≤ 102 then some (n - 87)
  else if 65 ≤ n ∧ n ≤ 70 then some (n - 55)
  else none

/-- The number of four hexadecimal digits. -/
def hex4 (a b c d : Char) : Option Nat := do
  let a ← hex_value a
  let b ← hex_value b
  let c ← hex_value c
  let d ← hex_value d
  return ((a * 16 + b) * 16 + c) * 16 + d

/-- What stands for a letter after a backslash. -/
def unescaped : Char → Option Nat
  | '"' => some 0x22
  | '\\' => some 0x5C
  | '/' => some 0x2F
  | 'b' => some 0x08
  | 'f' => some 0x0C
  | 'n' => some 0x0A
  | 'r' => some 0x0D
  | 't' => some 0x09
  | _ => none

/-- The code units of a text up to its closing quote, and what follows. -/
def read_units : List Char → Option (List Nat × List Char)
  | [] => none
  | '"' :: cs => some ([], cs)
  | '\\' :: 'u' :: a :: b :: c :: d :: cs =>
    match hex4 a b c d with
    | none => none
    | some n => (read_units cs).map (fun r => (n :: r.1, r.2))
  | '\\' :: e :: cs =>
    match unescaped e with
    | none => none
    | some n => (read_units cs).map (fun r => (n :: r.1, r.2))
  | c :: cs =>
    if c = '\\' ∨ c.toNat < 0x20 then none
    else (read_units cs).map (fun r => (c.toNat :: r.1, r.2))

def is_high (n : Nat) : Bool := decide (0xD800 ≤ n ∧ n < 0xDC00)

def is_low (n : Nat) : Bool := decide (0xDC00 ≤ n ∧ n < 0xE000)

/-- The characters of the code units: a high and a low surrogate are one. A
surrogate alone is no character. -/
def characters : List Nat → Option (List Char)
  | [] => some []
  | [n] => if is_high n ∨ is_low n then none else some [Char.ofNat n]
  | n :: m :: ns =>
    if is_high n ∧ is_low m then
      (characters ns).map (fun cs =>
        Char.ofNat (0x10000 + (n - 0xD800) * 0x400 + (m - 0xDC00)) :: cs)
    else if is_high n ∨ is_low n then none
    else (characters (m :: ns)).map (fun cs => Char.ofNat n :: cs)

/-- A text after its opening quote. -/
def read_text (cs : List Char) : Option (String × List Char) := do
  let (units, cs) ← read_units cs
  let text ← characters units
  return (String.ofList text, cs)

/-! ## Numbers -/

def is_digit (c : Char) : Bool := decide (48 ≤ c.toNat ∧ c.toNat ≤ 57)

/-- One digit or more. -/
def read_digits (cs : List Char) : Option (List Char × List Char) :=
  if cs.takeWhile is_digit = [] then none
  else some (cs.takeWhile is_digit, cs.dropWhile is_digit)

def read_integer : List Char → Option (List Char × List Char)
  | '0' :: cs => some (['0'], cs)
  | cs => read_digits cs

/-- The fraction, if there is one. -/
def read_fraction : List Char → List Char × List Char
  | '.' :: cs =>
    match read_digits cs with
    | none => ([], '.' :: cs)
    | some (digits, cs) => ('.' :: digits, cs)
  | cs => ([], cs)

/-- The exponent, if there is one. -/
def read_exponent (cs : List Char) : List Char × List Char :=
  match cs with
  | e :: rest =>
    if e = 'e' ∨ e = 'E' then
      let (sign, digits) := match rest with
        | '+' :: rest => (['+'], rest)
        | '-' :: rest => (['-'], rest)
        | rest => ([], rest)
      match read_digits digits with
      | none => ([], cs)
      | some (digits, after) => (e :: (sign ++ digits), after)
    else ([], cs)
  | [] => ([], [])

def read_number (cs : List Char) : Option (Json × List Char) := do
  let (sign, cs) := match cs with
    | '-' :: cs => (['-'], cs)
    | cs => ([], cs)
  let (digits, cs) ← read_integer cs
  let (fraction, cs) := read_fraction cs
  let (exponent, cs) := read_exponent cs
  return (.number (String.ofList (sign ++ digits ++ fraction ++ exponent)), cs)

/-! ## Values -/

def is_space (c : Char) : Bool := decide (c = ' ' ∨ c = '\t' ∨ c = '\n' ∨ c = '\r')

def skip (cs : List Char) : List Char := cs.dropWhile is_space

mutual

/-- A value, and what follows. The first argument bounds the calls within calls:
each of them has read a character before. -/
def read_value : Nat → List Char → Option (Json × List Char)
  | 0, _ => none
  | n + 1, cs =>
    match cs with
    | '"' :: cs => (read_text cs).map (fun r => (.text r.1, r.2))
    | '[' :: cs =>
      match skip cs with
      | ']' :: cs => some (.array [], cs)
      | cs => (read_items n cs).map (fun r => (.array r.1, r.2))
    | '{' :: cs =>
      match skip cs with
      | '}' :: cs => some (.object [], cs)
      | cs => (read_fields n cs).map (fun r => (.object r.1, r.2))
    | 'n' :: 'u' :: 'l' :: 'l' :: cs => some (.null, cs)
    | 't' :: 'r' :: 'u' :: 'e' :: cs => some (.bool true, cs)
    | 'f' :: 'a' :: 'l' :: 's' :: 'e' :: cs => some (.bool false, cs)
    | 'N' :: 'a' :: 'N' :: cs => some (.number "NaN", cs)
    | 'I' :: 'n' :: 'f' :: 'i' :: 'n' :: 'i' :: 't' :: 'y' :: cs => some (.number "Infinity", cs)
    | '-' :: 'I' :: 'n' :: 'f' :: 'i' :: 'n' :: 'i' :: 't' :: 'y' :: cs =>
      some (.number "-Infinity", cs)
    | cs => read_number cs

def read_items : Nat → List Char → Option (List Json × List Char)
  | 0, _ => none
  | n + 1, cs =>
    match read_value n cs with
    | none => none
    | some (item, cs) =>
      match skip cs with
      | ']' :: cs => some ([item], cs)
      | ',' :: cs => (read_items n (skip cs)).map (fun r => (item :: r.1, r.2))
      | _ => none

def read_fields : Nat → List Char → Option (List (Text × Json) × List Char)
  | 0, _ => none
  | n + 1, cs =>
    match cs with
    | '"' :: cs =>
      match read_text cs with
      | none => none
      | some (name, cs) =>
        match skip cs with
        | ':' :: cs =>
          match read_value n (skip cs) with
          | none => none
          | some (value, cs) =>
            match skip cs with
            | '}' :: cs => some ([(name, value)], cs)
            | ',' :: cs => (read_fields n (skip cs)).map (fun r => ((name, value) :: r.1, r.2))
            | _ => none
        | _ => none
    | _ => none

end

/-- The value of a text that holds it and blanks around it. -/
def loads (text : String) : Option Json := do
  let (value, rest) ← read_value (text.toList.length + 1) (skip text.toList)
  if skip rest = [] then return value else none

/-! ## Arrays of texts -/

def hex_digit (n : Nat) : Char := if n < 10 then Char.ofNat (48 + n) else Char.ofNat (87 + n)

def escaped (c : Char) : List Char :=
  if c = '"' then ['\\', '"']
  else if c = '\\' then ['\\', '\\']
  else if c.toNat < 0x20 then
    ['\\', 'u', '0', '0', hex_digit (c.toNat / 16), hex_digit (c.toNat % 16)]
  else [c]

/-- The text in quotes. -/
def quoted (s : String) : List Char := '"' :: (s.toList.flatMap escaped ++ ['"'])

/-- The array of the texts, as JSON. -/
def dumps (items : List String) : String :=
  String.ofList ('[' :: (List.intercalate [','] (items.map quoted) ++ [']']))

/-! ## What is written is read -/

theorem hex_value_digit {n : Nat} (h : n < 16) : hex_value (hex_digit n) = some n := by
  have hdigits : ∀ n < 16, hex_value (hex_digit n) = some n := by decide
  exact hdigits n h

theorem read_escaped (c : Char) (cs : List Char) :
    read_units (escaped c ++ cs) = (read_units cs).map (fun r => (c.toNat :: r.1, r.2)) := by
  unfold escaped
  by_cases hquote : c = '"'
  · rw [if_pos hquote, hquote]
    simp [read_units, unescaped]
  · by_cases hslash : c = '\\'
    · rw [if_neg hquote, if_pos hslash, hslash]
      simp [read_units, unescaped]
    · by_cases hcontrol : c.toNat < 0x20
      · have hhex : hex4 '0' '0' (hex_digit (c.toNat / 16)) (hex_digit (c.toNat % 16)) =
            some c.toNat := by
          have hzero : hex_value '0' = some 0 := by decide
          have hhigh := hex_value_digit (n := c.toNat / 16) (by omega)
          have hlow := hex_value_digit (n := c.toNat % 16) (by omega)
          simp only [hex4, hzero, hhigh, hlow, bind, Option.bind, pure, Option.some.injEq]
          omega
        rw [if_neg hquote, if_neg hslash, if_pos hcontrol]
        simp [read_units, hhex]
      · rw [if_neg hquote, if_neg hslash, if_neg hcontrol]
        simp [read_units, hslash, hcontrol]

/-- A character is no surrogate. -/
theorem not_surrogate (c : Char) : is_high c.toNat = false ∧ is_low c.toNat = false := by
  have hvalid := c.valid
  have hrange : c.toNat < 0xD800 ∨ (0xDFFF < c.toNat ∧ c.toNat < 0x110000) := hvalid
  unfold is_high is_low
  rw [decide_eq_false_iff_not, decide_eq_false_iff_not]
  omega

theorem characters_of_text (cs : List Char) : characters (cs.map Char.toNat) = some cs := by
  induction cs with
  | nil => rfl
  | cons c cs ih =>
    obtain ⟨hhigh, hlow⟩ := not_surrogate c
    rcases cs with _ | ⟨d, cs⟩
    · simp [characters, hhigh, hlow]
    · simp only [List.map_cons] at ih ⊢
      simp [characters, hhigh, hlow, ih]

theorem read_quoted (s : String) (rest : List Char) :
    read_text (s.toList.flatMap escaped ++ '"' :: rest) = some (s, rest) := by
  have hunits : ∀ cs : List Char, read_units (cs.flatMap escaped ++ '"' :: rest) =
      some (cs.map Char.toNat, rest) := by
    intro cs
    induction cs with
    | nil => simp [read_units]
    | cons c cs ih => rw [List.flatMap_cons, List.append_assoc, read_escaped, ih]; rfl
  unfold read_text
  rw [hunits]
  simp only [bind, Option.bind, characters_of_text, pure, String.ofList_toList]

theorem read_value_quoted (n : Nat) (s : String) (rest : List Char) :
    read_value (n + 1) (quoted s ++ rest) = some (.text s, rest) := by
  have htext : quoted s ++ rest = '"' :: (s.toList.flatMap escaped ++ '"' :: rest) := by
    simp [quoted]
  rw [htext, read_value, read_quoted]
  rfl

/-- The texts of an array that is not empty start with a quote. -/
theorem intercalate_quoted (item : String) (items : List String) :
    ∃ after, List.intercalate [','] ((item :: items).map quoted) = '"' :: after := by
  rcases items with _ | ⟨next, items⟩
  · exact ⟨_, rfl⟩
  · exact ⟨_, rfl⟩

/-- The texts of an array that is not empty, after its opening bracket. -/
theorem read_items_quoted (item : String) (items : List String) (rest : List Char) {n : Nat}
    (h : items.length + 2 ≤ n) :
    read_items n (List.intercalate [','] ((item :: items).map quoted) ++ ']' :: rest) =
      some ((item :: items).map .text, rest) := by
  induction items generalizing item n with
  | nil =>
    rw [List.length_nil] at h
    obtain ⟨n, rfl⟩ : ∃ k, n = k + 1 + 1 := ⟨n - 2, by omega⟩
    rw [List.map_singleton, List.intercalate_singleton, read_items, read_value_quoted]
    rfl
  | cons next items ih =>
    rw [List.length_cons] at h
    obtain ⟨n, rfl⟩ : ∃ k, n = k + 1 + 1 := ⟨n - 2, by omega⟩
    have hrest := ih next (n := n + 1) (by omega)
    rw [List.map_cons, List.map_cons, List.intercalate_cons_cons, ← List.map_cons,
      List.append_assoc, List.append_assoc, read_items, read_value_quoted]
    obtain ⟨after, hafter⟩ := intercalate_quoted next items
    rw [hafter] at hrest ⊢
    have hcomma : skip ([','] ++ ('"' :: after ++ ']' :: rest)) =
        ',' :: '"' :: (after ++ ']' :: rest) := rfl
    have hnext : skip ('"' :: (after ++ ']' :: rest)) = '"' :: after ++ ']' :: rest := rfl
    simp only [hcomma, hnext, hrest]
    rfl

theorem length_quoted (items : List String) :
    items.length ≤ (List.intercalate [','] (items.map quoted)).length := by
  induction items with
  | nil => simp
  | cons item items ih =>
    rcases items with _ | ⟨next, items⟩
    · simp [quoted]
    · rw [List.map_cons, List.map_cons, List.intercalate_cons_cons, ← List.map_cons]
      simp only [List.length_cons, List.length_append] at ih ⊢
      omega

/-- An array of texts is read back. -/
theorem loads_dumps (items : List String) :
    loads (dumps items) = some (.array (items.map .text)) := by
  have htext : (dumps items).toList =
      '[' :: (List.intercalate [','] (items.map quoted) ++ [']']) := String.toList_ofList
  have hvalue : read_value ((dumps items).toList.length + 1) (dumps items).toList =
      some (.array (items.map .text), []) := by
    rcases items with _ | ⟨item, items⟩
    · rfl
    · have hlength := length_quoted (item :: items)
      have hitems := read_items_quoted item items [] (n := (dumps (item :: items)).toList.length)
        (by
          rw [htext]
          simp only [List.length_cons, List.length_append] at hlength ⊢
          omega)
      generalize (dumps (item :: items)).toList.length = n at hitems
      obtain ⟨after, hafter⟩ := intercalate_quoted item items
      rw [hafter] at hitems
      rw [htext, hafter, read_value]
      have hskip : skip ('"' :: after ++ [']']) = '"' :: (after ++ [']']) := rfl
      rw [hskip]
      change (read_items n ('"' :: after ++ [']'])).map (fun r => (Json.array r.1, r.2)) = _
      rw [hitems]
      rfl
  unfold loads
  have hskip : skip (dumps items).toList = (dumps items).toList := by
    rw [htext]
    rfl
  rw [hskip, hvalue]
  rfl

/-- A number is no array. -/
theorem read_number_ne_array {cs rest : List Char} {items : List Json} :
    read_number cs ≠ some (.array items, rest) := by
  simp [read_number, Option.bind_eq_some_iff]

/-- What is read as an array starts with a bracket. -/
theorem head_of_array {n : Nat} {cs rest : List Char} {items : List Json}
    (h : read_value n cs = some (.array items, rest)) : cs.head? = some '[' := by
  cases n with
  | zero => simp [read_value] at h
  | succ n =>
    rw [read_value.eq_def] at h
    dsimp only at h
    split at h
    · simp at h
    · rfl
    · split at h
      · simp at h
      · simp at h
    · simp at h
    · simp at h
    · simp at h
    · simp at h
    · simp at h
    · simp at h
    · exact absurd h read_number_ne_array

end json_text
