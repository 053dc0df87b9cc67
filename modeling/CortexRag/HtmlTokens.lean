-- HTML as a browser reads it: the tokens of a text, for the part of HTML that has
-- no comments and no elements with raw text. What is written as a tag is read as one.
import Mathlib.Data.List.TakeWhile

namespace html_tokens

/-! ## Tokens -/

abbrev Attributes := List (List Char × List Char)

inductive Token where
  | Text (c : Char)
  | StartTag (name : List Char) (attributes : Attributes)
  | EndTag (name : List Char)
deriving DecidableEq

/-- A tag of which some has been read. -/
structure Tag where
  closes : Bool
  name : List Char
  attributes : Attributes := []

def Tag.add (tag : Tag) (name value : List Char) : Tag :=
  { tag with attributes := tag.attributes ++ [(name, value)] }

/-- Where the reader is. `quote` is the quote that ends the value, if one does. -/
inductive State where
  | Data
  | TagOpen
  | EndTagOpen
  | TagName (tag : Tag)
  | BeforeAttributeName (tag : Tag)
  | AttributeName (tag : Tag) (name : List Char)
  | AfterAttributeName (tag : Tag) (name : List Char)
  | BeforeAttributeValue (tag : Tag) (name : List Char)
  | AttributeValue (quote : Option Char) (tag : Tag) (name value : List Char)
  | AfterAttributeValue (tag : Tag)
  | SelfClosing (tag : Tag)
  | Lost

/-! ## The reader -/

def is_blank (c : Char) : Bool := decide (c = ' ' ∨ c = '\t' ∨ c = '\n' ∨ c = '\x0c' ∨ c = '\r')

/-- Elements whose content is not read as tags. -/
def raw_elements : List (List Char) :=
  ["script", "style", "title", "textarea", "xmp", "iframe", "noembed", "noframes", "noscript",
    "plaintext"].map String.toList

def finish (tag : Tag) : State × List Token :=
  if tag.closes then (.Data, [.EndTag tag.name])
  else if tag.name ∈ raw_elements then (.Lost, [])
  else (.Data, [.StartTag tag.name tag.attributes])

def before_attribute_name (tag : Tag) (c : Char) : State × List Token :=
  if is_blank c then (.BeforeAttributeName tag, [])
  else if c = '/' then (.SelfClosing tag, [])
  else if c = '>' then finish tag
  else (.AttributeName tag [c.toLower], [])

def text (c : Char) : State × List Token :=
  if c = '<' then (.TagOpen, []) else (.Data, [.Text c])

/-- One character. A reference such as `&lt;` stays as it is written, since what it
stands for is never read as markup. -/
def step : State → Char → State × List Token
  | .Data, c => text c
  | .TagOpen, c =>
    if c = '/' then (.EndTagOpen, [])
    else if c.isAlpha then (.TagName { closes := false, name := [c.toLower] }, [])
    else if c = '!' ∨ c = '?' then (.Lost, [])
    else ((text c).1, .Text '<' :: (text c).2)
  | .EndTagOpen, c =>
    if c.isAlpha then (.TagName { closes := true, name := [c.toLower] }, [])
    else if c = '>' then (.Data, [])
    else (.Lost, [])
  | .TagName tag, c =>
    if is_blank c then (.BeforeAttributeName tag, [])
    else if c = '/' then (.SelfClosing tag, [])
    else if c = '>' then finish tag
    else (.TagName { tag with name := tag.name ++ [c.toLower] }, [])
  | .BeforeAttributeName tag, c => before_attribute_name tag c
  | .AttributeName tag name, c =>
    if is_blank c then (.AfterAttributeName tag name, [])
    else if c = '/' then (.SelfClosing (tag.add name []), [])
    else if c = '>' then finish (tag.add name [])
    else if c = '=' then (.BeforeAttributeValue tag name, [])
    else (.AttributeName tag (name ++ [c.toLower]), [])
  | .AfterAttributeName tag name, c =>
    if is_blank c then (.AfterAttributeName tag name, [])
    else if c = '/' then (.SelfClosing (tag.add name []), [])
    else if c = '>' then finish (tag.add name [])
    else if c = '=' then (.BeforeAttributeValue tag name, [])
    else (.AttributeName (tag.add name []) [c.toLower], [])
  | .BeforeAttributeValue tag name, c =>
    if is_blank c then (.BeforeAttributeValue tag name, [])
    else if c = '"' ∨ c = '\'' then (.AttributeValue (some c) tag name [], [])
    else if c = '>' then finish (tag.add name [])
    else (.AttributeValue none tag name [c], [])
  | .AttributeValue (some quote) tag name value, c =>
    if c = quote then (.AfterAttributeValue (tag.add name value), [])
    else (.AttributeValue (some quote) tag name (value ++ [c]), [])
  | .AttributeValue none tag name value, c =>
    if is_blank c then (.BeforeAttributeName (tag.add name value), [])
    else if c = '>' then finish (tag.add name value)
    else (.AttributeValue none tag name (value ++ [c]), [])
  | .AfterAttributeValue tag, c => before_attribute_name tag c
  | .SelfClosing tag, c => before_attribute_name tag c
  | .Lost, _ => (.Lost, [])

def read : State → List Char → State × List Token
  | s, [] => (s, [])
  | s, c :: cs =>
    let (t, ts) := step s c
    let (u, us) := read t cs
    (u, ts ++ us)

/-- The tokens of a text that ends outside a tag and has nothing that this reader
does not read. -/
def tokens (cs : List Char) : Option (List Token) :=
  match read .Data cs with
  | (.Data, ts) => some ts
  | _ => none

/-- The characters outside the tags. -/
def text_of : List Token → List Char
  | [] => []
  | .Text c :: ts => c :: text_of ts
  | _ :: ts => text_of ts

theorem text_of_append (ts us : List Token) : text_of (ts ++ us) = text_of ts ++ text_of us := by
  induction ts with
  | nil => rfl
  | cons t ts ih => cases t <;> simp [text_of, ih]

theorem text_of_text (cs : List Char) : text_of (cs.map .Text) = cs := by
  induction cs with
  | nil => rfl
  | cons c cs ih => rw [List.map_cons, text_of, ih]

theorem read_append (s : State) (a b : List Char) :
    read s (a ++ b) = ((read (read s a).1 b).1, (read s a).2 ++ (read (read s a).1 b).2) := by
  induction a generalizing s with
  | nil => simp [read]
  | cons c a ih => simp [read, ih]

/-- Where the reader gets, and what it has given out by then. -/
theorem read_trans {s t u : State} {a b : List Char} {ts us : List Token}
    (h : read s a = (t, ts)) (h' : read t b = (u, us)) : read s (a ++ b) = (u, ts ++ us) := by
  rw [read_append, h]
  simp [h']

theorem tokens_iff {cs : List Char} {ts : List Token} :
    tokens cs = some ts ↔ read .Data cs = (.Data, ts) := by
  unfold tokens
  rcases h : read .Data cs with ⟨s, us⟩
  cases s <;> simp

theorem tokens_append {a b : List Char} {ts us : List Token} (ha : tokens a = some ts)
    (hb : tokens b = some us) : tokens (a ++ b) = some (ts ++ us) := by
  rw [tokens_iff] at ha hb ⊢
  exact read_trans ha hb

/-- A text without `<` is read as it is. -/
theorem tokens_text {cs : List Char} (h : '<' ∉ cs) : tokens cs = some (cs.map .Text) := by
  rw [tokens_iff]
  induction cs with
  | nil => rfl
  | cons c cs ih =>
    rw [List.mem_cons, not_or] at h
    have hc : step .Data c = (.Data, [.Text c]) := by
      simp [step, text, Ne.symm h.1]
    simp [read, hc, ih h.2]

/-! ## Tags as they are written -/

/-- ` name="value"`. -/
def written (a : List Char × List Char) : List Char := ' ' :: a.1 ++ '=' :: '"' :: a.2 ++ ['"']

def opened (name : List Char) (attributes : Attributes) : List Char :=
  '<' :: name ++ attributes.flatMap written ++ ['>']

def closed (name : List Char) : List Char := '<' :: '/' :: name ++ ['>']

/-- A letter or a digit that stays as it is. -/
def is_name (c : Char) : Bool := c.isLower || c.isDigit

/-- A name starts with a letter. -/
structure Name (name : List Char) : Prop where
  starts : ∃ c cs, name = c :: cs ∧ c.isLower = true
  letters : ∀ c ∈ name, is_name c = true

instance (name : List Char) : Decidable (Name name) :=
  decidable_of_iff ((name.head?.any Char.isLower = true) ∧ name.all is_name = true) (by
    constructor
    · rintro ⟨hhead, hletters⟩
      rcases name with _ | ⟨c, cs⟩
      · cases hhead
      · exact ⟨⟨c, cs, rfl, by simpa using hhead⟩, List.all_eq_true.1 hletters⟩
    · rintro ⟨⟨c, cs, rfl, hc⟩, hletters⟩
      exact ⟨by simpa using hc, List.all_eq_true.2 hletters⟩)

/-! ## Tags are read as they are written -/

theorem of_is_name {c : Char} (h : is_name c = true) :
    is_blank c = false ∧ c ≠ '/' ∧ c ≠ '>' ∧ c ≠ '=' ∧ c.toLower = c := by
  have hn : (97 ≤ c.toNat ∧ c.toNat ≤ 122) ∨ (48 ≤ c.toNat ∧ c.toNat ≤ 57) := by
    rcases Bool.or_eq_true_iff.1 h with hlower | hdigit
    · obtain ⟨hlow, hhigh⟩ := Bool.and_eq_true_iff.1 hlower
      exact Or.inl ⟨UInt32.le_iff_toNat_le.1 (of_decide_eq_true hlow),
        UInt32.le_iff_toNat_le.1 (of_decide_eq_true hhigh)⟩
    · obtain ⟨hlow, hhigh⟩ := Bool.and_eq_true_iff.1 hdigit
      exact Or.inr ⟨UInt32.le_iff_toNat_le.1 (of_decide_eq_true hlow),
        UInt32.le_iff_toNat_le.1 (of_decide_eq_true hhigh)⟩
  have hne : ∀ d : Char, d.toNat < 48 ∨ (57 < d.toNat ∧ d.toNat < 97) → c ≠ d := by
    rintro d hd rfl
    omega
  refine ⟨?_, hne _ (by decide), hne _ (by decide), hne _ (by decide), ?_⟩
  · simp only [is_blank, decide_eq_false_iff_not, not_or]
    refine ⟨hne _ ?_, hne _ ?_, hne _ ?_, hne _ ?_, hne _ ?_⟩ <;> decide
  · unfold Char.toLower
    rw [dif_neg]
    rintro ⟨hlow, hhigh⟩
    have hlow : 65 ≤ c.toNat := UInt32.le_iff_toNat_le.1 hlow
    have hhigh : c.toNat ≤ 90 := UInt32.le_iff_toNat_le.1 hhigh
    omega

theorem read_tag_name (tag : Tag) {cs : List Char} (h : ∀ c ∈ cs, is_name c = true) :
    read (.TagName tag) cs = (.TagName { tag with name := tag.name ++ cs }, []) := by
  induction cs generalizing tag with
  | nil => simp [read]
  | cons c cs ih =>
    rw [List.forall_mem_cons] at h
    obtain ⟨hblank, hslash, hend, -, hlower⟩ := of_is_name h.1
    have hc : step (.TagName tag) c = (.TagName { tag with name := tag.name ++ [c] }, []) := by
      simp [step, hblank, hslash, hend, hlower]
    simp [read, hc, ih _ h.2]

theorem read_attribute_name (tag : Tag) (name : List Char) {cs : List Char}
    (h : ∀ c ∈ cs, is_name c = true) :
    read (.AttributeName tag name) cs = (.AttributeName tag (name ++ cs), []) := by
  induction cs generalizing name with
  | nil => simp [read]
  | cons c cs ih =>
    rw [List.forall_mem_cons] at h
    obtain ⟨hblank, hslash, hend, heq, hlower⟩ := of_is_name h.1
    have hc : step (.AttributeName tag name) c = (.AttributeName tag (name ++ [c]), []) := by
      simp [step, hblank, hslash, hend, heq, hlower]
    simp [read, hc, ih _ h.2]

theorem read_value (tag : Tag) (name value : List Char) {cs : List Char} (h : '"' ∉ cs) :
    read (.AttributeValue (some '"') tag name value) cs =
      (.AttributeValue (some '"') tag name (value ++ cs), []) := by
  induction cs generalizing value with
  | nil => simp [read]
  | cons c cs ih =>
    rw [List.mem_cons, not_or] at h
    have hc : step (.AttributeValue (some '"') tag name value) c =
        (.AttributeValue (some '"') tag name (value ++ [c]), []) := by
      simp [step, Ne.symm h.1]
    simp [read, hc, ih _ h.2]

/-- An attribute that is written out is read, from each state where a tag goes on
after a blank. -/
theorem read_written {s : State} {tag : Tag} {name value : List Char}
    (hblank : step s ' ' = (.BeforeAttributeName tag, [])) (hname : Name name)
    (hvalue : '"' ∉ value) :
    read s (written (name, value)) = (.AfterAttributeValue (tag.add name value), []) := by
  obtain ⟨⟨c, cs, rfl, -⟩, hletters⟩ := hname
  rw [List.forall_mem_cons] at hletters
  obtain ⟨hc, hslash, hend, -, hlower⟩ := of_is_name hletters.1
  have hstart : read s [' ', c] = (.AttributeName tag [c], []) := by
    rw [read, hblank]
    simp [read, step, before_attribute_name, hc, hslash, hend, hlower]
  have hquote : read (.AttributeName tag (c :: cs)) ['=', '"'] =
      (.AttributeValue (some '"') tag (c :: cs) [], []) := by
    simp [read, step, is_blank]
  have hclose : read (.AttributeValue (some '"') tag (c :: cs) value) ['"'] =
      (.AfterAttributeValue (tag.add (c :: cs) value), []) := by
    simp [read, step]
  have hparts : written (c :: cs, value) =
      [' ', c] ++ (cs ++ (['=', '"'] ++ (value ++ ['"']))) := by
    simp [written]
  rw [hparts]
  exact read_trans hstart (read_trans (read_attribute_name tag [c] hletters.2)
    (read_trans hquote (read_trans (by simpa using read_value tag (c :: cs) [] hvalue) hclose)))

/-- Names of attributes, and values that can stand between quotes. -/
def Quotable (attributes : Attributes) : Prop := ∀ a ∈ attributes, Name a.1 ∧ '"' ∉ a.2

theorem quotable_nil : Quotable [] := fun _ ha => absurd ha List.not_mem_nil

theorem read_attributes {s : State} {tag : Tag} {attributes : Attributes}
    (hblank : step s ' ' = (.BeforeAttributeName tag, [])) (hend : step s '>' = finish tag)
    (h : Quotable attributes) :
    read s (attributes.flatMap written ++ ['>']) =
      finish { tag with attributes := tag.attributes ++ attributes } := by
  induction attributes generalizing s tag with
  | nil => simp [read, hend]
  | cons a attributes ih =>
    have ha := h a List.mem_cons_self
    have hrest := @ih (.AfterAttributeValue (tag.add a.1 a.2)) (tag.add a.1 a.2) rfl rfl
      (fun b hb => h b (List.mem_cons_of_mem a hb))
    rw [List.flatMap_cons, List.append_assoc, read_append, read_written hblank ha.1 ha.2, hrest]
    simp [Tag.add]

theorem tokens_opened {name : List Char} {attributes : Attributes} (hname : Name name)
    (hraw : name ∉ raw_elements) (h : Quotable attributes) :
    tokens (opened name attributes) = some [.StartTag name attributes] := by
  obtain ⟨⟨c, cs, rfl, hlower⟩, hletters⟩ := hname
  rw [List.forall_mem_cons] at hletters
  have halpha : c.isAlpha = true := Bool.or_eq_true_iff.2 (Or.inr hlower)
  have hslash : c ≠ '/' := (of_is_name hletters.1).2.1
  have hkept : c.toLower = c := (of_is_name hletters.1).2.2.2.2
  have hstart : read .Data ['<', c] = (.TagName { closes := false, name := [c] }, []) := by
    simp [read, step, text, halpha, hslash, hkept]
  have hparts : opened (c :: cs) attributes =
      ['<', c] ++ (cs ++ (attributes.flatMap written ++ ['>'])) := by
    simp [opened]
  have hfinish : finish { closes := false, name := c :: cs, attributes } =
      (.Data, [.StartTag (c :: cs) attributes]) := by
    rw [finish, if_neg Bool.false_ne_true, if_neg hraw]
  rw [tokens_iff, hparts]
  have hread := read_trans hstart (read_trans (read_tag_name _ hletters.2)
    ((@read_attributes _ { closes := false, name := c :: cs } _ rfl rfl h).trans hfinish))
  simpa using hread

theorem tokens_closed {name : List Char} (hname : Name name) :
    tokens (closed name) = some [.EndTag name] := by
  obtain ⟨⟨c, cs, rfl, hlower⟩, hletters⟩ := hname
  rw [List.forall_mem_cons] at hletters
  have halpha : c.isAlpha = true := Bool.or_eq_true_iff.2 (Or.inr hlower)
  have hkept : c.toLower = c := (of_is_name hletters.1).2.2.2.2
  have hstart : read .Data ['<', '/', c] = (.TagName { closes := true, name := [c] }, []) := by
    simp [read, step, text, halpha, hkept]
  have hparts : closed (c :: cs) = ['<', '/', c] ++ (cs ++ ['>']) := by simp [closed]
  rw [tokens_iff, hparts]
  have hread := read_trans hstart (read_trans (read_tag_name _ hletters.2)
    (@read_attributes _ { closes := true, name := c :: cs } [] rfl rfl quotable_nil))
  simpa [finish] using hread

/-! ## Texts with tokens of one kind -/

/-- The text is read to its end, and each token is of the kind. -/
def Reads (kind : Token → Prop) (cs : List Char) : Prop :=
  ∃ ts, tokens cs = some ts ∧ ∀ t ∈ ts, kind t

variable {kind : Token → Prop}

theorem reads_nil : Reads kind [] := ⟨[], rfl, by simp⟩

theorem reads_append {a b : List Char} (ha : Reads kind a) (hb : Reads kind b) :
    Reads kind (a ++ b) := by
  obtain ⟨ts, hts, hkind⟩ := ha
  obtain ⟨us, hus, hkind'⟩ := hb
  exact ⟨ts ++ us, tokens_append hts hus, List.forall_mem_append.2 ⟨hkind, hkind'⟩⟩

theorem reads_flatten {parts : List (List Char)} (h : ∀ part ∈ parts, Reads kind part) :
    Reads kind parts.flatten := by
  induction parts with
  | nil => exact reads_nil
  | cons part parts ih =>
    rw [List.forall_mem_cons] at h
    exact reads_append h.1 (ih h.2)

theorem reads_text {cs : List Char} (h : '<' ∉ cs) (hkind : ∀ c, kind (.Text c)) :
    Reads kind cs := by
  refine ⟨cs.map .Text, tokens_text h, ?_⟩
  intro t ht
  obtain ⟨c, -, rfl⟩ := List.mem_map.1 ht
  exact hkind c

theorem reads_opened {name : List Char} {attributes : Attributes} (hname : Name name)
    (hraw : name ∉ raw_elements) (h : Quotable attributes)
    (hkind : kind (.StartTag name attributes)) : Reads kind (opened name attributes) :=
  ⟨_, tokens_opened hname hraw h, by simpa using hkind⟩

theorem reads_closed {name : List Char} (hname : Name name) (hkind : kind (.EndTag name)) :
    Reads kind (closed name) :=
  ⟨_, tokens_closed hname, by simpa using hkind⟩

end html_tokens
