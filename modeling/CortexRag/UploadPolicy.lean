-- The upload policy and how it is written: a list of the environment as text with
-- commas and as a JSON array. The two accept the same uploads when trimming the
-- items changes nothing that a file can have.
import CortexRag.Uploads
import CortexRag.JsonText
import CortexRag.MetadataRoundTrip

open json_values json_text trimmed_lists

namespace cortex_rag

/-! ## The settings -/

/-- `raw.split(",")`. -/
def split_on_commas (raw : String) : List String := (raw.toList.splitOn ',').map String.ofList

/-- `raw.startswith("[")`. -/
def starts_with_bracket (raw : String) : Bool := decide (raw.toList.head? = some '[')

/-- `parse_str_list`. No value where `json.loads` fails. A text with a surrogate that stands
alone stays: no list of such items is one of texts. -/
def parse_str_list : Json → Option Json
  | .array items => some (.array items)
  | .text value =>
    let raw := strip value
    if raw = "" then some (.array [])
    else if starts_with_bracket raw then loads raw
    else some (.array ((((split_on_commas raw).map strip).filter (fun item => item ≠ "")).map
      .text))
  | value => some value

namespace UploadSettings

def _parse_lists (value : Json) : Option Json := parse_str_list value

def _normalize_extensions (value : List String) : List String := value.map normalized_extension

/-- The field `allowed_extensions` from its value in the environment. -/
def read_allowed_extensions : Option Json → Option (List String)
  | none => some ["pdf"]
  | some value =>
    ((_parse_lists value).bind KnowledgeMetadata.read_list).map _normalize_extensions

/-- The field `allowed_mime_types` from its value in the environment. -/
def read_allowed_mime_types : Option Json → Option (List String)
  | none => some ["application/pdf"]
  | some value => (_parse_lists value).bind KnowledgeMetadata.read_list

/-- `UploadSettings()`, where the environment has these values. -/
def load (max_size_mb : Int) (allowed_extensions allowed_mime_types : Option Json) :
    Option UploadSettings := do
  let allowed_extensions ← read_allowed_extensions allowed_extensions
  let allowed_mime_types ← read_allowed_mime_types allowed_mime_types
  return { max_size_mb, allowed_extensions, allowed_mime_types }

end UploadSettings

namespace upload_policy

/-! ## The two texts of a list -/

/-- The items as the text with commas gives them. -/
def trimmed_items (items : List String) : List String :=
  (items.map strip).filter (fun item => item ≠ "")

theorem mem_trimmed_items {items : List String} {item : String} :
    item ∈ trimmed_items items ↔ item ≠ "" ∧ ∃ other ∈ items, strip other = item := by
  simp [trimmed_items, and_comm]

theorem strip_eq_trim (s : String) : strip s = String.ofList (trim isspace s.toList) := rfl

theorem strip_empty : strip "" = "" := rfl

/-- The pieces of a text without its blanks are the pieces of the text, trimmed. -/
theorem strip_split_on_commas (s : String) :
    (split_on_commas (strip s)).map strip = (split_on_commas s).map strip := by
  have hcomma : ∀ c : Char, isspace c = true → (c == ',') = false := by
    intro c hc
    rw [beq_eq_false_iff_ne]
    rintro rfl
    exact absurd hc (by decide)
  have hpieces := congrArg (List.map String.ofList)
    (splitOnP_trim (p := isspace) hcomma s.toList)
  unfold split_on_commas
  rw [strip_eq_trim, String.toList_ofList, List.map_map, List.map_map,
    List.splitOn_eq_splitOnP, List.splitOn_eq_splitOnP]
  rw [List.map_map, List.map_map] at hpieces
  have hstrip : (strip ∘ String.ofList) = (String.ofList ∘ trim isspace) := by
    funext piece
    rw [Function.comp_apply, Function.comp_apply, strip_eq_trim, String.toList_ofList]
  rw [hstrip]
  exact hpieces

theorem split_intercalate {items : List String} (hne : items ≠ [])
    (h : ∀ item ∈ items, ',' ∉ item.toList) :
    split_on_commas (String.intercalate "," items) = items := by
  unfold split_on_commas
  rw [String.toList_intercalate]
  have hcomma : ",".toList = [','] := rfl
  have hitems : items.map (String.ofList ∘ String.toList) = items := by
    have hid : String.ofList ∘ String.toList = id := funext (fun s => String.ofList_toList)
    rw [hid, List.map_id]
  rw [hcomma, List.splitOn_intercalate ',' (by simpa using h) (by simpa using hne), List.map_map,
    hitems]

/-- The text with commas gives the items that are not blank, trimmed. -/
theorem parse_text_with_commas {items : List String} (h : ∀ item ∈ items, ',' ∉ item.toList)
    (hbracket : starts_with_bracket (strip (String.intercalate "," items)) = false) :
    parse_str_list (.text (String.intercalate "," items)) =
      some (.array ((trimmed_items items).map .text)) := by
  simp only [parse_str_list]
  by_cases hempty : strip (String.intercalate "," items) = ""
  · rw [if_pos hempty]
    have hnone : trimmed_items items = [] := by
      rcases items with _ | ⟨item, items⟩
      · rfl
      · have hpieces := strip_split_on_commas (String.intercalate "," (item :: items))
        rw [hempty, split_intercalate (List.cons_ne_nil _ _) h] at hpieces
        unfold trimmed_items
        rw [← hpieces]
        rfl
    rw [hnone]
    rfl
  · rw [if_neg hempty, hbracket, if_neg Bool.false_ne_true, strip_split_on_commas]
    rcases items with _ | ⟨item, items⟩
    · exact absurd strip_empty hempty
    · rw [split_intercalate (List.cons_ne_nil _ _) h]
      rfl

/-- No blank of JSON starts a trimmed text. -/
theorem skip_of_trimmed {s : String} (h : KnowledgeMetadata.IsTrimmed s) :
    skip s.toList = s.toList := by
  have hhead := h.head
  unfold skip
  generalize s.toList = cs at hhead
  rcases cs with _ | ⟨c, cs⟩
  · rfl
  · have hblank : isspace c = false := hhead c rfl
    have hspace : is_space c = false := by
      unfold is_space
      rw [decide_eq_false_iff_not]
      rintro (rfl | rfl | rfl | rfl)
      · exact absurd hblank (by decide)
      · exact absurd hblank (by decide)
      · exact absurd hblank (by decide)
      · exact absurd hblank (by decide)
    rw [List.dropWhile_cons, hspace, if_neg Bool.false_ne_true]

/-- A JSON array gives its items. -/
theorem parse_json_array {json : String} {items : List Json}
    (h : loads (strip json) = some (.array items)) :
    parse_str_list (.text json) = some (.array items) := by
  have hbracket : (strip json).toList.head? = some '[' := by
    obtain ⟨⟨value, rest⟩, hvalue, hrest⟩ := Option.bind_eq_some_iff.mp h
    rw [skip_of_trimmed (KnowledgeMetadata.strip_trimmed json)] at hvalue
    obtain ⟨_, hvalue'⟩ := Option.ite_none_right_eq_some.mp hrest
    rw [Option.some.inj hvalue'] at hvalue
    exact head_of_array hvalue
  have hne : strip json ≠ "" := by
    intro hempty
    rw [hempty] at hbracket
    cases hbracket
  simp only [parse_str_list]
  rw [if_neg hne, starts_with_bracket, hbracket, if_pos (by simp), h]

/-- Every list of texts has a JSON array. -/
theorem loads_strip_dumps (items : List String) :
    loads (strip (dumps items)) = some (.array (items.map .text)) := by
  have htrimmed : KnowledgeMetadata.IsTrimmed (dumps items) := by
    unfold KnowledgeMetadata.IsTrimmed dumps
    rw [String.toList_ofList]
    constructor
    · intro c hc
      obtain rfl : '[' = c := Option.some.inj hc
      decide
    · intro c hc
      rw [← List.cons_append, List.getLast?_concat] at hc
      obtain rfl : ']' = c := Option.some.inj hc
      decide
  rw [KnowledgeMetadata.strip_of_trimmed htrimmed, loads_dumps]

/-! ## What the policy accepts -/

/-- A file can have the extension. -/
def IsExtension (extension : String) : Prop :=
  ∃ name : String, '.' ∈ name.toList ∧
    String.ofList (lower (after_last_dot name.toList)) = extension

theorem validate_upload_ok {settings : UploadSettings} {name : String} {content : Bytes}
    {content_type extension : String} :
    validate_upload settings name content content_type = .ok extension ↔
      (content ≠ [] ∧ content.length ≤ settings.max_size_bytes) ∧
      ('.' ∈ name.toList ∧ String.ofList (lower (after_last_dot name.toList)) = extension) ∧
      extension ∈ settings.allowed_extensions ∧ content_type ∈ settings.allowed_mime_types := by
  unfold validate_upload
  dsimp only
  constructor
  · intro h
    repeat' split at h
    all_goals cases h
    rename_i hcontent hsize hdot hextension htype
    exact ⟨⟨hcontent, not_lt.mp hsize⟩, ⟨not_not.mp hdot, rfl⟩, not_not.mp hextension,
      not_not.mp htype⟩
  · rintro ⟨⟨hcontent, hsize⟩, ⟨hdot, rfl⟩, hextension, htype⟩
    rw [if_neg hcontent, if_neg (not_lt.mpr hsize), if_neg (not_not.mpr hdot),
      if_neg (not_not.mpr hextension), if_neg (not_not.mpr htype)]

/-- The two settings accept the same uploads with the same extension, and neither
accepts a name with an empty one. -/
def SamePolicy (a b : UploadSettings) : Prop :=
  (∀ name content content_type extension,
    validate_upload a name content content_type = .ok extension ↔
      validate_upload b name content content_type = .ok extension) ∧
  ∀ name content content_type, validate_upload a name content content_type ≠ .ok "" ∧
    validate_upload b name content content_type ≠ .ok ""

/-- The settings accept some upload with this extension and MIME type. -/
def Accepts (settings : UploadSettings) (extension content_type : String) : Prop :=
  0 < settings.max_size_mb ∧ IsExtension extension ∧ extension ∈ settings.allowed_extensions ∧
    content_type ∈ settings.allowed_mime_types

/-- A size limit above zero has room for one byte. -/
theorem room_for_content {settings : UploadSettings} :
    (∃ content : Bytes, content ≠ [] ∧ content.length ≤ settings.max_size_bytes) ↔
      0 < settings.max_size_mb := by
  unfold UploadSettings.max_size_bytes
  constructor
  · rintro ⟨content, hne, hsize⟩
    have hlength : 0 < content.length := List.length_pos_iff.mpr hne
    omega
  · intro hmax
    refine ⟨[0], List.cons_ne_nil _ _, ?_⟩
    rw [List.length_singleton]
    omega

/-- Settings of one size limit have the same policy when they accept the same
extensions with the same MIME types, and not the empty one. -/
theorem samePolicy_iff {a b : UploadSettings} (hmax : a.max_size_mb = b.max_size_mb) :
    SamePolicy a b ↔
      (∀ extension content_type, Accepts a extension content_type ↔
        Accepts b extension content_type) ∧
      ∀ content_type, ¬ Accepts a "" content_type ∧ ¬ Accepts b "" content_type := by
  have hbytes : a.max_size_bytes = b.max_size_bytes := by
    unfold UploadSettings.max_size_bytes
    rw [hmax]
  have haccepts : ∀ settings extension content_type, Accepts settings extension content_type ↔
      ∃ name content, validate_upload settings name content content_type = .ok extension := by
    intro settings extension content_type
    simp only [validate_upload_ok]
    constructor
    · rintro ⟨hroom, ⟨name, hname⟩, hallowed⟩
      obtain ⟨content, hcontent⟩ := room_for_content.mpr hroom
      exact ⟨name, content, hcontent, hname, hallowed⟩
    · rintro ⟨name, content, hcontent, hname, hallowed⟩
      exact ⟨room_for_content.mp ⟨content, hcontent⟩, ⟨name, hname⟩, hallowed⟩
  unfold SamePolicy
  constructor
  · rintro ⟨hsame, hempty⟩
    refine ⟨?_, ?_⟩
    · intro extension content_type
      rw [haccepts, haccepts]
      simp only [hsame]
    · intro content_type
      rw [haccepts, haccepts]
      exact ⟨fun ⟨name, content, h⟩ => (hempty name content content_type).1 h,
        fun ⟨name, content, h⟩ => (hempty name content content_type).2 h⟩
  · rintro ⟨hsame, hempty⟩
    refine ⟨?_, ?_⟩
    · intro name content content_type extension
      have hsame' := hsame extension content_type
      rw [validate_upload_ok, validate_upload_ok, hbytes]
      unfold Accepts at hsame'
      rw [hmax] at hsame'
      constructor
      · rintro ⟨hcontent, hname, hallowed⟩
        have hroom := room_for_content.mp ⟨content, hcontent⟩
        exact ⟨hcontent, hname, (hsame'.mp ⟨hroom, ⟨name, hname⟩, hallowed⟩).2.2⟩
      · rintro ⟨hcontent, hname, hallowed⟩
        have hroom := room_for_content.mp ⟨content, hcontent⟩
        exact ⟨hcontent, hname, (hsame'.mpr ⟨hroom, ⟨name, hname⟩, hallowed⟩).2.2⟩
    · intro name content content_type
      exact ⟨fun h => (hempty content_type).1 ((haccepts _ _ _).mpr ⟨name, content, h⟩),
        fun h => (hempty content_type).2 ((haccepts _ _ _).mpr ⟨name, content, h⟩)⟩

/-! ## The extensions that a file can have -/

theorem dot_not_mem_of_isExtension {extension : String} (h : IsExtension extension) :
    '.' ∉ extension.toList := by
  obtain ⟨name, _, rfl⟩ := h
  rw [String.toList_ofList, mem_lower rfl]
  exact dot_not_mem_after_last_dot _

/-- A list without a dot is what stands after the last dot when one dot is put
before it. -/
theorem after_last_dot_cons {cs : List Char} (h : '.' ∉ cs) : after_last_dot ('.' :: cs) = cs := by
  have hkeep : ∀ c ∈ cs.reverse, decide (c ≠ '.') = true := by
    intro c hc
    rw [decide_eq_true_eq]
    rintro rfl
    exact h (List.mem_reverse.mp hc)
  unfold after_last_dot
  rw [List.reverse_cons, List.takeWhile_append_of_pos hkeep]
  simp

/-- An allowed extension without a dot is one that a file can have. -/
theorem isExtension_normalized {item : String} (h : '.' ∉ (normalized_extension item).toList) :
    IsExtension (normalized_extension item) := by
  have hdot : '.' ∉ item.toList.dropWhile (fun c => c = '.') := by
    rw [normalized_extension, String.toList_ofList, mem_lower rfl] at h
    exact h
  refine ⟨String.ofList ('.' :: item.toList.dropWhile (fun c => c = '.')), ?_, ?_⟩
  · rw [String.toList_ofList]
    exact List.mem_cons_self
  · rw [String.toList_ofList, after_last_dot_cons hdot]
    rfl

theorem read_allowed_extensions_normalized {value : Option Json} {allowed : List String}
    (h : UploadSettings.read_allowed_extensions value = some allowed) :
    ∀ extension ∈ allowed, ∃ item, normalized_extension item = extension := by
  rcases value with _ | value
  · obtain rfl := Option.some.inj h
    intro extension hextension
    obtain rfl := List.mem_singleton.mp hextension
    exact ⟨"pdf", by decide +kernel⟩
  · obtain ⟨items, _, rfl⟩ := Option.map_eq_some_iff.mp h
    intro extension hextension
    obtain ⟨item, _, rfl⟩ := List.mem_map.mp hextension
    exact ⟨item, rfl⟩

/-! ## One policy -/

/-- Trimmed and as they are, the items name the same extensions that a file can
have, and none of them is empty. -/
structure SameNames (items : List String) : Prop where
  kept : ∀ item ∈ items, '.' ∉ (normalized_extension item).toList →
    ∃ other ∈ trimmed_items items, normalized_extension other = normalized_extension item
  added : ∀ item ∈ trimmed_items items, '.' ∉ (normalized_extension item).toList →
    ∃ other ∈ items, normalized_extension other = normalized_extension item
  named : ∀ item ∈ items ++ trimmed_items items, normalized_extension item ≠ ""

theorem sameNames_iff {items : List String} :
    SameNames items ↔
      (∀ extension, IsExtension extension →
        (extension ∈ (trimmed_items items).map normalized_extension ↔
          extension ∈ items.map normalized_extension)) ∧
      "" ∉ (trimmed_items items).map normalized_extension ∧
      "" ∉ items.map normalized_extension := by
  simp only [List.mem_map]
  constructor
  · intro h
    refine ⟨?_, ?_, ?_⟩
    · intro extension hextension
      have hdot := dot_not_mem_of_isExtension hextension
      constructor
      · rintro ⟨item, hitem, rfl⟩
        exact h.added item hitem hdot
      · rintro ⟨item, hitem, rfl⟩
        exact h.kept item hitem hdot
    · rintro ⟨item, hitem, hname⟩
      exact h.named item (List.mem_append_right _ hitem) hname
    · rintro ⟨item, hitem, hname⟩
      exact h.named item (List.mem_append_left _ hitem) hname
  · rintro ⟨hsame, htrimmed, hblank⟩
    refine ⟨?_, ?_, ?_⟩
    · intro item hitem hdot
      exact (hsame _ (isExtension_normalized hdot)).mpr ⟨item, hitem, rfl⟩
    · intro item hitem hdot
      exact (hsame _ (isExtension_normalized hdot)).mp ⟨item, hitem, rfl⟩
    · intro item hitem hname
      rcases List.mem_append.mp hitem with hitem | hitem
      · exact hblank ⟨item, hitem, hname⟩
      · exact htrimmed ⟨item, hitem, hname⟩

/-- The name `.` has the empty extension. -/
theorem isExtension_empty : IsExtension "" := ⟨".", by decide, by decide⟩

/-- Settings that differ in their extensions only have one policy when no upload
can pass, or when the extensions of a file among them are the same. -/
theorem samePolicy_extensions {a b : UploadSettings} {items : List String}
    (hmax : a.max_size_mb = b.max_size_mb) (htypes : a.allowed_mime_types = b.allowed_mime_types)
    (ha : a.allowed_extensions = (trimmed_items items).map normalized_extension)
    (hb : b.allowed_extensions = items.map normalized_extension) :
    SamePolicy a b ↔ a.max_size_mb ≤ 0 ∨ a.allowed_mime_types = [] ∨ SameNames items := by
  rw [samePolicy_iff hmax, sameNames_iff]
  unfold Accepts
  rw [← hmax, ← htypes, ha, hb]
  constructor
  · rintro ⟨hsame, hempty⟩
    by_cases hroom : a.max_size_mb ≤ 0
    · exact Or.inl hroom
    · rcases hnone : a.allowed_mime_types with _ | ⟨content_type, types⟩
      · exact Or.inr (Or.inl rfl)
      · rw [hnone] at hsame hempty
        have hroom' : 0 < a.max_size_mb := by omega
        have htype : content_type ∈ content_type :: types := List.mem_cons_self
        have hblank := hempty content_type
        simp only [hroom', htype, isExtension_empty, true_and, and_true] at hblank
        refine Or.inr (Or.inr ⟨?_, hblank⟩)
        intro extension hextension
        have hnames := hsame extension content_type
        simp only [hroom', htype, hextension, true_and, and_true] at hnames
        exact hnames
  · rintro (hroom | hnone | ⟨hnames, hblank⟩)
    · have hroom' : ¬ 0 < a.max_size_mb := by omega
      simp [hroom']
    · simp [hnone]
    · refine ⟨?_, ?_⟩
      · intro extension content_type
        constructor
        · rintro ⟨hroom, hextension, hallowed, htype⟩
          exact ⟨hroom, hextension, (hnames _ hextension).mp hallowed, htype⟩
        · rintro ⟨hroom, hextension, hallowed, htype⟩
          exact ⟨hroom, hextension, (hnames _ hextension).mpr hallowed, htype⟩
      · intro content_type
        exact ⟨fun h => hblank.1 h.2.2.1, fun h => hblank.2 h.2.2.1⟩

/-- The items are the same trimmed exactly when each is trimmed and not empty. -/
theorem mem_trimmed_items_iff (items : List String) :
    (∀ item, item ∈ trimmed_items items ↔ item ∈ items) ↔
      ∀ item ∈ items, item ≠ "" ∧ strip item = item := by
  constructor
  · intro h item hitem
    obtain ⟨hne, other, _, rfl⟩ := mem_trimmed_items.mp ((h item).mpr hitem)
    exact ⟨hne, KnowledgeMetadata.strip_of_trimmed (KnowledgeMetadata.strip_trimmed other)⟩
  · intro h item
    rw [mem_trimmed_items]
    constructor
    · rintro ⟨_, other, hother, rfl⟩
      rw [(h other hother).2]
      exact hother
    · intro hitem
      exact ⟨(h item hitem).1, item, hitem, (h item hitem).2⟩

/-- Settings that differ in their MIME types only have one policy when no upload
can pass, or when trimming changes none of the types. -/
theorem samePolicy_mime_types {a b : UploadSettings} {items : List String}
    (hmax : a.max_size_mb = b.max_size_mb) (hallowed : a.allowed_extensions = b.allowed_extensions)
    (hnormal : ∀ extension ∈ a.allowed_extensions, ∃ item, normalized_extension item = extension)
    (ha : a.allowed_mime_types = trimmed_items items) (hb : b.allowed_mime_types = items) :
    SamePolicy a b ↔ a.max_size_mb ≤ 0 ∨
      (∀ extension ∈ a.allowed_extensions, '.' ∈ extension.toList) ∨ items = [] ∨
      ("" ∉ a.allowed_extensions ∧ ∀ item ∈ items, item ≠ "" ∧ strip item = item) := by
  rw [samePolicy_iff hmax, ← mem_trimmed_items_iff]
  unfold Accepts
  rw [← hmax, ← hallowed, ha, hb]
  constructor
  · rintro ⟨hsame, hempty⟩
    by_cases hroom : a.max_size_mb ≤ 0
    · exact Or.inl hroom
    · by_cases hdots : ∀ extension ∈ a.allowed_extensions, '.' ∈ extension.toList
      · exact Or.inr (Or.inl hdots)
      · push Not at hdots
        obtain ⟨extension, hextension, hdot⟩ := hdots
        have hroom' : 0 < a.max_size_mb := by omega
        obtain ⟨item, rfl⟩ := hnormal extension hextension
        have hname := isExtension_normalized hdot
        have htypes := hsame (normalized_extension item)
        simp only [hroom', hname, hextension, true_and] at htypes
        rcases items with _ | ⟨content_type, items⟩
        · exact Or.inr (Or.inr (Or.inl rfl))
        · refine Or.inr (Or.inr (Or.inr ⟨?_, htypes⟩))
          intro hblank
          exact (hempty content_type).2 ⟨hroom', isExtension_empty, hblank, List.mem_cons_self⟩
  · rintro (hroom | hdots | rfl | ⟨hblank, htypes⟩)
    · have hroom' : ¬ 0 < a.max_size_mb := by omega
      simp [hroom']
    · have hnone : ∀ extension, ¬ (IsExtension extension ∧ extension ∈ a.allowed_extensions) :=
        fun extension h => dot_not_mem_of_isExtension h.1 (hdots extension h.2)
      refine ⟨?_, ?_⟩
      · intro extension content_type
        exact ⟨fun h => absurd ⟨h.2.1, h.2.2.1⟩ (hnone extension),
          fun h => absurd ⟨h.2.1, h.2.2.1⟩ (hnone extension)⟩
      · intro content_type
        exact ⟨fun h => hnone "" ⟨h.2.1, h.2.2.1⟩, fun h => hnone "" ⟨h.2.1, h.2.2.1⟩⟩
    · simp [trimmed_items]
    · simp [htypes, hblank]

theorem load_eq (max_size_mb : Int) {extensions types : Option Json}
    {allowed allowed' : List String}
    (hextensions : UploadSettings.read_allowed_extensions extensions = some allowed)
    (htypes : UploadSettings.read_allowed_mime_types types = some allowed') :
    UploadSettings.load max_size_mb extensions types =
      some { max_size_mb, allowed_extensions := allowed, allowed_mime_types := allowed' } := by
  unfold UploadSettings.load
  rw [hextensions, htypes]
  rfl

theorem read_extensions_of_items {value : Json} {items : List String}
    (h : parse_str_list value = some (.array (items.map .text))) :
    UploadSettings.read_allowed_extensions (some value) =
      some (items.map normalized_extension) := by
  unfold UploadSettings.read_allowed_extensions UploadSettings._parse_lists
  simp only [h, Option.bind_some, KnowledgeMetadata.read_list_strings, Option.map_some]
  rfl

theorem read_mime_types_of_items {value : Json} {items : List String}
    (h : parse_str_list value = some (.array (items.map .text))) :
    UploadSettings.read_allowed_mime_types (some value) = some items := by
  unfold UploadSettings.read_allowed_mime_types UploadSettings._parse_lists
  simp only [h, Option.bind_some, KnowledgeMetadata.read_list_strings]

/-- A list of texts as text with commas and as a JSON array: both give settings,
and one policy exactly when trimming changes nothing that an upload can have. -/
theorem two_forms_of_a_list {items : List String} {json : String}
    (hcommas : ∀ item ∈ items, ',' ∉ item.toList)
    (hbracket : starts_with_bracket (strip (String.intercalate "," items)) = false)
    (hjson : loads (strip json) = some (.array (items.map .text))) (max_size_mb : Int) :
    (∀ mime_types types, UploadSettings.read_allowed_mime_types mime_types = some types →
      ∃ a b, UploadSettings.load max_size_mb (some (.text (String.intercalate "," items)))
          mime_types = some a ∧
        UploadSettings.load max_size_mb (some (.text json)) mime_types = some b ∧
        (SamePolicy a b ↔ max_size_mb ≤ 0 ∨ types = [] ∨ SameNames items)) ∧
    (∀ extensions allowed, UploadSettings.read_allowed_extensions extensions = some allowed →
      ∃ a b, UploadSettings.load max_size_mb extensions
          (some (.text (String.intercalate "," items))) = some a ∧
        UploadSettings.load max_size_mb extensions (some (.text json)) = some b ∧
        (SamePolicy a b ↔ max_size_mb ≤ 0 ∨ (∀ extension ∈ allowed, '.' ∈ extension.toList) ∨
          items = [] ∨ ("" ∉ allowed ∧ ∀ item ∈ items, item ≠ "" ∧ strip item = item))) := by
  have htext := parse_text_with_commas hcommas hbracket
  have harray := parse_json_array hjson
  refine ⟨?_, ?_⟩
  · intro mime_types types htypes
    exact ⟨_, _, load_eq _ (read_extensions_of_items htext) htypes,
      load_eq _ (read_extensions_of_items harray) htypes, samePolicy_extensions rfl rfl rfl rfl⟩
  · intro extensions allowed hallowed
    exact ⟨_, _, load_eq _ hallowed (read_mime_types_of_items htext),
      load_eq _ hallowed (read_mime_types_of_items harray),
      samePolicy_mime_types rfl rfl (read_allowed_extensions_normalized hallowed) rfl rfl⟩

theorem two_forms_of_a_clean_list :
    ∃ a b, UploadSettings.load 50 (some (.text "pdf,.TXT")) none = some a ∧
      UploadSettings.load 50 (some (.text "[\"pdf\",\".TXT\"]")) none = some b ∧
      SamePolicy a b := by
  have hjson : "[\"pdf\",\".TXT\"]" = dumps ["pdf", ".TXT"] := by decide
  have htext : "pdf,.TXT" = String.intercalate "," ["pdf", ".TXT"] := by decide
  have hcommas : ∀ item ∈ ["pdf", ".TXT"], ',' ∉ item.toList := by decide
  obtain ⟨a, b, ha, hb, hiff⟩ := (two_forms_of_a_list hcommas (by decide +kernel)
    (loads_strip_dumps _) 50).1 none ["application/pdf"] rfl
  rw [hjson, htext]
  refine ⟨a, b, ha, hb, hiff.mpr (Or.inr (Or.inr ?_))⟩
  have htrimmed : trimmed_items ["pdf", ".TXT"] = ["pdf", ".TXT"] := by decide +kernel
  refine ⟨?_, ?_, ?_⟩
  · intro item hitem _
    rw [htrimmed]
    exact ⟨item, hitem, rfl⟩
  · intro item hitem _
    rw [htrimmed] at hitem
    exact ⟨item, hitem, rfl⟩
  · rw [htrimmed]
    decide +kernel

/-- The JSON array of " pdf" accepts no file of the extension pdf, which the text
with commas accepts. The JSON array of an empty text accepts an empty extension. -/
theorem blanks_of_a_json_array_stay :
    (∃ a b, UploadSettings.load 50 (some (.text " pdf")) none = some a ∧
      UploadSettings.load 50 (some (.text "[\" pdf\"]")) none = some b ∧
      validate_upload a "report.pdf" [37] "application/pdf" = .ok "pdf" ∧ ¬ SamePolicy a b) ∧
    ∃ b, UploadSettings.load 50 (some (.text "[\"\"]")) none = some b ∧
      validate_upload b "report." [37] "application/pdf" = .ok "" := by
  have hblank : "[\" pdf\"]" = dumps [" pdf"] := by decide
  have hempty : "[\"\"]" = dumps [""] := by decide
  have harray := fun items => load_eq 50
    (read_extensions_of_items (parse_json_array (loads_strip_dumps items)))
    (rfl : UploadSettings.read_allowed_mime_types none = _)
  rw [hblank, hempty]
  have htext : parse_str_list (.text " pdf") = some (.array (["pdf"].map .text)) := rfl
  refine ⟨⟨_, _, load_eq 50 (read_extensions_of_items htext) rfl, harray [" pdf"],
    by decide +kernel, ?_⟩, _, harray [""], by decide +kernel⟩
  intro hsame
  have haccepted := (hsame.1 "report.pdf" [37] "application/pdf" "pdf").mp (by decide +kernel)
  exact absurd haccepted (by decide +kernel)

end upload_policy

end cortex_rag
