-- The laws of the typed metadata: what the validators leave is normalised, and
-- they leave it as it is when they see it again.
import CortexRag.Metadata
import CortexRag.RelatedLists
import CortexRag.TrimmedLists

open keyed_rows json_values related_lists trimmed_lists

namespace cortex_rag.KnowledgeMetadata

/-! ## Trimmed text -/

/-- Text without blanks at its ends. -/
def IsTrimmed (s : String) : Prop := Trimmed isspace s.toList

theorem strip_trimmed (s : String) : IsTrimmed (strip s) := by
  unfold IsTrimmed strip
  rw [String.toList_ofList]
  exact trimmed_trim s.toList

theorem strip_of_trimmed {s : String} (h : IsTrimmed s) : strip s = s := by
  have htrim : trim isspace s.toList = s.toList := trim_of_trimmed h
  have hstrip : strip s = String.ofList (trim isspace s.toList) := rfl
  rw [hstrip, htrim, String.ofList_toList]

/-! ## The validators on their own values -/

/-- What the validators make of a value. -/
structure Normalised (m : KnowledgeMetadata) : Prop where
  tags : ∀ tag ∈ m.tags, IsTrimmed tag ∧ tag ≠ ""
  distinct : m.tags.Pairwise (fun a b => lowered a ≠ lowered b)
  keywords : ∀ keyword ∈ m.keywords, IsTrimmed keyword ∧ keyword ≠ ""
  language : ∀ code, m.language = some code → code ∈ ALLOWED_LANGUAGES ∧ lowered code = code

theorem validate_language_some {value code : String} (h : validate_language value = some code) :
    code ∈ ALLOWED_LANGUAGES := by
  unfold validate_language at h
  obtain ⟨hcode, hvalue⟩ := Option.ite_none_right_eq_some.mp h
  rw [← Option.some.inj hvalue]
  exact hcode

/-- Each code is its own normal form. -/
theorem validate_language_code {code : String} (h : code ∈ ALLOWED_LANGUAGES) :
    lowered code = code ∧ validate_language code = some code := by
  have hcodes : ∀ code ∈ ALLOWED_LANGUAGES, lowered code = code ∧ strip code = code := by
    decide +kernel
  obtain ⟨hlowered, hstrip⟩ := hcodes code h
  unfold validate_language
  rw [hstrip, hlowered]
  exact ⟨rfl, if_pos h⟩

theorem validate_tags_some {tags cleaned : List String} (h : validate_tags tags = some cleaned) :
    (∀ tag ∈ cleaned, IsTrimmed tag ∧ tag ≠ "") ∧
      cleaned.Pairwise (fun a b => lowered a ≠ lowered b) := by
  unfold validate_tags at h
  obtain ⟨hdistinct, hcleaned⟩ := Option.ite_none_right_eq_some.mp h
  obtain rfl := Option.some.inj hcleaned
  refine ⟨?_, List.pairwise_map.mp hdistinct⟩
  intro tag htag
  obtain ⟨hmem, hne⟩ := List.mem_filter.mp htag
  obtain ⟨s, _, rfl⟩ := List.mem_map.mp hmem
  exact ⟨strip_trimmed s, by simpa using hne⟩

theorem validate_tags_cleaned {tags : List String} (h : ∀ tag ∈ tags, IsTrimmed tag ∧ tag ≠ "")
    (hdistinct : tags.Pairwise (fun a b => lowered a ≠ lowered b)) :
    validate_tags tags = some tags := by
  have hstrip : tags.map strip = tags := by
    rw [List.map_congr_left (fun tag htag => strip_of_trimmed (h tag htag).1), List.map_id']
  have hkept : tags.filter (fun tag => tag ≠ "") = tags :=
    List.filter_eq_self.mpr (fun tag htag => by simpa using (h tag htag).2)
  simp only [validate_tags]
  have hnodup : (tags.map lowered).Nodup := List.pairwise_map.mpr hdistinct
  rw [hstrip, hkept, if_pos hnodup]

theorem validate_keywords_some {keywords cleaned : List String}
    (h : validate_keywords keywords = some cleaned) :
    ∀ keyword ∈ cleaned, IsTrimmed keyword ∧ keyword ≠ "" := by
  unfold validate_keywords at h
  obtain ⟨hempty, hcleaned⟩ := Option.ite_none_left_eq_some.mp h
  obtain rfl := Option.some.inj hcleaned
  intro keyword hkeyword
  obtain ⟨s, hs, rfl⟩ := List.mem_map.mp hkeyword
  refine ⟨strip_trimmed s, ?_⟩
  intro hnone
  exact hempty (List.any_eq_true.mpr ⟨s, hs, by simpa using hnone⟩)

theorem validate_keywords_cleaned {keywords : List String}
    (h : ∀ keyword ∈ keywords, IsTrimmed keyword ∧ keyword ≠ "") :
    validate_keywords keywords = some keywords := by
  have hstrip : keywords.map strip = keywords := by
    rw [List.map_congr_left (fun k hk => strip_of_trimmed (h k hk).1), List.map_id']
  have hnone : ¬ keywords.any (fun keyword => strip keyword = "") = true := by
    intro hany
    obtain ⟨k, hk, hempty⟩ := List.any_eq_true.mp hany
    rw [decide_eq_true_eq, strip_of_trimmed (h k hk).1] at hempty
    exact (h k hk).2 hempty
  simp only [validate_keywords]
  rw [if_neg hnone, hstrip]

/-! ## The accepted values -/

/-- The names of custom properties are distinct. -/
theorem keyed_of_read_dict {value : Json} {properties : List (String × String)}
    (h : read_dict value = some properties) : Keyed Prod.fst properties := by
  cases value with
  | object fields =>
    have hkeyed := keyed_merged fields
    rw [read_dict_merged.mp h] at hkeyed
    exact keyed_texts.mp hkeyed
  | _ => cases h

/-- A field holds its default, or what was read for it. -/
theorem read_field_some {α : Type} {fields : List (Text × Json)} {name : Text}
    {read : Json → Option α} {default a : α} (h : read_field fields name read default = some a) :
    a = default ∨ ∃ value, read value = some a := by
  unfold read_field at h
  rcases hvalue : fields.lookup name with _ | value
  · rw [hvalue] at h
    exact Or.inl (Option.some.inj h).symm
  · rw [hvalue] at h
    exact Or.inr ⟨value, h⟩

theorem read_optional_some {α : Type} {read : Json → Option α} {value : Json} {x : Option α}
    (h : read_optional read value = some x) : x = none ∨ ∃ a, x = some a ∧ read value = some a := by
  unfold read_optional at h
  split at h
  · exact Or.inl (Option.some.inj h).symm
  · obtain ⟨a, ha, rfl⟩ := Option.map_eq_some_iff.mp h
    exact Or.inr ⟨a, rfl, ha⟩

/-- An accepted value is normalised, and its custom properties have distinct
names. -/
theorem normalised_of_validate {read_datetime : Json → Option DateTime} {input : Json}
    {m : KnowledgeMetadata} (h : model_validate read_datetime input = some m) :
    Normalised m ∧ Keyed Prod.fst m.custom_properties := by
  cases input with
  | object fields =>
    simp only [model_validate] at h
    split at h
    · obtain ⟨language, hlanguage, h⟩ := Option.bind_eq_some_iff.mp h
      obtain ⟨_, _, h⟩ := Option.bind_eq_some_iff.mp h
      obtain ⟨_, _, h⟩ := Option.bind_eq_some_iff.mp h
      obtain ⟨_, _, h⟩ := Option.bind_eq_some_iff.mp h
      obtain ⟨_, _, h⟩ := Option.bind_eq_some_iff.mp h
      obtain ⟨tags, htags, h⟩ := Option.bind_eq_some_iff.mp h
      obtain ⟨keywords, hkeywords, h⟩ := Option.bind_eq_some_iff.mp h
      obtain ⟨_, _, h⟩ := Option.bind_eq_some_iff.mp h
      obtain ⟨_, _, h⟩ := Option.bind_eq_some_iff.mp h
      obtain ⟨_, _, h⟩ := Option.bind_eq_some_iff.mp h
      obtain ⟨_, _, h⟩ := Option.bind_eq_some_iff.mp h
      obtain ⟨_, _, h⟩ := Option.bind_eq_some_iff.mp h
      obtain ⟨properties, hproperties, h⟩ := Option.bind_eq_some_iff.mp h
      obtain rfl := Option.some.inj h
      have hcleaned : (∀ tag ∈ tags, IsTrimmed tag ∧ tag ≠ "") ∧
          tags.Pairwise (fun a b => lowered a ≠ lowered b) := by
        rcases read_field_some htags with rfl | ⟨value, hread⟩
        · exact ⟨by simp, List.Pairwise.nil⟩
        · obtain ⟨items, _, hvalid⟩ := Option.bind_eq_some_iff.mp hread
          exact validate_tags_some hvalid
      refine ⟨⟨hcleaned.1, hcleaned.2, ?_, ?_⟩, ?_⟩
      · rcases read_field_some hkeywords with rfl | ⟨value, hread⟩
        · simp
        · obtain ⟨items, _, hvalid⟩ := Option.bind_eq_some_iff.mp hread
          exact validate_keywords_some hvalid
      · rintro code rfl
        rcases read_field_some hlanguage with hnone | ⟨value, hread⟩
        · cases hnone
        · obtain hnone | ⟨a, ha, hvalue⟩ := read_optional_some hread
          · cases hnone
          · obtain ⟨s, _, hvalid⟩ := Option.bind_eq_some_iff.mp hvalue
            have hallowed := validate_language_some (Option.some.inj ha ▸ hvalid)
            exact ⟨hallowed, (validate_language_code hallowed).1⟩
      · rcases read_field_some hproperties with rfl | ⟨value, hread⟩
        · exact List.nodup_nil
        · exact keyed_of_read_dict hread
    · cases h
  | _ => cases h

/-! ## The round trip -/

section RoundTrip

variable {read_datetime : Json → Option DateTime} {dump_datetime : DateTime → Json}

/-- The value has a JSON, and is read back from it. -/
def Encoded {α : Type} (read : Json → Option α) (json : α → Json) (a : α) : Prop :=
  json a ≠ .null ∧ read (json a) = some a

/-- What is read of the JSON of a field that may be `None`. -/
theorem read_optional_json {α : Type} {read : Json → Option α} {json : α → Json} {x : Option α}
    (h : ∀ a, x = some a → Encoded read json a) :
    read_optional read (optional_json json x) = some x := by
  rcases x with _ | a
  · rfl
  · obtain ⟨hnull, hread⟩ := h a rfl
    rw [optional_json, read_optional.eq_2 _ _ hnull, hread]
    rfl

theorem read_optional_str (x : Option String) :
    read_optional read_str (optional_json .text x) = some x :=
  read_optional_json (fun _ _ => ⟨by simp, rfl⟩)

theorem read_language {code : String} (h : code ∈ ALLOWED_LANGUAGES) :
    (read_str (.text code)).bind validate_language = some code := by
  rw [read_str_eq.mpr rfl, Option.bind_some]
  exact (validate_language_code h).2

theorem read_list_strings (items : List String) :
    read_list (.array (items.map .text)) = some items := by
  unfold read_list
  rw [mapM_eq_some, List.forall₂_map_left_iff, List.forall₂_same]
  exact fun _ _ => rfl

theorem security_level_of_value (level : SecurityLevel) :
    SecurityLevel.of_value level.value = some level := by
  cases level <;> rfl

theorem names_dumped (dump_datetime : DateTime → Json) (m : KnowledgeMetadata) :
    (dumped_fields dump_datetime m).map Prod.fst = field_names := rfl

theorem keyed_dumped (dump_datetime : DateTime → Json) (m : KnowledgeMetadata) :
    Keyed Prod.fst (dumped_fields dump_datetime m) := by
  unfold Keyed
  rw [names_dumped]
  decide

/-- The JSON of a normalised value is accepted and gives this value. -/
theorem model_validate_dump {m : KnowledgeMetadata} (h : Normalised m)
    (hkeyed : Keyed Prod.fst m.custom_properties)
    (hcreated : ∀ t, m.document_created_at = some t → Encoded read_datetime dump_datetime t)
    (hmodified : ∀ t, m.document_modified_at = some t → Encoded read_datetime dump_datetime t) :
    model_validate read_datetime (model_dump dump_datetime m) = some m := by
  have hnames : (dumped_fields dump_datetime m).all (fun f => f.1 ∈ field_names) = true := by
    rw [List.all_eq_true]
    intro field hfield
    rw [decide_eq_true_eq, ← names_dumped dump_datetime m]
    exact List.mem_map_of_mem hfield
  have hlanguage : read_optional (fun v => (read_str v).bind validate_language)
      (optional_json .text m.language) = some m.language :=
    read_optional_json (fun code hcode => ⟨by simp, read_language (h.language code hcode).1⟩)
  have htags : (read_list (.array (m.tags.map .text))).bind validate_tags = some m.tags := by
    rw [read_list_strings]
    exact validate_tags_cleaned h.tags h.distinct
  have hkeywords : (read_list (.array (m.keywords.map .text))).bind validate_keywords =
      some m.keywords := by
    rw [read_list_strings]
    exact validate_keywords_cleaned h.keywords
  have hlevel : read_optional (fun v => (read_str v).bind SecurityLevel.of_value)
      (optional_json (fun level => .text level.value) m.security_level) =
        some m.security_level :=
    read_optional_json (fun level _ => ⟨by simp, security_level_of_value level⟩)
  have hproperties : read_dict (.object (m.custom_properties.map text_field)) =
      some m.custom_properties := by
    have htexts : Keyed Prod.fst (m.custom_properties.map text_field) :=
      keyed_texts.mpr hkeyed
    exact (read_dict_eq htexts).mpr rfl
  simp only [model_dump, model_validate, merged_eq (keyed_dumped dump_datetime m), hnames,
    read_field]
  simp [dumped_fields, List.lookup_cons, hlanguage, htags, hkeywords, hlevel,
    read_optional_json hcreated, read_optional_json hmodified, hproperties, read_optional_str]

end RoundTrip

end cortex_rag.KnowledgeMetadata
