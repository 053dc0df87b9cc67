-- The typed metadata of a document: how `KnowledgeMetadata` reads a JSON value.
-- A value that it refuses gives no metadata.
import CortexRag.Domain
import CortexRag.Json
import CortexRag.RelatedLists
import Mathlib.Data.Set.List

open keyed_rows json_values related_lists

namespace cortex_rag

/-! ## Text -/

/-- `c.isspace()`. -/
def isspace (c : Char) : Bool :=
  let n := c.toNat
  decide ((9 ≤ n ∧ n ≤ 13) ∨ (28 ≤ n ∧ n ≤ 32) ∨ n = 0x85 ∨ n = 0xA0 ∨ n = 0x1680 ∨
    (0x2000 ≤ n ∧ n ≤ 0x200A) ∨ n = 0x2028 ∨ n = 0x2029 ∨ n = 0x202F ∨ n = 0x205F ∨ n = 0x3000)

/-- `s.strip()`. -/
def strip (s : String) : String :=
  String.ofList ((s.toList.dropWhile isspace).reverse.dropWhile isspace).reverse

/-- `s.lower()`. -/
def lowered (s : String) : String := String.ofList (lower s.toList)

/-! ## Fields -/

def ALLOWED_LANGUAGES : List String :=
  ["es", "en", "pt", "fr", "de", "it", "nl", "ca", "gl", "eu", "ru", "zh", "ja", "ko", "ar", "hi",
    "tr", "pl", "sv", "no", "da", "fi", "cs", "el", "he", "uk", "ro", "hu"]

/-- `SecurityLevel(value)`. -/
def SecurityLevel.of_value : String → Option SecurityLevel
  | "public" => some .Public
  | "internal" => some .Internal
  | "confidential" => some .Confidential
  | "restricted" => some .Restricted
  | "secret" => some .Secret
  | _ => none

/-- `security_level.value`. -/
def SecurityLevel.value : SecurityLevel → String
  | .Public => "public"
  | .Internal => "internal"
  | .Confidential => "confidential"
  | .Restricted => "restricted"
  | .Secret => "secret"

namespace KnowledgeMetadata

/-- A field of type `str`, which has characters only. -/
def read_str : Json → Option String
  | .string t => t.string?
  | _ => none

/-- A field that may be `None`. -/
def read_optional {α : Type} (read : Json → Option α) : Json → Option (Option α)
  | .null => some none
  | value => (read value).map some

/-- A field of type `list[str]`. -/
def read_list : Json → Option (List String)
  | .array items => items.mapM read_str
  | _ => none

/-- An entry of type `str` with a name of type `str`. -/
def read_property (field : Text × Json) : Option (String × String) := do
  return (← field.1.string?, ← read_str field.2)

/-- A field of type `dict[str, str]`. -/
def read_dict : Json → Option (List (String × String))
  | .object fields => (merged fields).mapM read_property
  | _ => none

/-- `_validate_language`. -/
def validate_language (value : String) : Option String :=
  let code := lowered (strip value)
  if code ∈ ALLOWED_LANGUAGES then some code else none

/-- `_validate_tags`. -/
def validate_tags (tags : List String) : Option (List String) :=
  let cleaned := (tags.map strip).filter (fun tag => tag ≠ "")
  if (cleaned.map lowered).Nodup then some cleaned else none

/-- `_validate_keywords`. -/
def validate_keywords (keywords : List String) : Option (List String) :=
  if keywords.any (fun keyword => strip keyword = "") then none else some (keywords.map strip)

/-- The names of the fields. A value with any other is refused. -/
def field_names : List Text :=
  ["language", "author", "organization", "department", "category", "tags", "keywords",
    "security_level", "retention_policy", "created_by_application", "document_created_at",
    "document_modified_at", "custom_properties"]

/-- A field of the model: the value of its name, or its default. -/
def read_field {α : Type} (fields : List (Text × Json)) (name : Text)
    (read : Json → Option α) (default : α) : Option α :=
  ((fields.lookup name).map read).getD (some default)

/-- `KnowledgeMetadata.model_validate`. `read_datetime` is what the model makes of
a value in a `datetime` field. -/
def model_validate (read_datetime : Json → Option DateTime) :
    Json → Option KnowledgeMetadata
  | .object fields =>
    let field {α : Type} := @read_field α (merged fields)
    if (merged fields).all (fun f => f.1 ∈ field_names) then do
      return {
        language := ← field "language"
          (read_optional (fun v => (read_str v).bind validate_language)) none
        author := ← field "author" (read_optional read_str) none
        organization := ← field "organization" (read_optional read_str) none
        department := ← field "department" (read_optional read_str) none
        category := ← field "category" (read_optional read_str) none
        tags := ← field "tags" (fun v => (read_list v).bind validate_tags) []
        keywords := ← field "keywords" (fun v => (read_list v).bind validate_keywords) []
        security_level := ← field "security_level"
          (read_optional (fun v => (read_str v).bind SecurityLevel.of_value)) none
        retention_policy := ← field "retention_policy" (read_optional read_str) none
        created_by_application := ← field "created_by_application" (read_optional read_str) none
        document_created_at := ← field "document_created_at" (read_optional read_datetime) none
        document_modified_at := ← field "document_modified_at" (read_optional read_datetime) none
        custom_properties := ← field "custom_properties" read_dict [] }
    else none
  | _ => none

/-! ## The JSON of the model -/

/-- The JSON of a field that may be `None`. -/
def optional_json {α : Type} (json : α → Json) : Option α → Json
  | none => .null
  | some a => json a

/-- The fields of `model_dump(mode="json")`. -/
def dumped_fields (dump_datetime : DateTime → Json) (m : KnowledgeMetadata) :
    List (Text × Json) := [
  ("language", optional_json .text m.language),
  ("author", optional_json .text m.author),
  ("organization", optional_json .text m.organization),
  ("department", optional_json .text m.department),
  ("category", optional_json .text m.category),
  ("tags", .array (m.tags.map .text)),
  ("keywords", .array (m.keywords.map .text)),
  ("security_level", optional_json (fun level => .text level.value) m.security_level),
  ("retention_policy", optional_json .text m.retention_policy),
  ("created_by_application", optional_json .text m.created_by_application),
  ("document_created_at", optional_json dump_datetime m.document_created_at),
  ("document_modified_at", optional_json dump_datetime m.document_modified_at),
  ("custom_properties", .object (m.custom_properties.map text_field))]

/-- `KnowledgeMetadata.model_dump(mode="json")`. -/
def model_dump (dump_datetime : DateTime → Json) (m : KnowledgeMetadata) : Json :=
  .object (dumped_fields dump_datetime m)

/-! ## What the reader accepts -/

theorem read_str_eq {value : Json} {s : String} :
    read_str value = some s ↔ value = .text s := by
  cases value <;> simp [read_str, Json.text, Text.string?_eq]

theorem read_property_eq {field : Text × Json} {property : String × String} :
    read_property field = some property ↔ field = text_field property := by
  obtain ⟨name, value⟩ := field
  obtain ⟨name', value'⟩ := property
  simp only [read_property, Option.bind_eq_bind, Option.bind_eq_some_iff, Text.string?_eq,
    read_str_eq, text_field, Prod.mk.injEq]
  constructor
  · rintro ⟨_, rfl, _, rfl, hsame⟩
    cases hsame
    exact ⟨rfl, rfl⟩
  · rintro ⟨rfl, rfl⟩
    exact ⟨_, rfl, _, rfl, rfl⟩

/-- A map of texts is read as it is, and nothing else is read as one. -/
theorem read_dict_merged {fields : List (Text × Json)} {properties : List (String × String)} :
    read_dict (.object fields) = some properties ↔ merged fields = properties.map text_field := by
  rw [read_dict, mapM_eq_some, ← List.forall₂_eq_eq_eq, List.forall₂_map_right_iff]
  simp only [read_property_eq]

theorem read_dict_eq {fields : List (Text × Json)} (h : Keyed Prod.fst fields)
    {properties : List (String × String)} :
    read_dict (.object fields) = some properties ↔ fields = properties.map text_field := by
  rw [read_dict_merged, merged_eq h]

/-- What is read as custom properties from the binary form of an object are the
fields of the object, which were texts. -/
theorem texts_of_read {numeric : String → Option String} {o : JsonObject} {value : Json}
    {properties : List (String × String)}
    (h : to_jsonb numeric (.object o.fields) = some value)
    (hread : read_dict value = some properties) :
    (∀ field ∈ o.fields, is_text field) ∧ (properties.map text_field).Perm o.fields := by
  obtain ⟨out, hout, rfl⟩ := object_to_jsonb.mp h
  have hkeyed : Keyed Prod.fst (sorted out) :=
    ((sorted_perm out).map Prod.fst).nodup_iff.mpr (keyed_of_jsonb hout o.distinct)
  have hproperties := (read_dict_eq hkeyed).mp hread
  obtain ⟨rfl, htexts⟩ := texts_of_jsonb hout (by
    intro field hfield
    have hmem := (sorted_perm out).mem_iff.mpr hfield
    rw [hproperties] at hmem
    obtain ⟨property, _, rfl⟩ := List.mem_map.mp hmem
    exact ⟨.plain property.2, rfl⟩)
  refine ⟨htexts, ?_⟩
  rw [← hproperties]
  exact sorted_perm _

/-- An object of texts is read as custom properties. -/
theorem read_of_texts (numeric : String → Option String) {o : JsonObject}
    (h : ∀ field ∈ o.fields, is_text field) :
    ∃ properties, to_jsonb numeric (.object o.fields) = some (.object (sorted o.fields)) ∧
      read_dict (.object (sorted o.fields)) = some properties := by
  have hkeyed : Keyed Prod.fst (sorted o.fields) :=
    ((sorted_perm o.fields).map Prod.fst).nodup_iff.mpr o.distinct
  have hcast : to_jsonb numeric (.object o.fields) = some (.object (sorted o.fields)) :=
    object_to_jsonb.mpr ⟨o.fields, jsonb_of_texts h, rfl⟩
  have hstrings : sorted o.fields ∈ Set.range (List.map text_field) := by
    rw [Set.range_list_map]
    intro field hfield
    obtain ⟨hname, t, ht, hclean⟩ := h field ((sorted_perm o.fields).mem_iff.mp hfield)
    obtain ⟨name, hname⟩ := plain_of_accepted hname
    obtain ⟨s, rfl⟩ := plain_of_accepted hclean
    exact ⟨(name, s), Prod.ext hname.symm ht.symm⟩
  obtain ⟨properties, hproperties⟩ := hstrings
  exact ⟨properties, hcast, (read_dict_eq hkeyed).mpr hproperties.symm⟩

end KnowledgeMetadata

end cortex_rag
