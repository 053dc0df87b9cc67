-- The two migrations of the document tables, from revision 098482a100da to
-- c3d9e1f42a76, and what they make of the rows. Here a row keeps the text and
-- the JSON of its columns. A base row may hold any; a legacy one is a base row
-- that the application wrote.
import CortexRag.StoredRows

open keyed_rows json_values related_lists

namespace cortex_rag.migrations

/-! ## The tables -/

/-- A row of `knowledge_documents` at revision 098482a100da, with any JSON as its
metadata and any text as its status. -/
structure BaseDocument where
  id : UUID
  tenant_id : String
  collection_id : Option UUID
  original_filename : String
  filename : String
  extension : String
  mime_type : String
  size : Int
  checksum_sha256 : String
  storage_provider : String
  storage_path : String
  uploaded_by : Option String
  status : String
  metadata : Json
  page_count : Option Int
  deleted_at : Option DateTime
  created_at : DateTime
  updated_at : DateTime

/-- A row whose metadata is a JSON object and whose status is the value of one. -/
structure LegacyDocument extends BaseDocument where
  properties : JsonObject
  is_object : metadata = .object properties.fields
  status_valid : ∃ s, DocumentStatus.of_value status = .ok s

/-- The documents at revision 098482a100da, with their primary key. -/
structure LegacyDatabase where
  documents : List LegacyDocument
  keyed : Keyed (fun d => d.id) documents

def LegacyDatabase.rows (db : LegacyDatabase) : List BaseDocument :=
  db.documents.map LegacyDocument.toBaseDocument

theorem LegacyDatabase.keyed_rows (db : LegacyDatabase) : Keyed BaseDocument.id db.rows :=
  (keyed_map _).mpr db.keyed

/-! ## The upgrades -/

/-- The error of a value that a column or a type of the database refuses. -/
def DataError : PyException := .Other "DataError"

namespace b7f2c9a4d1e8

/-- The version of a document, as `INSERT ... SELECT` makes it. -/
def version_row (gen_random_uuid : UUID → UUID) (d : BaseDocument) :
    KnowledgeDocumentVersionRow where
  id := gen_random_uuid d.id
  document_id := d.id
  version_number := 1
  original_filename := d.original_filename
  filename := d.filename
  extension := d.extension
  mime_type := d.mime_type
  size := d.size
  checksum_sha256 := d.checksum_sha256
  storage_provider := d.storage_provider
  storage_path := d.storage_path
  page_count := d.page_count
  metadata := d.metadata
  uploaded_by := d.uploaded_by
  created_at := d.created_at

/-- The row of a document after the `UPDATE ... FROM`. Without a version its title
would stay null, which the column then refuses. -/
def document_row (versions : List KnowledgeDocumentVersionRow) (d : BaseDocument) :
    Except PyException KnowledgeDocumentRow :=
  match versions.find? (fun v => v.document_id = d.id) with
  | none => .error IntegrityError
  | some v => .ok {
      id := d.id
      tenant_id := d.tenant_id
      knowledge_space_id := d.collection_id
      title := d.original_filename
      source_type := "file_upload"
      current_version_id := some v.id
      status := d.status
      metadata := d.metadata
      created_by := d.uploaded_by
      deleted_at := d.deleted_at
      created_at := d.created_at
      updated_at := d.updated_at }

/-- `gen_random_uuid` gives the version of each document its id. -/
def upgrade (gen_random_uuid : UUID → UUID) (documents : List BaseDocument) :
    Except PyException Tables := do
  let versions := documents.map (version_row gen_random_uuid)
  if (versions.map (fun v => v.id)).Nodup then do
    let documents ← documents.mapM (document_row versions)
    return { documents, versions }
  else .error IntegrityError

end b7f2c9a4d1e8

namespace c3d9e1f42a76

/-- The `CASE` over the extensions. -/
def SOURCE_TYPES : List (String × String) :=
  [("pdf", "pdf"), ("doc", "word"), ("docx", "word"), ("rtf", "word"), ("xls", "excel"),
    ("xlsx", "excel"), ("csv", "excel"), ("ppt", "powerpoint"), ("pptx", "powerpoint"),
    ("md", "markdown"), ("markdown", "markdown"), ("txt", "text"), ("html", "html"),
    ("htm", "html"), ("png", "image"), ("jpg", "image"), ("jpeg", "image"), ("gif", "image"),
    ("webp", "image"), ("tiff", "image"), ("eml", "email"), ("msg", "email")]

variable (lower : String → String) (numeric : String → Option String)

def source_type_of (extension : String) : String :=
  (SOURCE_TYPES.lookup (lower extension)).getD "text"

/-- The first `UPDATE`: the source type, by the extension of the active version. -/
def typed_source (versions : List KnowledgeDocumentVersionRow) (d : KnowledgeDocumentRow) :
    KnowledgeDocumentRow :=
  match versions.find? (fun v => some v.id = d.current_version_id) with
  | none => d
  | some v => { d with source_type := source_type_of lower v.extension }

/-- The second `UPDATE`. -/
def default_source (d : KnowledgeDocumentRow) : KnowledgeDocumentRow :=
  if d.source_type = "file_upload" then { d with source_type := "text" } else d

/-- The fields of `KnowledgeMetadata`. -/
def skeleton (custom_properties : Json) : List (Text × Json) := [
  ("language", .null),
  ("author", .null),
  ("organization", .null),
  ("department", .null),
  ("category", .null),
  ("tags", .array []),
  ("keywords", .array []),
  ("security_level", .null),
  ("retention_policy", .null),
  ("created_by_application", .null),
  ("document_created_at", .null),
  ("document_modified_at", .null),
  ("custom_properties", custom_properties)]

/-- `jsonb_build_object`. -/
def typed_metadata (custom_properties : Json) : Json :=
  .object (sorted (skeleton custom_properties))

/-- The third `UPDATE`: the old metadata becomes the custom properties. -/
def reshaped (d : KnowledgeDocumentRow) : Except PyException KnowledgeDocumentRow :=
  match to_jsonb numeric d.metadata with
  | none => .error DataError
  | some custom_properties => .ok { d with metadata := typed_metadata custom_properties }

/-- `lower` and `numeric` are those of the database. -/
def upgrade (t : Tables) : Except PyException Tables := do
  let documents := t.documents.map (typed_source lower t.versions)
  let documents := documents.map default_source
  let documents ← documents.mapM (reshaped numeric)
  return { t with documents }

end c3d9e1f42a76

/-- The two upgrades in a row. -/
def upgraded (gen_random_uuid : UUID → UUID) (lower : String → String)
    (numeric : String → Option String) (documents : List BaseDocument) :
    Except PyException Tables := do
  let t ← b7f2c9a4d1e8.upgrade gen_random_uuid documents
  c3d9e1f42a76.upgrade lower numeric t

/-! ## What the upgrades write -/

/-- The row that both upgrades make of a document, with the metadata in binary
form as its custom properties. -/
def migrated_row (gen_random_uuid : UUID → UUID) (lower : String → String) (d : BaseDocument)
    (custom_properties : Json) : KnowledgeDocumentRow where
  id := d.id
  tenant_id := d.tenant_id
  knowledge_space_id := d.collection_id
  title := d.original_filename
  source_type := c3d9e1f42a76.source_type_of lower d.extension
  current_version_id := some (gen_random_uuid d.id)
  status := d.status
  metadata := c3d9e1f42a76.typed_metadata custom_properties
  created_by := d.uploaded_by
  deleted_at := d.deleted_at
  created_at := d.created_at
  updated_at := d.updated_at

variable {gen_random_uuid : UUID → UUID} {lower : String → String}
  {numeric : String → Option String} {t : Tables}

/-- Every source type that the upgrade writes is one of the enum. -/
theorem source_type_valid (lower : String → String) (extension : String) :
    c3d9e1f42a76.source_type_of lower extension ≠ "file_upload" ∧
      ∃ s, SourceType.of_value (c3d9e1f42a76.source_type_of lower extension) = .ok s := by
  unfold c3d9e1f42a76.source_type_of
  rcases h : c3d9e1f42a76.SOURCE_TYPES.lookup (lower extension) with _ | source_type
  · exact ⟨by decide, .Text, rfl⟩
  · obtain ⟨before, after, hlist, _⟩ := List.lookup_eq_some_iff.mp h
    have hmem : (lower extension, source_type) ∈ c3d9e1f42a76.SOURCE_TYPES := by
      rw [hlist]
      simp
    have hvalid : ∀ p ∈ c3d9e1f42a76.SOURCE_TYPES, p.2 ≠ "file_upload" ∧
        (SourceType.of_value p.2).toOption.isSome = true := by
      decide
    obtain ⟨hne, hsome⟩ := hvalid _ hmem
    refine ⟨hne, ?_⟩
    rw [Option.getD_some]
    rcases hs : SourceType.of_value source_type with e | s
    · rw [hs] at hsome
      cases hsome
    · exact ⟨s, rfl⟩

/-- The row of a document between the upgrades. -/
def identity_row (gen_random_uuid : UUID → UUID) (d : BaseDocument) : KnowledgeDocumentRow where
  id := d.id
  tenant_id := d.tenant_id
  knowledge_space_id := d.collection_id
  title := d.original_filename
  source_type := "file_upload"
  current_version_id := some (gen_random_uuid d.id)
  status := d.status
  metadata := d.metadata
  created_by := d.uploaded_by
  deleted_at := d.deleted_at
  created_at := d.created_at
  updated_at := d.updated_at

variable {documents : List BaseDocument} {d : BaseDocument}

theorem keyed_versions (hk : Keyed BaseDocument.id documents) (gen_random_uuid : UUID → UUID) :
    Keyed KnowledgeDocumentVersionRow.document_id
      (documents.map (b7f2c9a4d1e8.version_row gen_random_uuid)) := (keyed_map _).mpr hk

theorem document_row_eq (hk : Keyed BaseDocument.id documents) (hd : d ∈ documents) :
    b7f2c9a4d1e8.document_row
      (documents.map (b7f2c9a4d1e8.version_row gen_random_uuid)) d =
      .ok (identity_row gen_random_uuid d) := by
  have hfind : (documents.map (b7f2c9a4d1e8.version_row gen_random_uuid)).find?
      (fun v => v.document_id = d.id) =
        some (b7f2c9a4d1e8.version_row gen_random_uuid d) :=
    find_of_mem _ (keyed_versions hk gen_random_uuid) (List.mem_map_of_mem hd)
  unfold b7f2c9a4d1e8.document_row
  rw [hfind]
  rfl

theorem keyed_version_ids (hnew : (documents.map (fun d => gen_random_uuid d.id)).Nodup) :
    Keyed KnowledgeDocumentVersionRow.id
      (documents.map (b7f2c9a4d1e8.version_row gen_random_uuid)) := (keyed_map _).mpr hnew

/-- The first upgrade gives each document its version, with the number 1. -/
theorem first_upgrade (hk : Keyed BaseDocument.id documents)
    (hnew : (documents.map (fun d => gen_random_uuid d.id)).Nodup) :
    b7f2c9a4d1e8.upgrade gen_random_uuid documents = .ok {
      documents := documents.map (identity_row gen_random_uuid)
      versions := documents.map (b7f2c9a4d1e8.version_row gen_random_uuid) } := by
  have hids : ((documents.map (b7f2c9a4d1e8.version_row gen_random_uuid)).map
      (fun v => v.id)).Nodup := keyed_version_ids hnew
  have hrows : documents.mapM (b7f2c9a4d1e8.document_row
      (documents.map (b7f2c9a4d1e8.version_row gen_random_uuid))) =
      .ok (documents.map (identity_row gen_random_uuid)) := by
    rw [mapM_eq_ok, List.forall₂_map_right_iff, List.forall₂_same]
    exact fun d hd => document_row_eq hk hd
  unfold b7f2c9a4d1e8.upgrade
  rw [if_pos hids, hrows]
  rfl

/-- The second upgrade finds the extension in the version of the document. -/
theorem typed_source_eq (hnew : (documents.map (fun d => gen_random_uuid d.id)).Nodup)
    (hd : d ∈ documents) :
    c3d9e1f42a76.default_source (c3d9e1f42a76.typed_source lower
      (documents.map (b7f2c9a4d1e8.version_row gen_random_uuid))
      (identity_row gen_random_uuid d)) =
    { identity_row gen_random_uuid d with
      source_type := c3d9e1f42a76.source_type_of lower d.extension } := by
  have hfind : (documents.map (b7f2c9a4d1e8.version_row gen_random_uuid)).find?
      (fun v => some v.id = (identity_row gen_random_uuid d).current_version_id) =
      some (b7f2c9a4d1e8.version_row gen_random_uuid d) := by
    simp only [identity_row, Option.some.injEq]
    exact find_of_mem _ (keyed_version_ids hnew) (List.mem_map_of_mem hd)
  unfold c3d9e1f42a76.typed_source
  rw [hfind]
  unfold c3d9e1f42a76.default_source
  rw [if_neg (source_type_valid _ _).1]
  rfl

/-- The upgrades succeed where the metadata of each row has a binary form. -/
theorem upgraded_eq (hk : Keyed BaseDocument.id documents)
    (hnew : (documents.map (fun d => gen_random_uuid d.id)).Nodup) :
    upgraded gen_random_uuid lower numeric documents = .ok t ↔
      List.Forall₂ (fun d row => ∃ custom_properties,
        to_jsonb numeric d.metadata = some custom_properties ∧
        row = migrated_row gen_random_uuid lower d custom_properties)
        documents t.documents ∧
      t.versions = documents.map (b7f2c9a4d1e8.version_row gen_random_uuid) := by
  have hsources : ((documents.map (identity_row gen_random_uuid)).map
      (c3d9e1f42a76.typed_source lower
        (documents.map (b7f2c9a4d1e8.version_row gen_random_uuid)))).map
      c3d9e1f42a76.default_source = documents.map (fun d => {
        identity_row gen_random_uuid d with
        source_type := c3d9e1f42a76.source_type_of lower d.extension }) := by
    rw [List.map_map, List.map_map]
    exact List.map_congr_left (fun d hd => typed_source_eq hnew hd)
  have hrow : ∀ (d : BaseDocument) (row : KnowledgeDocumentRow),
      c3d9e1f42a76.reshaped numeric { identity_row gen_random_uuid d with
          source_type := c3d9e1f42a76.source_type_of lower d.extension } = .ok row ↔
        ∃ custom_properties, to_jsonb numeric d.metadata = some custom_properties ∧
          row = migrated_row gen_random_uuid lower d custom_properties := by
    intro d row
    unfold c3d9e1f42a76.reshaped
    simp only [identity_row]
    rcases to_jsonb numeric d.metadata with _ | custom_properties
    · simp
    · simp [migrated_row, eq_comm]
  unfold upgraded
  rw [first_upgrade hk hnew]
  simp only [bind, Except.bind, c3d9e1f42a76.upgrade, hsources]
  have hrows : ∀ rows, (documents.map (fun d => { identity_row gen_random_uuid d with
      source_type := c3d9e1f42a76.source_type_of lower d.extension })).mapM
      (c3d9e1f42a76.reshaped numeric) = .ok rows ↔
        List.Forall₂ (fun d row => ∃ custom_properties,
          to_jsonb numeric d.metadata = some custom_properties ∧
          row = migrated_row gen_random_uuid lower d custom_properties) documents rows := by
    intro rows
    rw [mapM_eq_ok, List.forall₂_map_left_iff]
    simp only [hrow]
  obtain ⟨documents, versions⟩ := t
  rw [← hrows]
  generalize List.mapM (c3d9e1f42a76.reshaped numeric) _ = result
  rcases result with e | rows
  · simp
  · simp [pure, Except.pure, eq_comm]

/-- The upgrades of legacy rows, by the objects that are their metadata. -/
theorem upgraded_rows_eq {db : LegacyDatabase}
    (hnew : (db.rows.map (fun d => gen_random_uuid d.id)).Nodup) :
    upgraded gen_random_uuid lower numeric db.rows = .ok t ↔
      List.Forall₂ (fun d row => ∃ custom_properties,
        to_jsonb numeric (.object d.properties.fields) = some custom_properties ∧
        row = migrated_row gen_random_uuid lower d.toBaseDocument custom_properties)
        db.documents t.documents ∧
      t.versions = db.rows.map (b7f2c9a4d1e8.version_row gen_random_uuid) := by
  rw [upgraded_eq db.keyed_rows hnew, LegacyDatabase.rows, List.forall₂_map_left_iff]
  simp only [LegacyDocument.is_object]

end cortex_rag.migrations
