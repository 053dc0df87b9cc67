-- The writes of the repository on the migrated tables, where a row keeps the
-- text of an enum and the JSON of the metadata.
import CortexRag.DocumentUseCases
import CortexRag.StoredRows

open keyed_rows json_values related_lists

namespace cortex_rag.migrations

/-! ## Rows -/

def version_to_model (db_now : DateTime) (entity : KnowledgeDocumentVersion) :
    KnowledgeDocumentVersionRow where
  id := entity.id
  document_id := entity.document_id
  version_number := entity.version_number
  original_filename := entity.original_filename
  filename := entity.filename
  extension := entity.extension
  mime_type := entity.mime_type
  size := entity.size
  checksum_sha256 := entity.checksum_sha256
  storage_provider := entity.storage_provider.value
  storage_path := entity.storage_path
  page_count := entity.page_count
  metadata := .object entity.metadata
  uploaded_by := entity.uploaded_by
  created_at := db_now

section Writes

variable (dump_datetime : DateTime → Json)

def doc_to_model (db_now : DateTime) (entity : KnowledgeDocument) : KnowledgeDocumentRow where
  id := entity.id
  tenant_id := entity.tenant_id
  title := entity.title
  source_type := entity.source_type.value
  knowledge_space_id := entity.knowledge_space_id
  current_version_id := entity.current_version_id
  status := entity.status.value
  metadata := entity.metadata.model_dump dump_datetime
  created_by := entity.created_by
  deleted_at := entity.deleted_at
  created_at := db_now
  updated_at := db_now

/-- The unique index `ix_versions_document_number`. -/
def number_key (model : KnowledgeDocumentVersionRow) : UUID × Int :=
  (model.document_id, model.version_number)

/-- `INSERT` of a version, under the keys of its table. -/
def insert_version (t : Tables) (row : KnowledgeDocumentVersionRow) :
    Except PyException Tables := do
  let _ ← insert_unique number_key t.versions row
  let versions ← insert_unique KnowledgeDocumentVersionRow.id t.versions row
  if row.document_id ∈ t.documents.map KnowledgeDocumentRow.id then return { t with versions }
  else .error IntegrityError

theorem insert_version_ok {t t' : Tables} {row : KnowledgeDocumentVersionRow}
    (h : insert_version t row = .ok t') :
    number_key row ∉ t.versions.map number_key ∧
      row.id ∉ t.versions.map KnowledgeDocumentVersionRow.id ∧
      t' = { t with versions := t.versions ++ [row] } := by
  obtain ⟨_, hnumber, h⟩ := bind_eq_ok.mp h
  obtain ⟨versions, hid, h⟩ := bind_eq_ok.mp h
  obtain ⟨hfree, _⟩ := insert_unique_ok.mp hnumber
  obtain ⟨hnew, rfl⟩ := insert_unique_ok.mp hid
  split at h
  · cases h
    exact ⟨hfree, hnew, rfl⟩
  · cases h

namespace SqlAlchemyDocumentRepository

def add (t : Tables) (db_now : DateTime) (document : KnowledgeDocument)
    (initial_version : KnowledgeDocumentVersion) : Except PyException Tables := do
  let documents ← insert_unique KnowledgeDocumentRow.id t.documents
    (doc_to_model dump_datetime db_now document)
  insert_version { t with documents } (version_to_model db_now initial_version)

/-- `updated_at` is the time that the flush leaves on the row: that of the
database where a column has changed, and else the time before. -/
def add_version (t : Tables) (db_now updated_at : DateTime) (document : KnowledgeDocument)
    (version : KnowledgeDocumentVersion) : Except PyException Tables := do
  let t ← insert_version t (version_to_model db_now version)
  return { t with
    documents := modify KnowledgeDocumentRow.id document.id (fun model => { model with
      current_version_id := document.current_version_id
      status := document.status.value
      updated_at }) t.documents }

/-- The columns that `update` assigns. A row of another tenant stays. -/
def update_columns (updated_at : DateTime) (document : KnowledgeDocument)
    (model : KnowledgeDocumentRow) : KnowledgeDocumentRow :=
  if model.tenant_id ≠ document.tenant_id then model
  else
    { model with
      title := document.title
      knowledge_space_id := document.knowledge_space_id
      status := document.status.value
      metadata := document.metadata.model_dump dump_datetime
      current_version_id := document.current_version_id
      deleted_at := document.deleted_at
      updated_at }

def update (t : Tables) (updated_at : DateTime) (document : KnowledgeDocument) : Tables :=
  { t with
    documents := modify KnowledgeDocumentRow.id document.id
      (update_columns dump_datetime updated_at document) t.documents }

end SqlAlchemyDocumentRepository

end Writes

/-- No write changes the id of a row. -/
theorem keyed_update {dump_datetime : DateTime → Json} {t : Tables}
    (hk : Keyed KnowledgeDocumentRow.id t.documents) (updated_at : DateTime)
    (document : KnowledgeDocument) :
    Keyed KnowledgeDocumentRow.id
      (SqlAlchemyDocumentRepository.update dump_datetime t updated_at document).documents := by
  refine keyed_modify KnowledgeDocumentRow.id ?_ hk
  intro r hr
  unfold SqlAlchemyDocumentRepository.update_columns
  split
  · exact hr
  · exact hr

/-! ## The use case of metadata -/

namespace UpdateDocumentMetadataUseCase

/-- The copy that the use case writes back. -/
def merged (data : UpdateDocumentMetadataInput) (document : KnowledgeDocument) :
    KnowledgeDocument :=
  { document with
    metadata := data.metadata.getD document.metadata
    title := data.title.getD document.title
    knowledge_space_id := data.knowledge_space_id.or document.knowledge_space_id }

/-- The document that the use case returns, and the tables after it. -/
def execute (read_datetime : Json → Option DateTime) (dump_datetime : DateTime → Json) (t : Tables)
    (updated_at : DateTime) (data : UpdateDocumentMetadataInput) :
    Except PyException (KnowledgeDocument × Tables) := do
  match ← SqlAlchemyDocumentRepository.get read_datetime t data.tenant_id data.document_id with
  | none => .error (.Domain (document_not_found data.document_id))
  | some document =>
    let document := merged data document
    return (document, SqlAlchemyDocumentRepository.update dump_datetime t updated_at document)

end UpdateDocumentMetadataUseCase

end cortex_rag.migrations
