-- The rows of the document and the job tables as they are stored: text for an enum,
-- JSON for the metadata. The repositories over them raise for a row that does not
-- parse.
import CortexRag.Database
import CortexRag.Metadata
import CortexRag.RelatedLists
import CortexRag.Uploads

open keyed_rows json_values related_lists

namespace cortex_rag

/-! ## Enums -/

/-- The error of an enum for a value that is none of its own. -/
def not_a_value (value enum_name : String) : PyException :=
  .Other (py_repr value ++ " is not a valid " ++ enum_name)

/-- `DocumentStatus(value)`. -/
def DocumentStatus.of_value : String → Except PyException DocumentStatus
  | "uploaded" => .ok .Uploaded
  | "processing" => .ok .Processing
  | "processed" => .ok .Processed
  | "failed" => .ok .Failed
  | "deleted" => .ok .Deleted
  | value => .error (not_a_value value "DocumentStatus")

/-- `StorageProviderKind(value)`. -/
def StorageProviderKind.of_value : String → Except PyException StorageProviderKind
  | "local" => .ok .Local
  | "s3" => .ok .S3
  | value => .error (not_a_value value "StorageProviderKind")

/-- `SourceType(value)`. -/
def SourceType.of_value : String → Except PyException SourceType
  | "pdf" => .ok .Pdf
  | "word" => .ok .Word
  | "excel" => .ok .Excel
  | "powerpoint" => .ok .Powerpoint
  | "markdown" => .ok .Markdown
  | "text" => .ok .Text
  | "html" => .ok .Html
  | "image" => .ok .Image
  | "email" => .ok .Email
  | "notion" => .ok .Notion
  | "confluence" => .ok .Confluence
  | "github" => .ok .Github
  | "database" => .ok .Database
  | "api" => .ok .Api
  | "web" => .ok .Web
  | value => .error (not_a_value value "SourceType")

/-- `JobType(value)`. -/
def JobType.of_value : String → Except PyException JobType
  | "document_ingestion" => .ok .DocumentIngestion
  | "render_pages" => .ok .RenderPages
  | "ocr" => .ok .Ocr
  | "chunking" => .ok .Chunking
  | "generate_embeddings" => .ok .GenerateEmbeddings
  | "reindex" => .ok .Reindex
  | "delete_index" => .ok .DeleteIndex
  | value => .error (not_a_value value "JobType")

/-- `ProcessingJobStatus(value)`. -/
def ProcessingJobStatus.of_value : String → Except PyException ProcessingJobStatus
  | "queued" => .ok .Queued
  | "running" => .ok .Running
  | "parsing" => .ok .Parsing
  | "rendering" => .ok .Rendering
  | "normalizing" => .ok .Normalizing
  | "chunking" => .ok .Chunking
  | "embedding" => .ok .Embedding
  | "indexing" => .ok .Indexing
  | "completed" => .ok .Completed
  | "failed" => .ok .Failed
  | "cancelled" => .ok .Cancelled
  | value => .error (not_a_value value "ProcessingJobStatus")

/-- `str(status)`. -/
def DocumentStatus.value : DocumentStatus → String
  | .Uploaded => "uploaded"
  | .Processing => "processing"
  | .Processed => "processed"
  | .Failed => "failed"
  | .Deleted => "deleted"

/-- `str(storage_provider)`. -/
def StorageProviderKind.value : StorageProviderKind → String
  | .Local => "local"
  | .S3 => "s3"

/-- `str(source_type)`. -/
def SourceType.value : SourceType → String
  | .Pdf => "pdf"
  | .Word => "word"
  | .Excel => "excel"
  | .Powerpoint => "powerpoint"
  | .Markdown => "markdown"
  | .Text => "text"
  | .Html => "html"
  | .Image => "image"
  | .Email => "email"
  | .Notion => "notion"
  | .Confluence => "confluence"
  | .Github => "github"
  | .Database => "database"
  | .Api => "api"
  | .Web => "web"

theorem job_status_of_value {value : String} {status : ProcessingJobStatus} :
    ProcessingJobStatus.of_value value = .ok status ↔ value = status.str := by
  constructor
  · intro h
    unfold ProcessingJobStatus.of_value at h
    split at h <;> cases h <;> rfl
  · rintro rfl
    cases status <;> rfl

/-- Two statuses have two values. -/
theorem ProcessingJobStatus.str_inj {status status' : ProcessingJobStatus} :
    status.str = status'.str ↔ status = status' := by
  constructor
  · intro h
    have hvalue := job_status_of_value.mpr h
    rw [job_status_of_value.mpr rfl] at hvalue
    exact Except.ok.inj hvalue
  · rintro rfl
    rfl

theorem document_status_of_value (status : DocumentStatus) :
    DocumentStatus.of_value status.value = .ok status := by
  cases status <;> rfl

theorem source_type_of_value (source_type : SourceType) :
    SourceType.of_value source_type.value = .ok source_type := by
  cases source_type <;> rfl

theorem storage_provider_of_value (provider : StorageProviderKind) :
    StorageProviderKind.of_value provider.value = .ok provider := by
  cases provider <;> rfl

theorem storage_provider_valid {value : String} :
    (∃ provider, StorageProviderKind.of_value value = .ok provider) ↔
      value = "local" ∨ value = "s3" := by
  unfold StorageProviderKind.of_value
  constructor
  · rintro ⟨provider, h⟩
    split at h
    · exact Or.inl rfl
    · exact Or.inr rfl
    · cases h
  · rintro (rfl | rfl)
    · exact ⟨_, rfl⟩
    · exact ⟨_, rfl⟩

namespace migrations

/-! ## The tables -/

/-- A row of `knowledge_documents`. -/
structure KnowledgeDocumentRow where
  id : UUID
  tenant_id : String
  knowledge_space_id : Option UUID
  title : String
  source_type : String
  current_version_id : Option UUID
  status : String
  metadata : Json
  created_by : Option String
  deleted_at : Option DateTime
  created_at : DateTime
  updated_at : DateTime

/-- A row of `knowledge_document_versions`. -/
structure KnowledgeDocumentVersionRow where
  id : UUID
  document_id : UUID
  version_number : Int
  original_filename : String
  filename : String
  extension : String
  mime_type : String
  size : Int
  checksum_sha256 : String
  storage_provider : String
  storage_path : String
  page_count : Option Int
  metadata : Json
  uploaded_by : Option String
  created_at : DateTime

structure Tables where
  documents : List KnowledgeDocumentRow
  versions : List KnowledgeDocumentVersionRow

/-- A row of `processing_jobs`. -/
structure ProcessingJobRow where
  id : UUID
  document_id : UUID
  tenant_id : String
  job_type : String
  status : String
  version_id : Option UUID
  priority : Int
  retry_count : Int
  progress : Int
  worker_name : Option String
  error_message : Option String
  started_at : Option DateTime
  finished_at : Option DateTime
  created_at : DateTime
  updated_at : DateTime

/-- The documents, their versions and the jobs at head. -/
structure HeadDatabase where
  tables : Tables
  jobs : List ProcessingJobRow

/-! ## The repository -/

/-- `KnowledgeDocumentVersion`, with metadata of any JSON. -/
structure KnowledgeDocumentVersion where
  id : UUID
  document_id : UUID
  version_number : Int
  original_filename : String
  filename : String
  extension : String
  mime_type : String
  size : Int
  checksum_sha256 : String
  storage_provider : StorageProviderKind
  storage_path : String
  page_count : Option Int
  metadata : List (Text × Json)
  uploaded_by : Option String
  created_at : DateTime

/-- `KnowledgeDocument`. -/
structure KnowledgeDocument where
  id : UUID
  tenant_id : String
  title : String
  source_type : SourceType
  knowledge_space_id : Option UUID
  current_version_id : Option UUID
  status : DocumentStatus
  metadata : KnowledgeMetadata
  created_by : Option String
  created_at : DateTime
  updated_at : DateTime
  deleted_at : Option DateTime
  active_version : Option KnowledgeDocumentVersion

/-- `dict(value)`, for the objects that the column is declared to hold. -/
def dict : Json → Except PyException (List (Text × Json))
  | .object fields => .ok (merged fields)
  | _ => .error (.Other "TypeError")

def version_to_entity (model : KnowledgeDocumentVersionRow) :
    Except PyException KnowledgeDocumentVersion := do
  return {
    id := model.id
    document_id := model.document_id
    version_number := model.version_number
    original_filename := model.original_filename
    filename := model.filename
    extension := model.extension
    mime_type := model.mime_type
    size := model.size
    checksum_sha256 := model.checksum_sha256
    storage_provider := ← StorageProviderKind.of_value model.storage_provider
    storage_path := model.storage_path
    page_count := model.page_count
    metadata := ← dict model.metadata
    uploaded_by := model.uploaded_by
    created_at := model.created_at }

section Reading

variable (read_datetime : Json → Option DateTime)

def doc_to_entity (model : KnowledgeDocumentRow)
    (active_version : Option KnowledgeDocumentVersion) : Except PyException KnowledgeDocument := do
  return {
    id := model.id
    tenant_id := model.tenant_id
    title := model.title
    source_type := ← SourceType.of_value model.source_type
    knowledge_space_id := model.knowledge_space_id
    current_version_id := model.current_version_id
    status := ← DocumentStatus.of_value model.status
    metadata := ← (KnowledgeMetadata.model_validate read_datetime model.metadata).elim
      (.error (.Other "ValidationError")) .ok
    created_by := model.created_by
    created_at := model.created_at
    updated_at := model.updated_at
    deleted_at := model.deleted_at
    active_version := active_version }

namespace SqlAlchemyDocumentRepository

def load_version (t : Tables) :
    Option UUID → Except PyException (Option KnowledgeDocumentVersion)
  | none => .ok none
  | some version_id =>
    match find KnowledgeDocumentVersionRow.id version_id t.versions with
    | none => .ok none
    | some model => (version_to_entity model).map some

/-- The entity of a row. -/
def read (t : Tables) (model : KnowledgeDocumentRow) : Except PyException KnowledgeDocument := do
  let version ← load_version t model.current_version_id
  doc_to_entity read_datetime model version

def get (t : Tables) (tenant_id : String) (document_id : UUID) :
    Except PyException (Option KnowledgeDocument) :=
  match t.documents.find? (fun m =>
    m.id = document_id ∧ m.tenant_id = tenant_id ∧ m.deleted_at = none) with
  | none => .ok none
  | some model => (read read_datetime t model).map some

/-- The rows of the join of `get_by_checksum`: one for each version with the
checksum. -/
def checksum_rows (t : Tables) (tenant_id checksum_sha256 : String) : List KnowledgeDocumentRow :=
  t.documents.flatMap (fun m =>
    (t.versions.filter (fun v =>
      v.document_id = m.id ∧ v.checksum_sha256 = checksum_sha256 ∧ m.tenant_id = tenant_id ∧
        m.deleted_at = none)).map (fun _ => m))

def get_by_checksum (order : RowOrder) (t : Tables) (tenant_id checksum_sha256 : String) :
    Except PyException (Option KnowledgeDocument) :=
  match (ordered (fun _ _ => true) order KnowledgeDocumentRow.id
      (checksum_rows t tenant_id checksum_sha256)).head? with
  | none => .ok none
  | some model => (read read_datetime t model).map some

/-- The `WHERE` of `list_documents`. -/
def listed (tenant_id : String) (knowledge_space_id : Option UUID) (m : KnowledgeDocumentRow) :
    Bool :=
  decide (m.tenant_id = tenant_id ∧ m.deleted_at = none ∧
    (knowledge_space_id = none ∨ m.knowledge_space_id = knowledge_space_id))

def list_documents (order : RowOrder) (t : Tables) (tenant_id : String)
    (knowledge_space_id : Option UUID) (limit offset : Nat) :
    Except PyException (List KnowledgeDocument × Nat) := do
  let rows := t.documents.filter (listed tenant_id knowledge_space_id)
  let models := page limit offset
    (ordered (fun a b => b.created_at.le a.created_at) order KnowledgeDocumentRow.id rows)
  let version_ids := models.filterMap (fun m => m.current_version_id)
  let versions ← (t.versions.filter (fun v => v.id ∈ version_ids)).mapM version_to_entity
  let items ← models.mapM (fun m => doc_to_entity read_datetime m
    (m.current_version_id.bind (fun id => versions.find? (fun v => v.id = id))))
  return (items, rows.length)

end SqlAlchemyDocumentRepository

end Reading

/-- `ProcessingJob`, with the integers that the columns hold. -/
structure ProcessingJob where
  id : UUID
  document_id : UUID
  tenant_id : String
  job_type : JobType
  status : ProcessingJobStatus
  version_id : Option UUID
  priority : Int
  retry_count : Int
  progress : Int
  worker_name : Option String
  error_message : Option String
  started_at : Option DateTime
  finished_at : Option DateTime
  created_at : DateTime
  updated_at : DateTime

def to_entity (model : ProcessingJobRow) : Except PyException ProcessingJob := do
  return {
    id := model.id
    document_id := model.document_id
    tenant_id := model.tenant_id
    job_type := ← JobType.of_value model.job_type
    status := ← ProcessingJobStatus.of_value model.status
    version_id := model.version_id
    priority := model.priority
    retry_count := model.retry_count
    progress := model.progress
    worker_name := model.worker_name
    error_message := model.error_message
    started_at := model.started_at
    finished_at := model.finished_at
    created_at := model.created_at
    updated_at := model.updated_at }

namespace SqlAlchemyProcessingJobRepository

/-- The `WHERE` of `list_jobs`. -/
def listed (tenant_id : String) (document_id : Option UUID) (status : Option ProcessingJobStatus)
    (m : ProcessingJobRow) : Bool :=
  decide (m.tenant_id = tenant_id ∧ (document_id = none ∨ document_id = some m.document_id) ∧
    (status = none ∨ status.map ProcessingJobStatus.str = some m.status))

def list_jobs (order : RowOrder) (jobs : List ProcessingJobRow) (tenant_id : String)
    (document_id : Option UUID) (status : Option ProcessingJobStatus) (limit offset : Nat) :
    Except PyException (List ProcessingJob × Nat) := do
  let rows := jobs.filter (listed tenant_id document_id status)
  let models := page limit offset
    (ordered (fun a b => b.created_at.le a.created_at) order ProcessingJobRow.id rows)
  let items ← models.mapM to_entity
  return (items, rows.length)

end SqlAlchemyProcessingJobRepository

variable {read_datetime : Json → Option DateTime} {t : Tables}

/-! ## What the repository reads -/

/-- The entity of a row, where each of its values is one of its type. -/
theorem doc_to_entity_ok {model : KnowledgeDocumentRow} {version : Option KnowledgeDocumentVersion}
    {document : KnowledgeDocument} :
    doc_to_entity read_datetime model version = .ok document ↔
      ∃ source_type status metadata, SourceType.of_value model.source_type = .ok source_type ∧
        DocumentStatus.of_value model.status = .ok status ∧
        KnowledgeMetadata.model_validate read_datetime model.metadata = some metadata ∧
        document = {
          id := model.id
          tenant_id := model.tenant_id
          title := model.title
          source_type := source_type
          knowledge_space_id := model.knowledge_space_id
          current_version_id := model.current_version_id
          status := status
          metadata := metadata
          created_by := model.created_by
          created_at := model.created_at
          updated_at := model.updated_at
          deleted_at := model.deleted_at
          active_version := version } := by
  unfold doc_to_entity
  rcases SourceType.of_value model.source_type with e | source_type
  · simp [bind, Except.bind]
  · rcases DocumentStatus.of_value model.status with e | status
    · simp [bind, Except.bind]
    · rcases KnowledgeMetadata.model_validate read_datetime model.metadata with _ | metadata
      · simp [bind, Except.bind]
      · simp [bind, Except.bind, pure, Except.pure, eq_comm]

/-- A row is read where its version and its own values are. -/
theorem read_ok {model : KnowledgeDocumentRow} {document : KnowledgeDocument} :
    SqlAlchemyDocumentRepository.read read_datetime t model = .ok document ↔
      ∃ version,
        SqlAlchemyDocumentRepository.load_version t model.current_version_id = .ok version ∧
        doc_to_entity read_datetime model version = .ok document := bind_eq_ok

/-- Whether a row has an entity does not depend on its version. -/
theorem doc_to_entity_any {model : KnowledgeDocumentRow}
    {version version' : Option KnowledgeDocumentVersion} {entity : KnowledgeDocument}
    (h : doc_to_entity read_datetime model version = .ok entity) :
    ∃ entity', doc_to_entity read_datetime model version' = .ok entity' := by
  obtain ⟨source_type, status, metadata, hsource, hstatus, hmetadata, rfl⟩ := doc_to_entity_ok.mp h
  exact ⟨_, doc_to_entity_ok.mpr ⟨source_type, status, metadata, hsource, hstatus, hmetadata, rfl⟩⟩

/-- What `get` returns is read from the row of a live document of the tenant. -/
theorem get_row {tenant_id : String} {document_id : UUID} {document : KnowledgeDocument}
    (h : SqlAlchemyDocumentRepository.get read_datetime t tenant_id document_id =
      .ok (some document)) :
    ∃ model ∈ t.documents, model.id = document_id ∧ model.tenant_id = tenant_id ∧
      model.deleted_at = none ∧
      SqlAlchemyDocumentRepository.read read_datetime t model = .ok document := by
  unfold SqlAlchemyDocumentRepository.get at h
  split at h
  · cases h
  · rename_i model hmodel
    have hlive := List.find?_some hmodel
    simp only [decide_eq_true_eq] at hlive
    refine ⟨model, List.mem_of_find?_eq_some hmodel, hlive.1, hlive.2.1, hlive.2.2, ?_⟩
    rcases hread : SqlAlchemyDocumentRepository.read read_datetime t model with e | document'
    · rw [hread] at h
      cases h
    · rw [hread] at h
      cases h
      rfl

/-- What `get` makes of the row of a live document. -/
theorem get_live_row (hk : Keyed KnowledgeDocumentRow.id t.documents) {model : KnowledgeDocumentRow}
    (hm : model ∈ t.documents) (hlive : model.deleted_at = none) :
    SqlAlchemyDocumentRepository.get read_datetime t model.tenant_id model.id =
      (SqlAlchemyDocumentRepository.read read_datetime t model).map some := by
  unfold SqlAlchemyDocumentRepository.get
  split
  · rename_i hnone
    exact absurd (by simp [hlive]) (List.find?_eq_none.mp hnone model hm)
  · rename_i model' hmodel'
    have hid := List.find?_some hmodel'
    simp only [decide_eq_true_eq] at hid
    rw [eq_of_key _ hk (List.mem_of_find?_eq_some hmodel') hm hid.1]

/-- Each live document of the tenant whose row is read is returned. -/
theorem get_of_read (hk : Keyed KnowledgeDocumentRow.id t.documents) {model : KnowledgeDocumentRow}
    (hm : model ∈ t.documents) (hlive : model.deleted_at = none) {document : KnowledgeDocument}
    (hread : SqlAlchemyDocumentRepository.read read_datetime t model = .ok document) :
    SqlAlchemyDocumentRepository.get read_datetime t model.tenant_id model.id =
      .ok (some document) := by
  rw [get_live_row hk hm hlive, hread]
  rfl

/-! ## Rows that parse -/

/-- The tables under their primary keys, with an object as the metadata of each
version, as its column is declared. -/
structure Stored (t : Tables) : Prop where
  documents : Keyed KnowledgeDocumentRow.id t.documents
  versions : Keyed KnowledgeDocumentVersionRow.id t.versions
  objects : ∀ v ∈ t.versions, ∃ fields, v.metadata = .object fields

/-- The values of the row are ones that its types have, and its version, if it is
there, is on a storage provider that is known. -/
structure Parses (read_datetime : Json → Option DateTime) (t : Tables) (m : KnowledgeDocumentRow) :
    Prop where
  source_type : ∃ source_type, SourceType.of_value m.source_type = .ok source_type
  status : ∃ status, DocumentStatus.of_value m.status = .ok status
  metadata : ∃ metadata, KnowledgeMetadata.model_validate read_datetime m.metadata = some metadata
  version : ∀ v ∈ t.versions, m.current_version_id = some v.id →
    v.storage_provider = "local" ∨ v.storage_provider = "s3"

variable {m : KnowledgeDocumentRow} {v : KnowledgeDocumentVersionRow}

theorem version_to_entity_ok {version : KnowledgeDocumentVersion}
    (h : version_to_entity v = .ok version) :
    version.id = v.id ∧
      StorageProviderKind.of_value v.storage_provider = .ok version.storage_provider := by
  obtain ⟨provider, hprovider, h⟩ := bind_eq_ok.mp h
  obtain ⟨_, _, h⟩ := bind_eq_ok.mp h
  cases h
  exact ⟨rfl, hprovider⟩

theorem version_to_entity_iff (hobject : ∃ fields, v.metadata = .object fields) :
    (∃ version, version_to_entity v = .ok version) ↔
      v.storage_provider = "local" ∨ v.storage_provider = "s3" := by
  rw [← storage_provider_valid]
  constructor
  · rintro ⟨version, h⟩
    exact ⟨_, (version_to_entity_ok h).2⟩
  · rintro ⟨provider, hprovider⟩
    obtain ⟨fields, hfields⟩ := hobject
    unfold version_to_entity
    rw [hprovider, hfields]
    exact ⟨_, rfl⟩

namespace SqlAlchemyDocumentRepository

theorem load_version_of_mem (hs : Stored t) (hv : v ∈ t.versions) :
    load_version t (some v.id) = (version_to_entity v).map some := by
  simp only [load_version, find_of_mem KnowledgeDocumentVersionRow.id hs.versions hv]

theorem load_version_iff (hs : Stored t) {pointer : Option UUID} :
    (∃ version, load_version t pointer = .ok version) ↔
      ∀ v ∈ t.versions, pointer = some v.id →
        v.storage_provider = "local" ∨ v.storage_provider = "s3" := by
  constructor
  · rintro ⟨version, hload⟩ v hv rfl
    rw [load_version_of_mem hs hv] at hload
    rw [← version_to_entity_iff (hs.objects v hv)]
    rcases hentity : version_to_entity v with e | entity
    · rw [hentity] at hload
      cases hload
    · exact ⟨entity, rfl⟩
  · intro h
    rcases pointer with _ | version_id
    · exact ⟨none, rfl⟩
    · rcases hfind : find KnowledgeDocumentVersionRow.id version_id t.versions with _ | v
      · exact ⟨none, by simp only [load_version, hfind]⟩
      · obtain ⟨hv, rfl⟩ := find_some _ hfind
        obtain ⟨version, hversion⟩ := (version_to_entity_iff (hs.objects v hv)).mpr (h v hv rfl)
        exact ⟨some version, by rw [load_version_of_mem hs hv, hversion]; rfl⟩

/-- A row is read exactly where it parses. -/
theorem read_iff (hs : Stored t) :
    (∃ document, read read_datetime t m = .ok document) ↔ Parses read_datetime t m := by
  constructor
  · rintro ⟨document, h⟩
    obtain ⟨version, hload, hentity⟩ := read_ok.mp h
    obtain ⟨source_type, status, metadata, hsource, hstatus, hmetadata, _⟩ :=
      doc_to_entity_ok.mp hentity
    exact ⟨⟨_, hsource⟩, ⟨_, hstatus⟩, ⟨_, hmetadata⟩, (load_version_iff hs).mp ⟨_, hload⟩⟩
  · rintro ⟨⟨source_type, hsource⟩, ⟨status, hstatus⟩, ⟨metadata, hmetadata⟩, hversion⟩
    obtain ⟨version, hload⟩ := (load_version_iff hs).mpr hversion
    exact ⟨_, read_ok.mpr ⟨version, hload,
      doc_to_entity_ok.mpr ⟨source_type, status, metadata, hsource, hstatus, hmetadata, rfl⟩⟩⟩

/-- What a read keeps of its row. -/
theorem read_row {document : KnowledgeDocument} (h : read read_datetime t m = .ok document) :
    document.id = m.id ∧ document.created_at = m.created_at := by
  obtain ⟨_, _, hentity⟩ := read_ok.mp h
  obtain ⟨_, _, _, _, _, _, rfl⟩ := doc_to_entity_ok.mp hentity
  exact ⟨rfl, rfl⟩

/-! ### The listing -/

/-- The rows on a page of `list_documents`. -/
def models (order : RowOrder) (t : Tables) (tenant_id : String) (knowledge_space_id : Option UUID)
    (limit offset : Nat) : List KnowledgeDocumentRow :=
  page limit offset (ordered (fun a b => b.created_at.le a.created_at) order
    KnowledgeDocumentRow.id (t.documents.filter (listed tenant_id knowledge_space_id)))

/-- A version is found among the entities of the rows where it is among the rows. -/
theorem find_entity {rows : List KnowledgeDocumentVersionRow}
    {versions : List KnowledgeDocumentVersion} (h : rows.mapM version_to_entity = .ok versions)
    (version_id : UUID) :
    (versions.find? (fun v => v.id = version_id)).map .ok =
      (rows.find? (fun v => v.id = version_id)).map version_to_entity := by
  have hpairs := mapM_eq_ok.mp h
  clear h
  induction hpairs with
  | nil => rfl
  | @cons row version rows versions hversion _ ih =>
    have hid := (version_to_entity_ok hversion).1
    by_cases hsame : row.id = version_id
    · rw [List.find?_cons_of_pos (by simpa [hid] using hsame),
        List.find?_cons_of_pos (by simpa using hsame), Option.map_some, Option.map_some, hversion]
    · rw [List.find?_cons_of_neg (by simpa [hid] using hsame),
        List.find?_cons_of_neg (by simpa using hsame), ih]

/-- The batch holds the version that a lookup of its own would load. -/
theorem load_batched {ids : List UUID} {versions : List KnowledgeDocumentVersion}
    (h : (t.versions.filter (fun v => v.id ∈ ids)).mapM version_to_entity = .ok versions)
    {pointer : Option UUID}
    (hpointer : ∀ version_id, pointer = some version_id → version_id ∈ ids) :
    load_version t pointer =
      .ok (pointer.bind (fun version_id => versions.find? (fun v => v.id = version_id))) := by
  rcases pointer with _ | version_id
  · rfl
  · have hmem := hpointer version_id rfl
    have hentity := find_entity h version_id
    have hsame : (fun v : KnowledgeDocumentVersionRow => decide (decide (v.id ∈ ids) = true ∧
        decide (v.id = version_id) = true)) = fun v => decide (v.id = version_id) := by
      funext v
      by_cases hid : v.id = version_id <;> simp [hid, hmem]
    rw [List.find?_filter, hsame] at hentity
    change _ = (find KnowledgeDocumentVersionRow.id version_id t.versions).map _ at hentity
    rcases hfind : find KnowledgeDocumentVersionRow.id version_id t.versions with _ | v
    · rw [hfind] at hentity
      simp only [load_version, hfind, Option.bind_some, Option.map_eq_none_iff.mp hentity]
    · rw [hfind] at hentity
      obtain ⟨version, hversion, hok⟩ := Option.map_eq_some_iff.mp hentity
      simp only [load_version, hfind, Option.bind_some, hversion, ← hok]
      rfl

/-- The items of a page are what is read of its rows. -/
theorem list_documents_ok (hs : Stored t) {order : RowOrder} {tenant_id : String}
    {knowledge_space_id : Option UUID} {limit offset : Nat} {documents : List KnowledgeDocument}
    {total : Nat} :
    list_documents read_datetime order t tenant_id knowledge_space_id limit offset =
        .ok (documents, total) ↔
      (models order t tenant_id knowledge_space_id limit offset).mapM (read read_datetime t) =
          .ok documents ∧
        total = (t.documents.filter (listed tenant_id knowledge_space_id)).length := by
  have hpointers : ∀ m ∈ models order t tenant_id knowledge_space_id limit offset,
      ∀ version_id, m.current_version_id = some version_id → version_id ∈
        (models order t tenant_id knowledge_space_id limit offset).filterMap
          (fun m => m.current_version_id) :=
    fun m hm _ hpointer => List.mem_filterMap.mpr ⟨m, hm, hpointer⟩
  constructor
  · intro h
    obtain ⟨versions, hversions, h⟩ := bind_eq_ok.mp h
    obtain ⟨items, hitems, h⟩ := bind_eq_ok.mp h
    cases h
    refine ⟨mapM_eq_ok.mpr (forall₂_imp_mem (mapM_eq_ok.mp hitems) ?_), rfl⟩
    intro m hm document hdocument
    exact read_ok.mpr ⟨_, load_batched hversions (hpointers m hm), hdocument⟩
  · rintro ⟨hread, rfl⟩
    have hloads : ∃ versions, (t.versions.filter (fun v => v.id ∈
        (models order t tenant_id knowledge_space_id limit offset).filterMap
          (fun m => m.current_version_id))).mapM version_to_entity = .ok versions := by
      refine mapM_ok_of_forall ?_
      intro v hv
      obtain ⟨hmem, hids⟩ := List.mem_filter.mp hv
      obtain ⟨m, hm, hpointer⟩ := List.mem_filterMap.mp (of_decide_eq_true hids)
      obtain ⟨document, hdocument⟩ := exists_forall₂.mp ⟨_, mapM_eq_ok.mp hread⟩ m hm
      exact (version_to_entity_iff (hs.objects v hmem)).mpr
        (((read_iff hs).mp ⟨document, hdocument⟩).version v hmem hpointer)
    obtain ⟨versions, hversions⟩ := hloads
    refine bind_eq_ok.mpr ⟨versions, hversions, bind_eq_ok.mpr ⟨documents, ?_, rfl⟩⟩
    refine mapM_eq_ok.mpr (forall₂_imp_mem (mapM_eq_ok.mp hread) ?_)
    intro m hm document hdocument
    obtain ⟨version, hload, hentity⟩ := read_ok.mp hdocument
    rw [load_batched hversions (hpointers m hm)] at hload
    cases hload
    exact hentity

/-! ### The search for a checksum -/

theorem mem_checksum_rows {tenant_id checksum_sha256 : String} :
    m ∈ checksum_rows t tenant_id checksum_sha256 ↔
      m ∈ t.documents ∧ m.tenant_id = tenant_id ∧ m.deleted_at = none ∧
        ∃ v ∈ t.versions, v.document_id = m.id ∧ v.checksum_sha256 = checksum_sha256 := by
  unfold checksum_rows
  simp only [List.mem_flatMap, List.mem_map, List.mem_filter, decide_eq_true_eq]
  constructor
  · rintro ⟨m', hm', v, ⟨hv, hdocument, hchecksum, htenant, hlive⟩, rfl⟩
    exact ⟨hm', htenant, hlive, v, hv, hdocument, hchecksum⟩
  · rintro ⟨hm, htenant, hlive, v, hv, hdocument, hchecksum⟩
    exact ⟨m, hm, v, ⟨hv, hdocument, hchecksum, htenant, hlive⟩, rfl⟩

/-- The row behind a document that `get_by_checksum` returns. -/
theorem get_by_checksum_row {order : RowOrder} {tenant_id checksum_sha256 : String}
    {document : KnowledgeDocument}
    (h : get_by_checksum read_datetime order t tenant_id checksum_sha256 = .ok (some document)) :
    ∃ m ∈ checksum_rows t tenant_id checksum_sha256, read read_datetime t m = .ok document := by
  unfold get_by_checksum at h
  split at h
  · cases h
  · rename_i m hm
    refine ⟨m, (perm_ordered _ _ _ _).mem_iff.mp (List.mem_of_mem_head? hm), ?_⟩
    rcases hread : read read_datetime t m with e | found
    · rw [hread] at h
      cases h
    · rw [hread] at h
      cases h
      rfl

/-- Where the rows of the join are read, one of them is returned. -/
theorem get_by_checksum_of_mem {tenant_id checksum_sha256 : String} (order : RowOrder)
    (hrows : ∀ m ∈ checksum_rows t tenant_id checksum_sha256,
      ∃ document, read read_datetime t m = .ok document)
    (hm : m ∈ checksum_rows t tenant_id checksum_sha256) :
    ∃ document, get_by_checksum read_datetime order t tenant_id checksum_sha256 =
      .ok (some document) := by
  have hperm := perm_ordered (fun _ _ => true) order KnowledgeDocumentRow.id
    (checksum_rows t tenant_id checksum_sha256)
  obtain ⟨first, hfirst⟩ := Option.isSome_iff_exists.mp
    (List.isSome_head?.mpr (List.ne_nil_of_mem (hperm.mem_iff.mpr hm)))
  obtain ⟨document, hdocument⟩ :=
    hrows first (hperm.mem_iff.mp (List.mem_of_mem_head? hfirst))
  unfold get_by_checksum
  rw [hfirst]
  exact ⟨document, by simp only [hdocument]; rfl⟩

end SqlAlchemyDocumentRepository

/-! ### The jobs -/

/-- The values of the job are ones that its types have. -/
structure JobParses (j : ProcessingJobRow) : Prop where
  job_type : ∃ job_type, JobType.of_value j.job_type = .ok job_type
  status : ∃ status, ProcessingJobStatus.of_value j.status = .ok status

/-- The entity of a job, where each of its values is one of its type. -/
theorem to_entity_ok {j : ProcessingJobRow} {job : ProcessingJob} :
    to_entity j = .ok job ↔
      ∃ job_type status, JobType.of_value j.job_type = .ok job_type ∧
        ProcessingJobStatus.of_value j.status = .ok status ∧
        job = {
          id := j.id
          document_id := j.document_id
          tenant_id := j.tenant_id
          job_type := job_type
          status := status
          version_id := j.version_id
          priority := j.priority
          retry_count := j.retry_count
          progress := j.progress
          worker_name := j.worker_name
          error_message := j.error_message
          started_at := j.started_at
          finished_at := j.finished_at
          created_at := j.created_at
          updated_at := j.updated_at } := by
  unfold to_entity
  rcases JobType.of_value j.job_type with e | job_type
  · simp [bind, Except.bind]
  · rcases ProcessingJobStatus.of_value j.status with e | status
    · simp [bind, Except.bind]
    · simp [bind, Except.bind, pure, Except.pure, eq_comm]

theorem to_entity_iff {j : ProcessingJobRow} :
    (∃ job, to_entity j = .ok job) ↔ JobParses j := by
  constructor
  · rintro ⟨job, h⟩
    obtain ⟨job_type, status, htype, hstatus, _⟩ := to_entity_ok.mp h
    exact ⟨⟨job_type, htype⟩, ⟨status, hstatus⟩⟩
  · rintro ⟨⟨job_type, htype⟩, ⟨status, hstatus⟩⟩
    exact ⟨_, to_entity_ok.mpr ⟨job_type, status, htype, hstatus, rfl⟩⟩

namespace SqlAlchemyProcessingJobRepository

theorem list_jobs_ok {order : RowOrder} {jobs : List ProcessingJobRow} {tenant_id : String}
    {document_id : Option UUID} {status : Option ProcessingJobStatus} {limit offset total : Nat}
    {items : List ProcessingJob} :
    list_jobs order jobs tenant_id document_id status limit offset = .ok (items, total) ↔
      (page limit offset (ordered (fun a b => b.created_at.le a.created_at) order
        ProcessingJobRow.id (jobs.filter (listed tenant_id document_id status)))).mapM to_entity =
          .ok items ∧
        total = (jobs.filter (listed tenant_id document_id status)).length := by
  constructor
  · intro h
    obtain ⟨_, hitems, h⟩ := bind_eq_ok.mp h
    cases h
    exact ⟨hitems, rfl⟩
  · rintro ⟨hitems, rfl⟩
    exact bind_eq_ok.mpr ⟨items, hitems, rfl⟩

end SqlAlchemyProcessingJobRepository

end migrations

end cortex_rag
