-- What the document use cases build from the rows they read: the new
-- document, version and job, and the changed copy of a document.
import CortexRag.Database
import CortexRag.Uploads

namespace cortex_rag

/-! ## Settings and inputs -/

structure ProcessingSettings where
  max_retries : Int := 3
  default_priority : Int := 0

structure ChatSettings where
  history_window : Int := 20
  system_prompt : String := "You are a helpful assistant. Answer only using the provided " ++
    "context. If the context does not contain the answer, say you don't know."

structure Settings where
  upload : UploadSettings := {}
  processing : ProcessingSettings := {}
  chat : ChatSettings := {}

structure UploadDocumentInput where
  tenant_id : String
  original_filename : String
  content : Bytes
  content_type : String
  uploaded_by : Option String := none
  knowledge_space_id : Option UUID := none
deriving DecidableEq

structure AddDocumentVersionInput where
  tenant_id : String
  document_id : UUID
  original_filename : String
  content : Bytes
  content_type : String
  uploaded_by : Option String := none
deriving DecidableEq

structure UpdateDocumentMetadataInput where
  tenant_id : String
  document_id : UUID
  metadata : Option KnowledgeMetadata := none
  title : Option String := none
  knowledge_space_id : Option UUID := none
deriving DecidableEq

structure GetDocumentInput where
  tenant_id : String
  document_id : UUID
deriving DecidableEq

structure CreateProcessingJobInput where
  tenant_id : String
  document_id : UUID
  version_id : Option UUID := none
  job_type : JobType
  priority : Option Int := none
deriving DecidableEq

/-- The error of every use case whose document is not there. -/
def document_not_found (document_id : UUID) : DomainError :=
  .EntityNotFoundError ("Document " ++ document_id.str ++ " not found.")

/-! ## The jobs -/

/-- The job that `CreateProcessingJobUseCase.execute` adds. -/
def CreateProcessingJobUseCase.new_job (settings : ProcessingSettings)
    (data : CreateProcessingJobInput) (id : UUID) (now : DateTime) : ProcessingJob where
  id := id
  document_id := data.document_id
  tenant_id := data.tenant_id
  job_type := data.job_type
  version_id := data.version_id
  status := .Queued
  priority := data.priority.getD settings.default_priority
  created_at := some now
  updated_at := some now

/-- The refusal of a second active job of the same type. -/
def CreateProcessingJobUseCase.conflict (data : CreateProcessingJobInput) (active : ProcessingJob) :
    DomainError :=
  .ConflictError ("An active '" ++ data.job_type.str ++ "' job already exists for document " ++
    data.document_id.str ++ " (id=" ++ active.id.str ++ ").")

/-! ## The documents -/

section Versions

variable (sha256_hex : Bytes → String)

/-- Version 1 of an upload. -/
def UploadDocumentUseCase.new_version (data : UploadDocumentInput) (extension : String)
    (document_id version_id : UUID) (now : DateTime) : KnowledgeDocumentVersion where
  id := version_id
  document_id := document_id
  version_number := 1
  original_filename := data.original_filename
  filename := version_id.str ++ "." ++ extension
  extension := extension
  mime_type := data.content_type
  size := data.content.length
  checksum_sha256 := sha256_hex data.content
  storage_provider := .Local
  storage_path := build_document_version_key data.tenant_id document_id version_id extension now
  uploaded_by := data.uploaded_by
  created_at := some now

/-- The document of an upload. -/
def UploadDocumentUseCase.new_document (data : UploadDocumentInput) (extension : String)
    (document_id : UUID) (version : KnowledgeDocumentVersion) (now : DateTime) :
    KnowledgeDocument where
  id := document_id
  tenant_id := data.tenant_id
  title := data.original_filename
  source_type := SourceType.from_extension extension
  knowledge_space_id := data.knowledge_space_id
  current_version_id := some version.id
  status := .Uploaded
  created_by := data.uploaded_by
  created_at := some now
  updated_at := some now
  active_version := some version

def UploadDocumentUseCase.conflict (checksum : String) (existing : KnowledgeDocument) :
    DomainError :=
  .ConflictError ("Document already exists with checksum " ++ checksum ++
    " (id=" ++ existing.id.str ++ ").")

/-- The job that an upload asks for. -/
def UploadDocumentUseCase.job_input (document : KnowledgeDocument)
    (version : KnowledgeDocumentVersion) : CreateProcessingJobInput where
  tenant_id := document.tenant_id
  document_id := document.id
  version_id := some version.id
  job_type := .DocumentIngestion

/-- `max(v.version_number for v in existing_versions) + 1`, or 1 with none. -/
def AddDocumentVersionUseCase.next_number (existing_versions : List KnowledgeDocumentVersion) :
    Nat :=
  match (existing_versions.map (fun v => v.version_number)).max? with
  | some highest => highest + 1
  | none => 1

/-- The version that `AddDocumentVersionUseCase.execute` adds. -/
def AddDocumentVersionUseCase.new_version (data : AddDocumentVersionInput) (extension : String)
    (document : KnowledgeDocument) (next_number : Nat) (version_id : UUID) (now : DateTime) :
    KnowledgeDocumentVersion where
  id := version_id
  document_id := document.id
  version_number := next_number
  original_filename := data.original_filename
  filename := version_id.str ++ "." ++ extension
  extension := extension
  mime_type := data.content_type
  size := data.content.length
  checksum_sha256 := sha256_hex data.content
  storage_provider := .Local
  storage_path := build_document_version_key data.tenant_id document.id version_id extension now
  uploaded_by := data.uploaded_by
  created_at := some now

end Versions

/-- The copy that `AddDocumentVersionUseCase.execute` writes back. -/
def AddDocumentVersionUseCase.pointed (document : KnowledgeDocument) (version_id : UUID) :
    KnowledgeDocument := { document with current_version_id := some version_id }

/-- The copy that `UpdateDocumentMetadataUseCase.execute` writes back. -/
def UpdateDocumentMetadataUseCase.merged (data : UpdateDocumentMetadataInput)
    (document : KnowledgeDocument) : KnowledgeDocument :=
  { document with
    metadata := data.metadata.getD document.metadata
    title := data.title.getD document.title
    knowledge_space_id := data.knowledge_space_id.or document.knowledge_space_id }

/-- The copy that `DeleteDocumentUseCase.execute` writes back. -/
def DeleteDocumentUseCase.marked (now : DateTime) (document : KnowledgeDocument) :
    KnowledgeDocument := { document with status := .Deleted, deleted_at := some now }

/-- The copy that `ProcessDocumentUseCase.execute` writes back. -/
def ProcessDocumentUseCase.processed (document : KnowledgeDocument) : KnowledgeDocument :=
  { document with status := .Processed }

/-- The refusal of a document without an active version. -/
def ProcessDocumentUseCase.no_active_version (document_id : UUID) : DomainError :=
  .ValidationError ("Document " ++ document_id.str ++ " has no active version to process.")

/-- The refusal of a document that is not there. -/
def ProcessDocumentUseCase.not_found (tenant_id : String) (document_id : UUID) : DomainError :=
  .EntityNotFoundError ("Document " ++ document_id.str ++ " not found for tenant " ++
    tenant_id ++ ".")

/-! ## What a use case reads first -/

/-- The check that a job of the type may be created. -/
def CreateProcessingJobUseCase.check (order : RowOrder) (jobs : List ProcessingJobModel)
    (data : CreateProcessingJobInput) : Except PyException Unit :=
  match SqlAlchemyProcessingJobRepository.get_active_by_type order jobs data.document_id
      data.job_type with
  | some active => .error (.Domain (CreateProcessingJobUseCase.conflict data active))
  | none => .ok ()

/-- The checks of an upload: the policy, then the search for a duplicate. -/
def UploadDocumentUseCase.check (sha256_hex : Bytes → String) (settings : UploadSettings)
    (order : RowOrder) (db : Database) (data : UploadDocumentInput) :
    Except PyException String :=
  match validate_upload settings data.original_filename data.content data.content_type with
  | .error e => .error (.Domain e)
  | .ok extension =>
    match SqlAlchemyDocumentRepository.get_by_checksum order db data.tenant_id
        (sha256_hex data.content) with
    | some existing =>
      .error (.Domain (UploadDocumentUseCase.conflict (sha256_hex data.content) existing))
    | none => .ok extension

/-- The checks of a new version: the document, then the policy. -/
def AddDocumentVersionUseCase.check (settings : UploadSettings) (db : Database)
    (data : AddDocumentVersionInput) : Except PyException (KnowledgeDocument × String) :=
  match SqlAlchemyDocumentRepository.get db data.tenant_id data.document_id with
  | none => .error (.Domain (document_not_found data.document_id))
  | some document =>
    match validate_upload settings data.original_filename data.content data.content_type with
    | .error e => .error (.Domain e)
    | .ok extension => .ok (document, extension)

/-- The document of a metadata update or of a deletion. -/
def load_document (db : Database) (tenant_id : String) (document_id : UUID) :
    Except PyException KnowledgeDocument :=
  match SqlAlchemyDocumentRepository.get db tenant_id document_id with
  | none => .error (.Domain (document_not_found document_id))
  | some document => .ok document

/-- The document of an ingestion run, with its active version. -/
def ProcessDocumentUseCase.load (db : Database) (tenant_id : String) (document_id : UUID) :
    Except PyException (KnowledgeDocument × KnowledgeDocumentVersion) :=
  match SqlAlchemyDocumentRepository.get db tenant_id document_id with
  | none => .error (.Domain (ProcessDocumentUseCase.not_found tenant_id document_id))
  | some document =>
    match document.active_version with
    | none => .error (.Domain (ProcessDocumentUseCase.no_active_version document_id))
    | some version => .ok (document, version)

/-- The rows that an upload inserts: the version, the document and the job. -/
def UploadDocumentUseCase.insert (settings : ProcessingSettings) (order : RowOrder)
    (db : Database) (now db_now : DateTime) (document : KnowledgeDocument)
    (version : KnowledgeDocumentVersion) (job_id : UUID) :
    Except PyException Database := do
  let db ← SqlAlchemyDocumentRepository.add db db_now document version
  let data := UploadDocumentUseCase.job_input document version
  CreateProcessingJobUseCase.check order db.jobs data
  let job := CreateProcessingJobUseCase.new_job settings data job_id now
  return { db with jobs := SqlAlchemyProcessingJobRepository.add db.jobs db_now job }

/-! ### What the checks have found -/

theorem UploadDocumentUseCase.check_ok {sha256_hex : Bytes → String} {settings : UploadSettings}
    {order : RowOrder} {db : Database} {data : UploadDocumentInput} {extension : String}
    (h : UploadDocumentUseCase.check sha256_hex settings order db data = .ok extension) :
    '.' ∉ extension.toList ∧ SqlAlchemyDocumentRepository.get_by_checksum order db data.tenant_id
      (sha256_hex data.content) = none := by
  unfold UploadDocumentUseCase.check at h
  split at h
  · cases h
  · rename_i e he
    split at h
    · cases h
    · rename_i hnone
      cases h
      exact ⟨validate_upload_no_dot he, hnone⟩

theorem AddDocumentVersionUseCase.check_ok {settings : UploadSettings} {db : Database}
    {data : AddDocumentVersionInput} {document : KnowledgeDocument} {extension : String}
    (h : AddDocumentVersionUseCase.check settings db data = .ok (document, extension)) :
    '.' ∉ extension.toList ∧
      SqlAlchemyDocumentRepository.get db data.tenant_id data.document_id = some document := by
  unfold AddDocumentVersionUseCase.check at h
  split at h
  · cases h
  · rename_i d hd
    split at h
    · cases h
    · rename_i e he
      cases h
      exact ⟨validate_upload_no_dot he, hd⟩

theorem load_document_ok {db : Database} {tenant_id : String} {document_id : UUID}
    {document : KnowledgeDocument} (h : load_document db tenant_id document_id = .ok document) :
    SqlAlchemyDocumentRepository.get db tenant_id document_id = some document := by
  unfold load_document at h
  split at h
  · cases h
  · rename_i d hd
    cases h
    exact hd

theorem ProcessDocumentUseCase.load_ok {db : Database} {tenant_id : String} {document_id : UUID}
    {document : KnowledgeDocument} {version : KnowledgeDocumentVersion}
    (h : ProcessDocumentUseCase.load db tenant_id document_id = .ok (document, version)) :
    SqlAlchemyDocumentRepository.get db tenant_id document_id = some document ∧
      document.active_version = some version := by
  unfold ProcessDocumentUseCase.load at h
  split at h
  · cases h
  · rename_i d hd
    split at h
    · cases h
    · rename_i v hv
      cases h
      exact ⟨hd, hv⟩

/-- The number of a new version is above those of the versions before it. -/
theorem AddDocumentVersionUseCase.lt_next_number {db : Database} {d : UUID}
    {v : KnowledgeDocumentVersionModel} (hv : v ∈ db.versions) (hd : v.document_id = d) :
    v.version_number <
      AddDocumentVersionUseCase.next_number (SqlAlchemyDocumentRepository.list_versions db d) := by
  have hlisted : v.version_number ∈
      (SqlAlchemyDocumentRepository.list_versions db d).map (fun v => v.version_number) := by
    unfold SqlAlchemyDocumentRepository.list_versions
    rw [List.map_map]
    refine List.mem_map.mpr ⟨v, ?_, rfl⟩
    rw [List.mem_insertionSort]
    exact List.mem_filter.mpr ⟨hv, by simp [hd]⟩
  unfold AddDocumentVersionUseCase.next_number
  split
  · rename_i highest hmax
    have := (List.max?_eq_some_iff.mp hmax).2 _ hlisted
    omega
  · rename_i hnone
    rw [List.max?_eq_none_iff] at hnone
    rw [hnone] at hlisted
    cases hlisted

/-- The number of a new version is free. -/
theorem AddDocumentVersionUseCase.next_number_fresh {db : Database} {d : UUID} :
    (d, AddDocumentVersionUseCase.next_number (SqlAlchemyDocumentRepository.list_versions db d)) ∉
      db.versions.map KnowledgeDocumentVersionModel.number_key := by
  intro hin
  obtain ⟨v, hv, he⟩ := List.mem_map.mp hin
  simp only [KnowledgeDocumentVersionModel.number_key, Prod.mk.injEq] at he
  have := AddDocumentVersionUseCase.lt_next_number hv he.1
  omega

/-- No job stands in the way of the first job of a document. -/
theorem CreateProcessingJobUseCase.check_of_no_job {order : RowOrder}
    {jobs : List ProcessingJobModel} {data : CreateProcessingJobInput}
    (h : ∀ j ∈ jobs, j.document_id ≠ data.document_id) :
    CreateProcessingJobUseCase.check order jobs data = .ok () := by
  have hnone : jobs.filter
      (SqlAlchemyProcessingJobRepository.active_by_type data.document_id data.job_type) = [] := by
    rw [List.filter_eq_nil_iff]
    intro j hj hactive
    simp only [SqlAlchemyProcessingJobRepository.active_by_type, decide_eq_true_eq] at hactive
    exact h j hj hactive.1
  unfold CreateProcessingJobUseCase.check SqlAlchemyProcessingJobRepository.get_active_by_type
  rw [hnone]
  rfl

/-- The tables with the rows of an upload. -/
def UploadDocumentUseCase.inserted (settings : ProcessingSettings) (db : Database)
    (now db_now : DateTime) (document : KnowledgeDocument) (version : KnowledgeDocumentVersion)
    (job_id : UUID) : Database :=
  { db with
    versions := db.versions ++ [version_to_model db_now version]
    documents := db.documents ++ [doc_to_model db_now document]
    jobs := SqlAlchemyProcessingJobRepository.add db.jobs db_now
      (CreateProcessingJobUseCase.new_job settings
        (UploadDocumentUseCase.job_input document version) job_id now) }

theorem UploadDocumentUseCase.insert_iff {settings : ProcessingSettings} {order : RowOrder}
    {db db' : Database} {now db_now : DateTime} {document : KnowledgeDocument}
    {version : KnowledgeDocumentVersion} {job_id : UUID} :
    UploadDocumentUseCase.insert settings order db now db_now document version job_id = .ok db' ↔
      (version_to_model db_now version).number_key ∉
          db.versions.map KnowledgeDocumentVersionModel.number_key ∧
        CreateProcessingJobUseCase.check order db.jobs
          (UploadDocumentUseCase.job_input document version) = .ok () ∧
        db' = UploadDocumentUseCase.inserted settings db now db_now document version job_id := by
  unfold UploadDocumentUseCase.insert
  simp only [bind, Except.bind, pure, Except.pure]
  split
  · rename_i e h1
    simp only [reduceCtorEq, false_iff, not_and]
    intro hk
    rw [SqlAlchemyDocumentRepository.add_ok.mpr ⟨hk, rfl⟩] at h1
    cases h1
  · rename_i db1 h1
    obtain ⟨hk, rfl⟩ := SqlAlchemyDocumentRepository.add_ok.mp h1
    split
    · rename_i e hcheck
      simp only [reduceCtorEq, false_iff, not_and]
      intro _ hok
      rw [hok] at hcheck
      cases hcheck
    · rename_i hcheck
      simp only [Except.ok.injEq, hk, not_false_eq_true, hcheck, true_and]
      exact eq_comm

theorem UploadDocumentUseCase.insert_ok {settings : ProcessingSettings} {order : RowOrder}
    {db db' : Database}
    {now db_now : DateTime} {document : KnowledgeDocument} {version : KnowledgeDocumentVersion}
    {job_id : UUID}
    (h : UploadDocumentUseCase.insert settings order db now db_now document version job_id =
      .ok db') :
    (version_to_model db_now version).number_key ∉
        db.versions.map KnowledgeDocumentVersionModel.number_key ∧
      ∃ jobs, db' = { db with
        versions := db.versions ++ [version_to_model db_now version]
        documents := db.documents ++ [doc_to_model db_now document]
        jobs } := by
  obtain ⟨hk, _, hdb⟩ := UploadDocumentUseCase.insert_iff.mp h
  exact ⟨hk, _, hdb⟩

end cortex_rag
