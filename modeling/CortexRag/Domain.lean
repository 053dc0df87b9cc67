-- The values of the domain layer: documents and their versions, the events,
-- the errors, and the values that the vector store and the chat pass around.
import CortexRag.Text

namespace cortex_rag

/-! ## Time and bytes -/

/-- A `datetime` in UTC: the month it lies in, and the microseconds since the
month began. -/
structure DateTime where
  year : Nat
  month : Nat
  micros : Nat
  year_in_range : 1 ≤ year ∧ year ≤ 9999
  month_in_range : 1 ≤ month ∧ month ≤ 12
deriving DecidableEq

/-- `a ≤ b` on datetimes. -/
def DateTime.le (a b : DateTime) : Bool :=
  decide (a.year < b.year ∨ (a.year = b.year ∧
    (a.month < b.month ∨ (a.month = b.month ∧ a.micros ≤ b.micros))))

/-- The time of the runs on fixed inputs. -/
def noon : DateTime :=
  { year := 2026, month := 3, micros := 0, year_in_range := by decide
    month_in_range := by decide }

abbrev Bytes := List UInt8

/-! ## Errors -/

/-- The domain errors, with their message. -/
inductive DomainError where
  | EntityNotFoundError (message : String)
  | ValidationError (message : String)
  | ConflictError (message : String)
  | ServiceUnavailableError (message : String)
deriving DecidableEq

def DomainError.message : DomainError → String
  | .EntityNotFoundError m => m
  | .ValidationError m => m
  | .ConflictError m => m
  | .ServiceUnavailableError m => m

/-- An exception that leaves a call: a domain error, or any other one with
its text. -/
inductive PyException where
  | Domain (error : DomainError)
  | Other (text : String)
deriving DecidableEq

/-- `str(exc)`. -/
def PyException.str : PyException → String
  | .Domain e => e.message
  | .Other text => text

/-! ## Documents -/

inductive DocumentStatus where
  | Uploaded | Processing | Processed | Failed | Deleted
deriving DecidableEq

inductive StorageProviderKind where
  | Local | S3
deriving DecidableEq

inductive SecurityLevel where
  | Public | Internal | Confidential | Restricted | Secret
deriving DecidableEq

inductive SourceType where
  | Pdf | Word | Excel | Powerpoint | Markdown | Text | Html | Image | Email
  | Notion | Confluence | Github | Database | Api | Web
deriving DecidableEq

def EXTENSION_MAP : List (String × SourceType) :=
  [("pdf", .Pdf), ("doc", .Word), ("docx", .Word), ("rtf", .Word), ("xls", .Excel),
    ("xlsx", .Excel), ("csv", .Excel), ("ppt", .Powerpoint), ("pptx", .Powerpoint),
    ("md", .Markdown), ("markdown", .Markdown), ("txt", .Text), ("html", .Html),
    ("htm", .Html), ("png", .Image), ("jpg", .Image), ("jpeg", .Image), ("gif", .Image),
    ("webp", .Image), ("tiff", .Image), ("eml", .Email), ("msg", .Email)]

/-- `extension.lstrip(".").lower()`. -/
def normalized_extension (extension : String) : String :=
  String.ofList (lower (extension.toList.dropWhile (fun c => c = '.')))

def SourceType.from_extension (extension : String) : SourceType :=
  (EXTENSION_MAP.lookup (normalized_extension extension)).getD .Text

structure KnowledgeMetadata where
  language : Option String := none
  author : Option String := none
  organization : Option String := none
  department : Option String := none
  category : Option String := none
  tags : List String := []
  keywords : List String := []
  security_level : Option SecurityLevel := none
  retention_policy : Option String := none
  created_by_application : Option String := none
  document_created_at : Option DateTime := none
  document_modified_at : Option DateTime := none
  custom_properties : List (String × String) := []
deriving DecidableEq

structure KnowledgeDocumentVersion where
  id : UUID
  document_id : UUID
  version_number : Nat
  original_filename : String
  filename : String
  extension : String
  mime_type : String
  size : Nat
  checksum_sha256 : String
  storage_provider : StorageProviderKind
  storage_path : String
  page_count : Option Nat := none
  metadata : List (String × String) := []
  uploaded_by : Option String := none
  created_at : Option DateTime := none
deriving DecidableEq

structure KnowledgeDocument where
  id : UUID
  tenant_id : String
  title : String
  source_type : SourceType
  knowledge_space_id : Option UUID := none
  current_version_id : Option UUID := none
  status : DocumentStatus := .Uploaded
  metadata : KnowledgeMetadata := {}
  created_by : Option String := none
  created_at : Option DateTime := none
  updated_at : Option DateTime := none
  deleted_at : Option DateTime := none
  active_version : Option KnowledgeDocumentVersion := none
deriving DecidableEq

/-! ## Events -/

inductive JobType where
  | DocumentIngestion | RenderPages | Ocr | Chunking | GenerateEmbeddings | Reindex | DeleteIndex
deriving DecidableEq

/-- `str(job_type)`. -/
def JobType.str : JobType → String
  | .DocumentIngestion => "document_ingestion"
  | .RenderPages => "render_pages"
  | .Ocr => "ocr"
  | .Chunking => "chunking"
  | .GenerateEmbeddings => "generate_embeddings"
  | .Reindex => "reindex"
  | .DeleteIndex => "delete_index"

/-- The domain events, without the id and the time that each event gets. -/
inductive DomainEvent where
  | DocumentUploaded (document_id : UUID) (tenant_id : String) (version_id : UUID)
      (version_number : Nat) (checksum_sha256 : String)
  | DocumentVersionAdded (document_id : UUID) (tenant_id : String) (version_id : UUID)
      (version_number : Nat) (checksum_sha256 : String)
  | DocumentDeleted (document_id : UUID) (tenant_id : String)
  | DocumentMetadataUpdated (document_id : UUID) (tenant_id : String)
      (metadata : KnowledgeMetadata)
  | ProcessingJobCreated (job_id document_id : UUID) (tenant_id job_type : String)
  | ProcessingJobStarted (job_id document_id : UUID) (tenant_id worker_name : String)
  | ProcessingJobCompleted (job_id document_id : UUID) (tenant_id : String)
  | ProcessingJobFailed (job_id document_id : UUID) (tenant_id error_message : String)
      (retry_count : Nat)
deriving DecidableEq

/-- The job that an event is about. -/
def DomainEvent.job_id : DomainEvent → Option UUID
  | .ProcessingJobCreated job_id _ _ _ => some job_id
  | .ProcessingJobStarted job_id _ _ _ => some job_id
  | .ProcessingJobCompleted job_id _ _ => some job_id
  | .ProcessingJobFailed job_id _ _ _ _ => some job_id
  | _ => none

/-- A message of the job queue. -/
structure Message where
  tenant_id : String
  job_id : UUID
deriving DecidableEq

/-! ## Text, vectors and chat -/

structure ParsedDocument where
  text : String
  page_count : Nat
  metadata : List (String × String) := []

structure ChunkingConfig where
  chunk_size : Nat := 1000
  chunk_overlap : Nat := 200

structure TextChunk where
  index : Nat
  content : String
deriving DecidableEq

/-- A Python `float` by its bits. The service stores and passes on the floats
of a vector and never computes with them. -/
structure PyFloat where
  bits : UInt64
deriving DecidableEq

abbrev Vector := List PyFloat

inductive EmbeddingTaskType where
  | Document | Query
deriving DecidableEq

/-- The payload of a point, with the keys that `ProcessDocumentUseCase` writes. -/
structure Payload where
  tenant_id : String
  document_id : String
  chunk_index : Nat
  content : String
deriving DecidableEq

structure VectorPoint where
  id : UUID
  vector : Vector
  payload : Payload
deriving DecidableEq

structure SearchResult where
  id : UUID
  score : PyFloat
  payload : Payload
deriving DecidableEq

inductive Role where
  | System | User | Assistant
deriving DecidableEq

structure LLMMessage where
  role : Role
  content : String
deriving DecidableEq

/-- A message of a conversation, `Message` of the conversations context. -/
structure ChatMessage where
  id : UUID
  role : Role
  content : String
  created_at : Option DateTime := none
deriving DecidableEq

structure Conversation where
  id : UUID
  tenant_id : String
  messages : List ChatMessage := []
  created_at : Option DateTime := none
  updated_at : Option DateTime := none
deriving DecidableEq

end cortex_rag
