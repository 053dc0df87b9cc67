-- The service as one system: the use cases as programs over the database, the
-- blobs, the vector index, the job queue and the events. A program that fails
-- gives the database back its rows and leaves the other stores as they are.
import CortexRag.Programs
import CortexRag.Chat
import CortexRag.Workers

open keyed_rows state_programs

namespace cortex_rag

/-! ## The stores and the providers -/

/-- Everything that outlives a call, with the prompts that the LLM has been
sent and the ids that `uuid4` has given out. -/
structure World where
  db : Database := {}
  blobs : Blobs := fun _ => none
  points : List VectorPoint := []
  queue : List Message := []
  events : List DomainEvent := []
  prompts : List (List LLMMessage) := []
  issued : List UUID := []

/-- What ends a call early: an exception, which the code may catch, or the end
of the process. -/
inductive Interruption where
  | Raised (exception : PyException)
  | Crashed
deriving DecidableEq

/-- The packages and services that the code calls, as functions of their input.
A filtered search returns points among those of the filter, and its answer does
not depend on the order in which the points are stored. -/
structure Providers where
  sha256_hex : Bytes → String
  uuid5 : String → UUID
  missing_blob : String → DomainError
  parse : Bytes → String → Except PyException ParsedDocument
  split_text : ChunkingConfig → String → List String
  embed : EmbeddingTaskType → List String → Except PyException (List Vector)
  nearest : List VectorPoint → Vector → Nat → List (VectorPoint × PyFloat)
  nearest_among : ∀ points vector limit, ∀ hit ∈ nearest points vector limit, hit.1 ∈ points
  nearest_settled : ∀ points points' vector limit, Keyed VectorPoint.id points →
    points.Perm points' → nearest points vector limit = nearest points' vector limit

/-- The results of `uuid4` in one call, by what they name. -/
structure FreshIds where
  document : UUID
  version : UUID
  job : UUID
  conversation : UUID
  question : UUID
  answer : UUID

def FreshIds.all (ids : FreshIds) : List UUID :=
  [ids.document, ids.version, ids.job, ids.conversation, ids.question, ids.answer]

/-- The circumstances of one call: the order of the rows, the clock readings,
the new ids, the LLM, and which of the calls to the outside fail. -/
structure Moment where
  order : RowOrder := fun _ => 0
  clock : Nat → DateTime
  db_now : DateTime
  ids : FreshIds
  complete : List LLMMessage → Except PyException String
  faults : List (Option Interruption) := []

/-- The state of a running call. `broken` is a database session that an error
has left unusable. -/
structure Call where
  world : World
  faults : List (Option Interruption) := []
  broken : Bool := false

abbrev Service (α : Type) := Program Call Interruption α

/-! ## The calls to the outside -/

def PendingRollbackError : PyException := .Other "PendingRollbackError"

/-- The place of a call to the outside, where the next fault may strike. -/
def external : Service Unit := fun c =>
  match c.faults with
  | some fault :: faults => (.error fault, { c with faults })
  | _ => (.ok (), { c with faults := c.faults.tail })

def of_except {α : Type} (x : Except PyException α) : Service α := fun c =>
  match x with
  | .ok a => (.ok a, c)
  | .error e => (.error (.Raised e), c)

def of_domain {α : Type} (x : Except DomainError α) : Service α :=
  of_except (x.mapError PyException.Domain)

/-- A statement of the database session. An error leaves the session broken. -/
def statement {α : Type} (f : Database → Except PyException (α × Database)) : Service α := fun c =>
  if c.broken then (.error (.Raised PendingRollbackError), c)
  else
    match external c with
    | (.error e, c) => (.error e, { c with broken := true })
    | (.ok (), c) =>
      match f c.world.db with
      | .error e => (.error (.Raised e), { c with broken := true })
      | .ok (a, db) => (.ok a, { c with world := { c.world with db } })

def query {α : Type} (f : Database → α) : Service α := statement (fun db => .ok (f db, db))

def write (f : Database → Except PyException Database) : Service Unit :=
  statement (fun db => (f db).map (fun db => ((), db)))

/-- `Database.session`: a commit after `p`, or a rollback. -/
def session {α : Type} (p : Service α) : Service α := fun c =>
  match (do let a ← p; write .ok; return a : Service α) c with
  | (.ok a, d) => (.ok a, d)
  | (.error e, d) => (.error e, { d with world := { d.world with db := c.world.db } })

/-- An effect on the stores that no rollback covers. -/
def effect (f : World → World) : Service Unit := do
  external
  change (fun c => { c with world := f c.world })

def publish (event : DomainEvent) : Service Unit :=
  effect (fun w => { w with events := w.events ++ [event] })

def enqueue (message : Message) : Service Unit :=
  effect (fun w => { w with queue := w.queue ++ [message] })

namespace StorageProvider

def save (key : String) (content : Bytes) : Service Unit :=
  effect (fun w => { w with blobs := w.blobs.save key content })

def load (P : Providers) (key : String) : Service Bytes := do
  external
  look (fun c =>
    match c.world.blobs key with
    | some content => .ok content
    | none => .error (.Raised (.Domain (P.missing_blob key))))

end StorageProvider

namespace QdrantVectorRepository

/-- `upsert`: each point takes the place of the point with its id, or comes in. -/
def upsert (points : List VectorPoint) : Service Unit :=
  effect (fun w => { w with points := points.foldl (keyed_rows.upsert VectorPoint.id) w.points })

/-- The points that the filter on the payload lets through. -/
def filtered (points : List VectorPoint) (tenant_id : String) : List VectorPoint :=
  points.filter (fun p => p.payload.tenant_id = tenant_id)

/-- `search` with the filter on `tenant_id`. -/
def search (P : Providers) (vector : Vector) (limit : Nat) (tenant_id : String) :
    Service (List SearchResult) := do
  external
  look (fun c =>
    .ok ((P.nearest (filtered c.world.points tenant_id) vector limit).map
      (fun hit => { id := hit.1.id, score := hit.2, payload := hit.1.payload })))

end QdrantVectorRepository

namespace FastEmbedEmbeddingProvider

def embed_batch (P : Providers) (texts : List String) (task_type : EmbeddingTaskType) :
    Service (List Vector) := do
  external
  of_except (P.embed task_type texts)

def embed_text (P : Providers) (text : String) (task_type : EmbeddingTaskType) :
    Service Vector := do
  match ← embed_batch P [text] task_type with
  | vector :: _ => return vector
  | [] => raise (.Raised (.Other "list index out of range"))

end FastEmbedEmbeddingProvider

/-- `RecursiveChunkingStrategy.split`. -/
def RecursiveChunkingStrategy.split (P : Providers) (text : String) (config : ChunkingConfig) :
    List TextChunk :=
  (P.split_text config text).zipIdx.map (fun c => { index := c.2, content := c.1 })

/-! ## Documents -/

structure DocumentView where
  id : UUID
  tenant_id : String
  knowledge_space_id : Option UUID
  title : String
  source_type : SourceType
  status : DocumentStatus
  metadata : KnowledgeMetadata
  created_by : Option String
  created_at : Option DateTime
  updated_at : Option DateTime
  current_version_id : Option UUID
  version_number : Option Nat
  original_filename : Option String
  filename : Option String
  extension : Option String
  mime_type : Option String
  size : Option Nat
  checksum_sha256 : Option String
  storage_provider : Option StorageProviderKind
  storage_path : Option String
  page_count : Option Nat
  uploaded_by : Option String
deriving DecidableEq

def DocumentView.from_document (document : KnowledgeDocument) : DocumentView :=
  let v := document.active_version
  { id := document.id
    tenant_id := document.tenant_id
    knowledge_space_id := document.knowledge_space_id
    title := document.title
    source_type := document.source_type
    status := document.status
    metadata := document.metadata
    created_by := document.created_by
    created_at := document.created_at
    updated_at := document.updated_at
    current_version_id := document.current_version_id
    version_number := v.map (fun v => v.version_number)
    original_filename := v.map (fun v => v.original_filename)
    filename := v.map (fun v => v.filename)
    extension := v.map (fun v => v.extension)
    mime_type := v.map (fun v => v.mime_type)
    size := v.map (fun v => v.size)
    checksum_sha256 := v.map (fun v => v.checksum_sha256)
    storage_provider := v.map (fun v => v.storage_provider)
    storage_path := v.map (fun v => v.storage_path)
    page_count := v.bind (fun v => v.page_count)
    uploaded_by := v.bind (fun v => v.uploaded_by) }

/-- `DocumentVersionView`: the fields of the version. -/
abbrev DocumentVersionView := KnowledgeDocumentVersion

/-- `JobView`: the fields of the job. -/
abbrev JobView := ProcessingJob

structure ListDocumentsInput where
  tenant_id : String
  knowledge_space_id : Option UUID := none
  limit : Nat := 50
  offset : Nat := 0
  limit_in_range : 0 < limit ∧ limit ≤ 200 := by decide

structure ListJobsInput where
  tenant_id : String
  document_id : Option UUID := none
  status : Option ProcessingJobStatus := none
  limit : Nat := 50
  offset : Nat := 0
  limit_in_range : 0 < limit ∧ limit ≤ 200 := by decide

/-- A page of documents or of jobs, with the number of all of them. -/
structure Paged (α : Type) where
  items : List α
  total : Nat
  limit : Nat
  offset : Nat
deriving DecidableEq

structure GetJobInput where
  tenant_id : String
  job_id : UUID

section UseCases

variable (P : Providers) (settings : Settings) (m : Moment)

/-- `reading` is the number of the clock reading. -/
def CreateProcessingJobUseCase.execute (reading : Nat) (data : CreateProcessingJobInput) :
    Service JobView := do
  of_except (← query (fun db => CreateProcessingJobUseCase.check m.order db.jobs data))
  let job := CreateProcessingJobUseCase.new_job settings.processing data m.ids.job (m.clock reading)
  write (fun db =>
    .ok { db with jobs := SqlAlchemyProcessingJobRepository.add db.jobs m.db_now job })
  publish (.ProcessingJobCreated job.id job.document_id job.tenant_id job.job_type.str)
  enqueue (WorkerExecutor.message job)
  return job

def UploadDocumentUseCase.execute (data : UploadDocumentInput) : Service DocumentView := do
  let extension ← of_domain (validate_upload settings.upload data.original_filename data.content
    data.content_type)
  let checksum := P.sha256_hex data.content
  match ← query (fun db => SqlAlchemyDocumentRepository.get_by_checksum m.order db data.tenant_id
    checksum) with
  | some existing => raise (.Raised (.Domain (UploadDocumentUseCase.conflict checksum existing)))
  | none =>
    let version := UploadDocumentUseCase.new_version P.sha256_hex data extension m.ids.document
      m.ids.version (m.clock 0)
    let document := UploadDocumentUseCase.new_document data extension m.ids.document version
      (m.clock 0)
    StorageProvider.save version.storage_path data.content
    write (fun db => SqlAlchemyDocumentRepository.add db m.db_now document version)
    publish (.DocumentUploaded document.id document.tenant_id version.id version.version_number
      checksum)
    let _ ← CreateProcessingJobUseCase.execute settings m 1
      (UploadDocumentUseCase.job_input document version)
    return DocumentView.from_document document

def AddDocumentVersionUseCase.execute (data : AddDocumentVersionInput) :
    Service DocumentVersionView := do
  let (document, extension) ← of_except (← query (fun db =>
    AddDocumentVersionUseCase.check settings.upload db data))
  let existing_versions ← query (fun db =>
    SqlAlchemyDocumentRepository.list_versions db document.id)
  let version := AddDocumentVersionUseCase.new_version P.sha256_hex data extension document
    (AddDocumentVersionUseCase.next_number existing_versions) m.ids.version (m.clock 0)
  StorageProvider.save version.storage_path data.content
  write (fun db => SqlAlchemyDocumentRepository.add_version db m.db_now
    (AddDocumentVersionUseCase.pointed document version.id) version)
  publish (.DocumentVersionAdded document.id document.tenant_id version.id version.version_number
    version.checksum_sha256)
  return version

def GetDocumentUseCase.execute (data : GetDocumentInput) : Service DocumentView := do
  let document ← of_except (← query (fun db => load_document db data.tenant_id data.document_id))
  return DocumentView.from_document document

def ListDocumentsUseCase.execute (data : ListDocumentsInput) : Service (Paged DocumentView) := do
  let (items, total) ← query (fun db => SqlAlchemyDocumentRepository.list_documents m.order db
    data.tenant_id data.knowledge_space_id data.limit data.offset)
  return {
    items := items.map DocumentView.from_document
    total
    limit := data.limit
    offset := data.offset }

def ListDocumentVersionsUseCase.execute (data : GetDocumentInput) :
    Service (List DocumentVersionView) := do
  let document ← of_except (← query (fun db => load_document db data.tenant_id data.document_id))
  query (fun db => SqlAlchemyDocumentRepository.list_versions db document.id)

def UpdateDocumentMetadataUseCase.execute (data : UpdateDocumentMetadataInput) :
    Service DocumentView := do
  let document ← of_except (← query (fun db => load_document db data.tenant_id data.document_id))
  let document := UpdateDocumentMetadataUseCase.merged data document
  write (fun db => .ok (SqlAlchemyDocumentRepository.update db m.db_now document))
  publish (.DocumentMetadataUpdated document.id document.tenant_id document.metadata)
  return DocumentView.from_document document

def DeleteDocumentUseCase.execute (data : GetDocumentInput) : Service Unit := do
  let document ← of_except (← query (fun db => load_document db data.tenant_id data.document_id))
  let document := DeleteDocumentUseCase.marked (m.clock 0) document
  write (fun db => .ok (SqlAlchemyDocumentRepository.update db m.db_now document))
  publish (.DocumentDeleted document.id document.tenant_id)

/-! ## Ingestion -/

/-- The name that `_chunk_vector_id` hashes. -/
def chunk_name (document_id : UUID) (chunk_index : Nat) : String :=
  "knowledge-chunk:" ++ document_id.str ++ ":" ++ toString chunk_index

/-- `_chunk_vector_id`. -/
def chunk_vector_id (document_id : UUID) (chunk_index : Nat) : UUID :=
  P.uuid5 (chunk_name document_id chunk_index)

namespace ProcessDocumentUseCase

/-- The point of a chunk. -/
def point (tenant_id : String) (document_id : UUID) (chunk : TextChunk) (vector : Vector) :
    VectorPoint where
  id := chunk_vector_id P document_id chunk.index
  vector := vector
  payload := {
    tenant_id
    document_id := document_id.str
    chunk_index := chunk.index
    content := chunk.content }

/-- `zip(chunks, vectors, strict=True)`, as points. -/
def points_of (tenant_id : String) (document_id : UUID) (chunks : List TextChunk)
    (vectors : List Vector) : Except PyException (List VectorPoint) :=
  if chunks.length = vectors.length then
    .ok (List.zipWith (point P tenant_id document_id) chunks vectors)
  else .error (.Other ("zip() argument 2 is " ++
    (if vectors.length < chunks.length then "shorter" else "longer") ++ " than argument 1"))

/-- The index of the chunks of a document. With no chunk nothing is stored. -/
def index_chunks (tenant_id : String) (document_id : UUID) (chunks : List TextChunk) :
    Service Unit := do
  if chunks ≠ [] then
    let vectors ← FastEmbedEmbeddingProvider.embed_batch P (chunks.map (fun c => c.content))
      .Document
    let points ← of_except (points_of P tenant_id document_id chunks vectors)
    QdrantVectorRepository.upsert points

def execute (tenant_id : String) (document_id : UUID) : Service Unit := do
  let (document, version) ← of_except (← query (fun db =>
    ProcessDocumentUseCase.load db tenant_id document_id))
  let content ← StorageProvider.load P version.storage_path
  external
  let parsed ← of_except (P.parse content version.mime_type)
  index_chunks P tenant_id document.id (RecursiveChunkingStrategy.split P parsed.text {})
  write (fun db =>
    .ok (SqlAlchemyDocumentRepository.update db m.db_now (processed document)))

end ProcessDocumentUseCase

/-! ## Jobs -/

def GetProcessingJobUseCase.execute (data : GetJobInput) : Service JobView := do
  match ← query (fun db =>
    SqlAlchemyProcessingJobRepository.get db.jobs data.tenant_id data.job_id) with
  | none => raise (.Raised (.Domain (.EntityNotFoundError
      ("Processing job " ++ data.job_id.str ++ " not found."))))
  | some job => return job

def ListProcessingJobsUseCase.execute (data : ListJobsInput) : Service (Paged JobView) := do
  let (items, total) ← query (fun db => SqlAlchemyProcessingJobRepository.list_jobs m.order db.jobs
    data.tenant_id data.document_id data.status data.limit data.offset)
  return { items, total, limit := data.limit, offset := data.offset }

/-- `IngestionWorker.run`. -/
def IngestionWorker.run (job : ProcessingJob) : Service Unit :=
  ProcessDocumentUseCase.execute P m job.tenant_id job.document_id

/-- `_jobs.update`. -/
def update_job (job : ProcessingJob) : Service Unit :=
  write (fun db =>
    .ok { db with jobs := SqlAlchemyProcessingJobRepository.update db.jobs m.db_now job })

namespace WorkerExecutor

/-- The run of the worker: the text of the exception that it raised, if any. -/
def attempted (run : Service Unit) : Service (Option String) :=
  attempt (do run; return none) (fun interruption =>
    match interruption with
    | .Raised e => return some e.str
    | .Crashed => raise .Crashed)

def execute (job : ProcessingJob) : Service ProcessingJob := do
  match build_worker_registry job.job_type with
  | none =>
    let (job, events) ← of_domain (refused job (m.clock 0))
    update_job m job
    events.forM publish
    return job
  | some name =>
    let (job, events) ← of_domain (started name job (m.clock 0))
    update_job m job
    events.forM publish
    let outcome ← attempted (IngestionWorker.run P m job)
    let (job, events, message) ← of_domain (finished settings.processing.max_retries job outcome
      (m.clock 1))
    update_job m job
    message.forM enqueue
    events.forM publish
    return job

end WorkerExecutor

/-- `_handle_message`. -/
def handle_message (message : Message) : Service Unit := do
  match ← query (fun db =>
    SqlAlchemyProcessingJobRepository.get db.jobs message.tenant_id message.job_id) with
  | none => return ()
  | some job =>
    if job.status ≠ .Queued then return ()
    else
      let _ ← WorkerExecutor.execute P settings m job
      return ()

/-! ## Search and chat -/

/-- The points that answer a query. -/
def retrieve (tenant_id query : String) (top_k : Nat) : Service (List SearchResult) := do
  let vector ← FastEmbedEmbeddingProvider.embed_text P query .Query
  QdrantVectorRepository.search P vector top_k tenant_id

def SemanticSearchUseCase.execute (data : SearchInput) : Service (List SearchHit) := do
  let results ← retrieve P data.tenant_id data.query data.top_k
  return SemanticSearchUseCase.hits results

namespace AnswerQuestionUseCase

/-- `_load_or_create_conversation`: only a conversation id asks the database. -/
def load_conversation (data : AnswerQuestionInput) : Service Conversation :=
  match data.conversation_id with
  | none => of_except (load_or_create_conversation {} m.ids.conversation data)
  | some _ => do
    of_except (← query (fun db => load_or_create_conversation db m.ids.conversation data))

/-- `_llm.complete`. -/
def complete (messages : List LLMMessage) : Service String := do
  effect (fun w => { w with prompts := w.prompts ++ [messages] })
  of_except (m.complete messages)

def execute (data : AnswerQuestionInput) : Service AnswerQuestionOutput := do
  let results ← retrieve P data.tenant_id data.question data.top_k
  let conversation ← load_conversation m data
  let answer ← complete m (llm_messages settings.chat (context results) conversation data.question)
  let conversation := appended conversation
    (question_message data (m.clock 0) m.ids.question)
    (answer_message answer (m.clock 0) m.ids.answer)
  write (fun db => stored db m.db_now data conversation)
  return { answer, conversation_id := conversation.id, sources := sources results }

end AnswerQuestionUseCase

/-! ## The operations -/

inductive Operation where
  | Upload (data : UploadDocumentInput)
  | AddVersion (data : AddDocumentVersionInput)
  | Get (data : GetDocumentInput)
  | List (data : ListDocumentsInput)
  | ListVersions (data : GetDocumentInput)
  | UpdateMetadata (data : UpdateDocumentMetadataInput)
  | Delete (data : GetDocumentInput)
  | Process (data : GetDocumentInput)
  | GetJob (data : GetJobInput)
  | ListJobs (data : ListJobsInput)
  | Handle (message : Message)
  | Search (data : SearchInput)
  | Answer (data : AnswerQuestionInput)

def Operation.tenant_id : Operation → String
  | .Upload data => data.tenant_id
  | .AddVersion data => data.tenant_id
  | .Get data => data.tenant_id
  | .List data => data.tenant_id
  | .ListVersions data => data.tenant_id
  | .UpdateMetadata data => data.tenant_id
  | .Delete data => data.tenant_id
  | .Process data => data.tenant_id
  | .GetJob data => data.tenant_id
  | .ListJobs data => data.tenant_id
  | .Handle message => message.tenant_id
  | .Search data => data.tenant_id
  | .Answer data => data.tenant_id

inductive Response where
  | Document (view : DocumentView)
  | Documents (page : Paged DocumentView)
  | Version (view : DocumentVersionView)
  | Versions (views : List DocumentVersionView)
  | Job (view : JobView)
  | Jobs (page : Paged JobView)
  | Hits (hits : List SearchHit)
  | Answer (output : AnswerQuestionOutput)
  | Done
deriving DecidableEq

/-- The program of an operation. -/
def Operation.program : Operation → Service Response
  | .Upload data => return .Document (← UploadDocumentUseCase.execute P settings m data)
  | .AddVersion data => return .Version (← AddDocumentVersionUseCase.execute P settings m data)
  | .Get data => return .Document (← GetDocumentUseCase.execute data)
  | .List data => return .Documents (← ListDocumentsUseCase.execute m data)
  | .ListVersions data => return .Versions (← ListDocumentVersionsUseCase.execute data)
  | .UpdateMetadata data => return .Document (← UpdateDocumentMetadataUseCase.execute m data)
  | .Delete data => do
    DeleteDocumentUseCase.execute m data
    return .Done
  | .Process data => do
    ProcessDocumentUseCase.execute P m data.tenant_id data.document_id
    return .Done
  | .GetJob data => return .Job (← GetProcessingJobUseCase.execute data)
  | .ListJobs data => return .Jobs (← ListProcessingJobsUseCase.execute m data)
  | .Handle message => do
    handle_message P settings m message
    return .Done
  | .Search data => return .Hits (← SemanticSearchUseCase.execute P data)
  | .Answer data => return .Answer (← AnswerQuestionUseCase.execute P settings m data)

end UseCases

/-- An operation with its circumstances. -/
structure Request where
  moment : Moment
  operation : Operation

namespace World

variable (P : Providers) (settings : Settings)

/-- The operation in a session of its own: what it returns or raises, and the
world after it. -/
def perform (w : World) (r : Request) : Except Interruption Response × World :=
  let w := { w with issued := r.moment.ids.all ++ w.issued }
  let result := session (r.operation.program P settings r.moment) ⟨w, r.moment.faults, false⟩
  (result.1, result.2.world)

/-- A request comes with ids that no call has had before. -/
def fresh (w : World) (r : Request) : Bool :=
  decide (r.moment.ids.all.Nodup ∧ ∀ id ∈ r.moment.ids.all, id ∉ w.issued)

def step (w : World) (r : Request) : Option World :=
  if w.fresh r then some (w.perform P settings r).2 else none

end World

end cortex_rag
