-- The document use cases as transactions that overlap. Each one reads rows as
-- committed, later stores its bytes, and last writes and commits in one step:
-- the row lock or the unique index makes a second writer wait for the first.
import CortexRag.Runs
import CortexRag.DocumentUseCases

open keyed_rows labelled_runs

namespace cortex_rag.document_transactions

/-- What a transaction does to the document that it has read. -/
inductive Change where
  | AddVersion (data : AddDocumentVersionInput) (extension : String)
  | UpdateMetadata (data : UpdateDocumentMetadataInput)
  | Delete
  | Process
deriving DecidableEq

inductive Request where
  | Upload (data : UploadDocumentInput)
  | AddVersion (data : AddDocumentVersionInput)
  | UpdateMetadata (data : UpdateDocumentMetadataInput)
  | Delete (data : GetDocumentInput)
  | Process (tenant_id : String) (document_id : UUID)

/-- How far a transaction has come. `since` is the length of the history at
the read of the document. -/
inductive Session where
  | Checked (data : UploadDocumentInput) (extension : String)
  | Stored (document : KnowledgeDocument) (version : KnowledgeDocumentVersion)
  | Opened (change : Change) (document : KnowledgeDocument) (since : Nat)
  | Adding (data : AddDocumentVersionInput) (extension : String) (document : KnowledgeDocument)
      (version : KnowledgeDocumentVersion) (since : Nat)

/-- The committed tables, the blobs, the open transactions, the changes of
documents that have committed, and the ids that `uuid4` has given out. -/
structure Transactions where
  db : Database := {}
  blobs : Blobs := fun _ => none
  sessions : Nat → Option Session := fun _ => none
  history : List (UUID × Change) := []
  issued : List UUID := []

/-- A step of one transaction. An id in it is one that `uuid4` gives, a time
one that a clock gives. -/
inductive Action where
  | Open (session : Nat) (order : RowOrder) (request : Request)
  | Store (session : Nat) (now : DateTime) (document_id version_id : UUID)
  | Commit (session : Nat) (order : RowOrder) (now db_now : DateTime) (job_id : UUID)
  | Abort (session : Nat)

def Transactions.set (s : Transactions) (i : Nat) (session : Option Session) : Transactions :=
  { s with sessions := fun j => if j = i then session else s.sessions j }

/-- The copy that a change writes back. -/
def Change.applied (now : DateTime) : Change → KnowledgeDocument → KnowledgeDocument
  | .AddVersion _ _, document => document
  | .UpdateMetadata data, document => UpdateDocumentMetadataUseCase.merged data document
  | .Delete, document => DeleteDocumentUseCase.marked now document
  | .Process, document => ProcessDocumentUseCase.processed document

section Steps

variable (sha256_hex : Bytes → String) (settings : Settings)

/-- The first reads of a use case. -/
def Request.opened (order : RowOrder) (db : Database) (since : Nat) :
    Request → Except PyException Session
  | .Upload data =>
    (UploadDocumentUseCase.check sha256_hex settings.upload order db data).map
      (fun extension => .Checked data extension)
  | .AddVersion data =>
    (AddDocumentVersionUseCase.check settings.upload db data).map
      (fun read => .Opened (.AddVersion data read.2) read.1 since)
  | .UpdateMetadata data =>
    (load_document db data.tenant_id data.document_id).map
      (fun document => .Opened (.UpdateMetadata data) document since)
  | .Delete data =>
    (load_document db data.tenant_id data.document_id).map
      (fun document => .Opened .Delete document since)
  | .Process tenant_id document_id =>
    (ProcessDocumentUseCase.load db tenant_id document_id).map
      (fun read => .Opened .Process read.1 since)

/-- The step of a transaction that gives its bytes to the blob store. -/
def Transactions.store (s : Transactions) (i : Nat) (now : DateTime)
    (document_id version_id : UUID) : Session → Option Transactions
  | .Checked data extension =>
    if document_id ∈ s.issued ∨ version_id ∈ s.issued ∨ document_id = version_id then none
    else
      let version := UploadDocumentUseCase.new_version sha256_hex data extension document_id
        version_id now
      let document := UploadDocumentUseCase.new_document data extension document_id version now
      some { s.set i (some (.Stored document version)) with
        blobs := s.blobs.save version.storage_path data.content
        issued := document_id :: version_id :: s.issued }
  | .Opened (.AddVersion data extension) document since =>
    if version_id ∈ s.issued then none
    else
      let number := AddDocumentVersionUseCase.next_number
        (SqlAlchemyDocumentRepository.list_versions s.db document.id)
      let version := AddDocumentVersionUseCase.new_version sha256_hex data extension document
        number version_id now
      some { s.set i (some (.Adding data extension
          (AddDocumentVersionUseCase.pointed document version_id) version since)) with
        blobs := s.blobs.save version.storage_path data.content
        issued := version_id :: s.issued }
  | _ => none

/-- The step of a transaction that writes its rows and commits. A write that a
unique index or a conflict refuses ends it with no row written. -/
def Transactions.commit (s : Transactions) (i : Nat) (order : RowOrder) (now db_now : DateTime)
    (job_id : UUID) : Session → Option Transactions
  | .Checked _ _ => none
  | .Stored document version =>
    if job_id ∈ s.issued then none
    else
      match UploadDocumentUseCase.insert settings.processing order s.db now db_now document version
          job_id with
      | .error _ => some (s.set i none)
      | .ok db => some { s.set i none with db, issued := job_id :: s.issued }
  | .Opened (.AddVersion _ _) _ _ => none
  | .Opened change document _ =>
    some { s.set i none with
      db := SqlAlchemyDocumentRepository.update s.db db_now (change.applied now document)
      history := s.history ++ [(document.id, change)] }
  | .Adding data extension document version _ =>
    match SqlAlchemyDocumentRepository.add_version s.db db_now document version with
    | .error _ => some (s.set i none)
    | .ok db =>
      some { s.set i none with
        db
        history := s.history ++ [(document.id, .AddVersion data extension)] }

def Transactions.step (s : Transactions) : Action → Option Transactions
  | .Open i order request =>
    match s.sessions i with
    | some _ => none
    | none =>
      match request.opened sha256_hex settings order s.db s.history.length with
      | .error _ => some s
      | .ok session => some (s.set i (some session))
  | .Store i now document_id version_id =>
    (s.sessions i).bind (s.store sha256_hex i now document_id version_id)
  | .Commit i order now db_now job_id =>
    (s.sessions i).bind (s.commit settings i order now db_now job_id)
  | .Abort i => (s.sessions i).map (fun _ => s.set i none)

end Steps

/-! ## What a step can do -/

/-- An extension that the upload policy has accepted. -/
def Change.accepted : Change → Prop
  | .AddVersion _ extension => '.' ∉ extension.toList
  | _ => True

/-- The steps, with what their checks have found. -/
inductive Moved (sha256_hex : Bytes → String) (settings : Settings) (s : Transactions) :
    Action → Transactions → Prop where
  | refused (i : Nat) (order : RowOrder) (request : Request) :
    Moved sha256_hex settings s (.Open i order request) s
  | checked (i : Nat) (order : RowOrder) (data : UploadDocumentInput) (extension : String) :
    s.sessions i = none → '.' ∉ extension.toList →
    SqlAlchemyDocumentRepository.get_by_checksum order s.db data.tenant_id
      (sha256_hex data.content) = none →
    Moved sha256_hex settings s (.Open i order (.Upload data))
      (s.set i (some (.Checked data extension)))
  | opened (i : Nat) (order : RowOrder) (request : Request) (change : Change)
      (document : KnowledgeDocument) (tenant_id : String) (document_id : UUID) :
    s.sessions i = none → change.accepted →
    SqlAlchemyDocumentRepository.get s.db tenant_id document_id = some document →
    Moved sha256_hex settings s (.Open i order request)
      (s.set i (some (.Opened change document s.history.length)))
  | stored (i : Nat) (now : DateTime) (document_id version_id : UUID)
      (data : UploadDocumentInput) (extension : String) (version : KnowledgeDocumentVersion)
      (document : KnowledgeDocument) :
    s.sessions i = some (.Checked data extension) →
    document_id ∉ s.issued → version_id ∉ s.issued → document_id ≠ version_id →
    version = UploadDocumentUseCase.new_version sha256_hex data extension document_id version_id
      now →
    document = UploadDocumentUseCase.new_document data extension document_id version now →
    Moved sha256_hex settings s (.Store i now document_id version_id)
      { s.set i (some (.Stored document version)) with
        blobs := s.blobs.save version.storage_path data.content
        issued := document_id :: version_id :: s.issued }
  | adding (i : Nat) (now : DateTime) (document_id version_id : UUID)
      (data : AddDocumentVersionInput) (extension : String) (document : KnowledgeDocument)
      (since : Nat) (version : KnowledgeDocumentVersion) :
    s.sessions i = some (.Opened (.AddVersion data extension) document since) →
    version_id ∉ s.issued →
    version = AddDocumentVersionUseCase.new_version sha256_hex data extension document
      (AddDocumentVersionUseCase.next_number
        (SqlAlchemyDocumentRepository.list_versions s.db document.id)) version_id now →
    Moved sha256_hex settings s (.Store i now document_id version_id)
      { s.set i (some (.Adding data extension
          (AddDocumentVersionUseCase.pointed document version_id) version since)) with
        blobs := s.blobs.save version.storage_path data.content
        issued := version_id :: s.issued }
  | inserted (i : Nat) (order : RowOrder) (now db_now : DateTime) (job_id : UUID)
      (document : KnowledgeDocument) (version : KnowledgeDocumentVersion)
      (jobs : List ProcessingJobModel) :
    s.sessions i = some (.Stored document version) → job_id ∉ s.issued →
    (version_to_model db_now version).number_key ∉
      s.db.versions.map KnowledgeDocumentVersionModel.number_key →
    Moved sha256_hex settings s (.Commit i order now db_now job_id)
      { s.set i none with
        db := { s.db with
          versions := s.db.versions ++ [version_to_model db_now version]
          documents := s.db.documents ++ [doc_to_model db_now document]
          jobs }
        issued := job_id :: s.issued }
  | updated (i : Nat) (order : RowOrder) (now db_now : DateTime) (job_id : UUID)
      (change : Change) (document : KnowledgeDocument) (since : Nat) :
    s.sessions i = some (.Opened change document since) →
    (∀ data extension, change ≠ .AddVersion data extension) →
    Moved sha256_hex settings s (.Commit i order now db_now job_id)
      { s.set i none with
        db := SqlAlchemyDocumentRepository.update s.db db_now (change.applied now document)
        history := s.history ++ [(document.id, change)] }
  | added (i : Nat) (order : RowOrder) (now db_now : DateTime) (job_id : UUID)
      (data : AddDocumentVersionInput) (extension : String) (document : KnowledgeDocument)
      (version : KnowledgeDocumentVersion) (since : Nat) :
    s.sessions i = some (.Adding data extension document version since) →
    (version_to_model db_now version).number_key ∉
      s.db.versions.map KnowledgeDocumentVersionModel.number_key →
    Moved sha256_hex settings s (.Commit i order now db_now job_id)
      { s.set i none with
        db := { s.db with
          versions := s.db.versions ++ [version_to_model db_now version]
          documents := modify KnowledgeDocumentModel.id document.id
            (SqlAlchemyDocumentRepository.add_version_columns db_now document) s.db.documents }
        history := s.history ++ [(document.id, .AddVersion data extension)] }
  | collided (i : Nat) (order : RowOrder) (now db_now : DateTime) (job_id : UUID)
      (session : Session) :
    s.sessions i = some session → (∀ change document since,
      session ≠ .Opened change document since) →
    (∀ data extension document version since,
      session = .Adding data extension document version since →
      (version_to_model db_now version).number_key ∈
        s.db.versions.map KnowledgeDocumentVersionModel.number_key) →
    Moved sha256_hex settings s (.Commit i order now db_now job_id) (s.set i none)
  | aborted (i : Nat) (session : Session) :
    s.sessions i = some session → Moved sha256_hex settings s (.Abort i) (s.set i none)

theorem opened_ok {sha256_hex : Bytes → String} {settings : Settings} {order : RowOrder}
    {s : Transactions} {i : Nat} {request : Request} {session : Session}
    (hi : s.sessions i = none)
    (h : request.opened sha256_hex settings order s.db s.history.length = .ok session) :
    Moved sha256_hex settings s (.Open i order request) (s.set i (some session)) := by
  cases request with
  | Upload data =>
    simp only [Request.opened, Except.map] at h
    split at h
    · cases h
    · rename_i extension he
      cases h
      obtain ⟨hdot, hnone⟩ := UploadDocumentUseCase.check_ok he
      exact .checked i order data extension hi hdot hnone
  | AddVersion data =>
    simp only [Request.opened, Except.map] at h
    split at h
    · cases h
    · rename_i read hread
      cases h
      obtain ⟨hdot, hget⟩ := AddDocumentVersionUseCase.check_ok hread
      exact .opened i order _ _ _ _ _ hi hdot hget
  | UpdateMetadata data =>
    simp only [Request.opened, Except.map] at h
    split at h
    · cases h
    · rename_i document hread
      cases h
      exact .opened i order _ _ _ _ _ hi trivial (load_document_ok hread)
  | Delete data =>
    simp only [Request.opened, Except.map] at h
    split at h
    · cases h
    · rename_i document hread
      cases h
      exact .opened i order _ _ _ _ _ hi trivial (load_document_ok hread)
  | Process tenant_id document_id =>
    simp only [Request.opened, Except.map] at h
    split at h
    · cases h
    · rename_i read hread
      cases h
      exact .opened i order _ _ _ _ _ hi trivial (ProcessDocumentUseCase.load_ok hread).1

theorem store_some {sha256_hex : Bytes → String} {settings : Settings} {s t : Transactions}
    {i : Nat} {now : DateTime} {document_id version_id : UUID} {session : Session}
    (hi : s.sessions i = some session)
    (h : s.store sha256_hex i now document_id version_id session = some t) :
    Moved sha256_hex settings s (.Store i now document_id version_id) t := by
  cases session with
  | Checked data extension =>
    simp only [Transactions.store] at h
    split at h
    · cases h
    · rename_i hfresh
      cases h
      simp only [not_or] at hfresh
      exact .stored i now _ _ _ _ _ _ hi hfresh.1 hfresh.2.1 hfresh.2.2 rfl rfl
  | Stored document version => cases h
  | Opened change document since =>
    cases change with
    | AddVersion data extension =>
      simp only [Transactions.store] at h
      split at h
      · cases h
      · rename_i hfresh
        cases h
        exact .adding i now _ _ _ _ _ _ _ hi hfresh rfl
    | UpdateMetadata data => cases h
    | Delete => cases h
    | Process => cases h
  | Adding data extension document version since => cases h

theorem commit_some {sha256_hex : Bytes → String} {settings : Settings} {s t : Transactions}
    {i : Nat} {order : RowOrder} {now db_now : DateTime} {job_id : UUID} {session : Session}
    (hi : s.sessions i = some session)
    (h : s.commit settings i order now db_now job_id session = some t) :
    Moved sha256_hex settings s (.Commit i order now db_now job_id) t := by
  cases session with
  | Checked data extension => cases h
  | Stored document version =>
    simp only [Transactions.commit] at h
    split at h
    · cases h
    · rename_i hfresh
      split at h
      · cases h
        exact .collided i order now db_now job_id _ hi (by simp) (by simp)
      · rename_i db hdb
        cases h
        obtain ⟨hk, jobs, rfl⟩ := UploadDocumentUseCase.insert_ok hdb
        exact .inserted i order now db_now job_id _ _ _ hi hfresh hk
  | Opened change document since =>
    cases change with
    | AddVersion data extension => cases h
    | UpdateMetadata data =>
      cases h
      exact .updated i order now db_now job_id _ _ _ hi (by simp)
    | Delete =>
      cases h
      exact .updated i order now db_now job_id _ _ _ hi (by simp)
    | Process =>
      cases h
      exact .updated i order now db_now job_id _ _ _ hi (by simp)
  | Adding data extension document version since =>
    simp only [Transactions.commit] at h
    split at h
    · rename_i e he
      cases h
      refine .collided i order now db_now job_id _ hi (by simp) ?_
      intro data' extension' document' version' since' heq
      cases heq
      by_contra hk
      rw [SqlAlchemyDocumentRepository.add_version_ok.mpr ⟨hk, rfl⟩] at he
      cases he
    · rename_i db hdb
      cases h
      obtain ⟨hk, rfl⟩ := SqlAlchemyDocumentRepository.add_version_ok.mp hdb
      exact .added i order now db_now job_id _ _ _ _ _ hi hk

theorem moved_of_step {sha256_hex : Bytes → String} {settings : Settings} {s t : Transactions}
    {a : Action} (h : s.step sha256_hex settings a = some t) :
    Moved sha256_hex settings s a t := by
  cases a with
  | Open i order request =>
    simp only [Transactions.step] at h
    split at h
    · cases h
    · rename_i hi
      split at h
      · cases h
        exact .refused i order request
      · rename_i session hs
        cases h
        exact opened_ok hi hs
  | Store i now document_id version_id =>
    simp only [Transactions.step, Option.bind_eq_some_iff] at h
    obtain ⟨session, hi, h⟩ := h
    exact store_some hi h
  | Commit i order now db_now job_id =>
    simp only [Transactions.step, Option.bind_eq_some_iff] at h
    obtain ⟨session, hi, h⟩ := h
    exact commit_some hi h
  | Abort i =>
    simp only [Transactions.step, Option.map_eq_some_iff] at h
    obtain ⟨session, hi, rfl⟩ := h
    exact .aborted i session hi

/-! ## The copies and the rows they were read from -/

@[simp] theorem set_sessions (s : Transactions) (i j : Nat) (session : Option Session) :
    (s.set i session).sessions j = if j = i then session else s.sessions j := rfl

@[simp] theorem set_db (s : Transactions) (i : Nat) (session : Option Session) :
    (s.set i session).db = s.db := rfl

@[simp] theorem set_blobs (s : Transactions) (i : Nat) (session : Option Session) :
    (s.set i session).blobs = s.blobs := rfl

@[simp] theorem set_history (s : Transactions) (i : Nat) (session : Option Session) :
    (s.set i session).history = s.history := rfl

@[simp] theorem set_issued (s : Transactions) (i : Nat) (session : Option Session) :
    (s.set i session).issued = s.issued := rfl

/-- The copy of a document that an open transaction holds. -/
def Session.copy : Session → Option KnowledgeDocument
  | .Opened _ document _ => some document
  | .Adding _ _ document _ _ => some document
  | _ => none

/-- A row of `s` is still there in `t`, with its id and tenant. -/
def RowsStay (s t : Transactions) : Prop :=
  ∀ m ∈ s.db.documents, ∃ m' ∈ t.db.documents, m'.id = m.id ∧ m'.tenant_id = m.tenant_id

/-- Ids stand on one row, an upload that is not committed has no row, and the
copy of a transaction belongs to a row of the same tenant. -/
structure Tied (s : Transactions) : Prop where
  documents_keyed : Keyed KnowledgeDocumentModel.id s.db.documents
  documents_issued : ∀ m ∈ s.db.documents, m.id ∈ s.issued
  copies : ∀ i session copy, s.sessions i = some session → session.copy = some copy →
    ∃ m ∈ s.db.documents, m.id = copy.id ∧ m.tenant_id = copy.tenant_id
  stored_issued : ∀ i document version, s.sessions i = some (.Stored document version) →
    document.id ∈ s.issued
  stored_new : ∀ i document version, s.sessions i = some (.Stored document version) →
    ∀ m ∈ s.db.documents, m.id ≠ document.id
  stored_apart : ∀ i j document version document' version',
    s.sessions i = some (.Stored document version) →
    s.sessions j = some (.Stored document' version') → document.id = document'.id → i = j

theorem tied_init : Tied {} := by
  constructor <;> simp [Keyed]

theorem rows_stay_refl {s t : Transactions} (h : t.db.documents = s.db.documents) :
    RowsStay s t := by
  intro m hm
  exact ⟨m, h ▸ hm, rfl, rfl⟩

theorem rows_stay_append {s t : Transactions} {row : KnowledgeDocumentModel}
    (h : t.db.documents = s.db.documents ++ [row]) : RowsStay s t := by
  intro m hm
  exact ⟨m, by rw [h]; exact List.mem_append_left _ hm, rfl, rfl⟩

theorem rows_stay_modify {s t : Transactions} {k : UUID}
    {f : KnowledgeDocumentModel → KnowledgeDocumentModel}
    (hf : ∀ m, (f m).id = m.id ∧ (f m).tenant_id = m.tenant_id)
    (h : t.db.documents = modify KnowledgeDocumentModel.id k f s.db.documents) :
    RowsStay s t := by
  intro m hm
  refine ⟨if m.id = k then f m else m, ?_, ?_⟩
  · rw [h, mem_modify]
    exact ⟨m, hm, rfl⟩
  · split
    · exact hf m
    · exact ⟨rfl, rfl⟩

theorem rows_stay {sha256_hex : Bytes → String} {settings : Settings} {s t : Transactions}
    {a : Action} (h : Moved sha256_hex settings s a t) : RowsStay s t := by
  cases h with
  | inserted i order now db_now job_id document version jobs hi hjob hk =>
    exact rows_stay_append rfl
  | updated i order now db_now job_id change document since hi hc =>
    exact rows_stay_modify (fun m => ⟨by simp, by simp⟩) rfl
  | added i order now db_now job_id data extension document version since hi hk =>
    exact rows_stay_modify (fun m => ⟨by simp, by simp⟩) rfl
  | _ => exact rows_stay_refl rfl

/-- The ids of the documents after a step: those before it, and one more after
an upload. -/
theorem document_ids {sha256_hex : Bytes → String} {settings : Settings} {s t : Transactions}
    {a : Action} (h : Moved sha256_hex settings s a t) :
    t.db.documents.map KnowledgeDocumentModel.id = s.db.documents.map KnowledgeDocumentModel.id ∨
      ∃ i document version, s.sessions i = some (.Stored document version) ∧
        t.sessions i = none ∧ t.db.documents.map KnowledgeDocumentModel.id =
          s.db.documents.map KnowledgeDocumentModel.id ++ [document.id] := by
  cases h with
  | inserted i order now db_now job_id document version jobs hi hjob hk =>
    exact Or.inr ⟨i, document, version, hi, by simp, by simp [doc_to_model]⟩
  | updated i order now db_now job_id change document since hi hc =>
    exact Or.inl (map_key_modify _ (fun m hm => by simp [hm]) _)
  | added i order now db_now job_id data extension document version since hi hk =>
    exact Or.inl (map_key_modify _ (fun m hm => by simp [hm]) _)
  | _ => exact Or.inl rfl

/-- A session after a step: one that was there, a new one with what it has
read, or one that has stored its bytes under a new version id. -/
inductive SessionMoved (sha256_hex : Bytes → String) (s t : Transactions) (j : Nat) :
    Session → Prop where
  | kept (session : Session) : s.sessions j = some session → SessionMoved sha256_hex s t j session
  | checked (data : UploadDocumentInput) (extension : String) :
    '.' ∉ extension.toList → SessionMoved sha256_hex s t j (.Checked data extension)
  | opened (change : Change) (document : KnowledgeDocument) (tenant_id : String)
      (document_id : UUID) :
    change.accepted →
    SqlAlchemyDocumentRepository.get s.db tenant_id document_id = some document →
    t.db = s.db → t.history = s.history →
    SessionMoved sha256_hex s t j (.Opened change document s.history.length)
  | stored (data : UploadDocumentInput) (extension : String) (document_id version_id : UUID)
      (now : DateTime) (document : KnowledgeDocument) (version : KnowledgeDocumentVersion) :
    s.sessions j = some (.Checked data extension) →
    (∀ k, k ≠ j → t.sessions k = s.sessions k) →
    document_id ∉ s.issued → version_id ∉ s.issued → document_id ≠ version_id →
    t.issued = document_id :: version_id :: s.issued →
    version = UploadDocumentUseCase.new_version sha256_hex data extension document_id version_id
      now →
    document = UploadDocumentUseCase.new_document data extension document_id version now →
    t.blobs = s.blobs.save version.storage_path data.content →
    SessionMoved sha256_hex s t j (.Stored document version)
  | adding (data : AddDocumentVersionInput) (extension : String) (document : KnowledgeDocument)
      (since : Nat) (version_id : UUID) (now : DateTime) (version : KnowledgeDocumentVersion) :
    s.sessions j = some (.Opened (.AddVersion data extension) document since) →
    (∀ k, k ≠ j → t.sessions k = s.sessions k) →
    version_id ∉ s.issued → t.issued = version_id :: s.issued →
    version = AddDocumentVersionUseCase.new_version sha256_hex data extension document
      (AddDocumentVersionUseCase.next_number
        (SqlAlchemyDocumentRepository.list_versions s.db document.id)) version_id now →
    t.blobs = s.blobs.save version.storage_path data.content →
    SessionMoved sha256_hex s t j (.Adding data extension
      (AddDocumentVersionUseCase.pointed document version_id) version since)

theorem session_moved {sha256_hex : Bytes → String} {settings : Settings} {s t : Transactions}
    {a : Action} (h : Moved sha256_hex settings s a t) {j : Nat} {session : Session}
    (hj : t.sessions j = some session) : SessionMoved sha256_hex s t j session := by
  cases h with
  | refused i order request => exact .kept _ hj
  | checked i order data extension hi hdot hnone =>
    rw [set_sessions] at hj
    split at hj
    · cases hj
      exact .checked data extension hdot
    · exact .kept _ hj
  | opened i order request change document tenant_id document_id hi hc hget =>
    rw [set_sessions] at hj
    split at hj
    · cases hj
      exact .opened change document tenant_id document_id hc hget rfl rfl
    · exact .kept _ hj
  | stored i now document_id version_id data extension version document hi hd hv hne hve hde =>
    simp only [set_sessions] at hj
    split at hj
    · rename_i hji
      cases hj
      exact .stored data extension document_id version_id now document version (hji ▸ hi)
        (fun k hk => if_neg (fun h => hk (h.trans hji.symm))) hd hv hne rfl hve hde rfl
    · exact .kept _ hj
  | adding i now document_id version_id data extension document since version hi hv hve =>
    simp only [set_sessions] at hj
    split at hj
    · rename_i hji
      cases hj
      exact .adding data extension document since version_id now version (hji ▸ hi)
        (fun k hk => if_neg (fun h => hk (h.trans hji.symm))) hv rfl hve rfl
    · exact .kept _ hj
  | inserted i order now db_now job_id document version jobs hi hjob hk =>
    simp only [set_sessions] at hj
    split at hj
    · cases hj
    · exact .kept _ hj
  | updated i order now db_now job_id change document since hi hc =>
    simp only [set_sessions] at hj
    split at hj
    · cases hj
    · exact .kept _ hj
  | added i order now db_now job_id data extension document version since hi hk =>
    simp only [set_sessions] at hj
    split at hj
    · cases hj
    · exact .kept _ hj
  | collided i order now db_now job_id session' hi hopen hk =>
    rw [set_sessions] at hj
    split at hj
    · cases hj
    · exact .kept _ hj
  | aborted i session' hi =>
    rw [set_sessions] at hj
    split at hj
    · cases hj
    · exact .kept _ hj

theorem issued_mono {sha256_hex : Bytes → String} {settings : Settings} {s t : Transactions}
    {a : Action} (h : Moved sha256_hex settings s a t) {id : UUID} (hid : id ∈ s.issued) :
    id ∈ t.issued := by
  cases h with
  | stored i now document_id version_id data extension version document hi hd hv hne hve hde =>
    exact List.mem_cons_of_mem _ (List.mem_cons_of_mem _ hid)
  | adding i now document_id version_id data extension document since version hi hv hve =>
    exact List.mem_cons_of_mem _ hid
  | inserted i order now db_now job_id document version jobs hi hjob hk =>
    exact List.mem_cons_of_mem _ hid
  | _ => exact hid

section Tied

variable {sha256_hex : Bytes → String} {settings : Settings} {s t : Transactions} {a : Action}

/-- An upload that is open after a step was open before it, or has a new id. -/
theorem stored_before (h : Moved sha256_hex settings s a t) {j : Nat} {document : KnowledgeDocument}
    {version : KnowledgeDocumentVersion} (hj : t.sessions j = some (.Stored document version)) :
    s.sessions j = some (.Stored document version) ∨
      (document.id ∉ s.issued ∧ document.id ∈ t.issued ∧
        ∀ k, k ≠ j → t.sessions k = s.sessions k) := by
  cases session_moved h hj with
  | kept _ hsj => exact Or.inl hsj
  | stored data extension document_id version_id now _ _ _ hrest hd _ _ hissued _ hde _ =>
    refine Or.inr ⟨?_, ?_, hrest⟩
    · rw [hde]
      exact hd
    · rw [hissued, hde]
      exact List.mem_cons_self

/-- A row that stands after a step stood before it, or is that of an upload which the
step has closed. -/
theorem document_id_before (h : Moved sha256_hex settings s a t) {k : UUID}
    (hk : k ∈ t.db.documents.map KnowledgeDocumentModel.id) :
    k ∈ s.db.documents.map KnowledgeDocumentModel.id ∨
      ∃ i document version, s.sessions i = some (.Stored document version) ∧
        t.sessions i = none ∧ k = document.id := by
  rcases document_ids h with he | ⟨i, document, version, hi, hti, he⟩
  · exact Or.inl (he ▸ hk)
  · rw [he] at hk
    rcases List.mem_append.mp hk with hk | hk
    · exact Or.inl hk
    · exact Or.inr ⟨i, document, version, hi, hti, by simpa using hk⟩

theorem documents_keyed_step (hs : Tied s) (h : Moved sha256_hex settings s a t) :
    Keyed KnowledgeDocumentModel.id t.db.documents := by
  rcases document_ids h with he | ⟨i, document, version, hi, hti, he⟩
  · exact keyed_of_keys _ hs.documents_keyed he
  · refine keyed_of_keys_append _ hs.documents_keyed ?_ he
    intro hmem
    obtain ⟨m, hm, hid⟩ := List.mem_map.mp hmem
    exact hs.stored_new i document version hi m hm hid

theorem copies_have_rows_step (hs : Tied s) (h : Moved sha256_hex settings s a t) {j : Nat}
    {session : Session} {copy : KnowledgeDocument} (hj : t.sessions j = some session)
    (hcopy : session.copy = some copy) :
    ∃ m ∈ t.db.documents, m.id = copy.id ∧ m.tenant_id = copy.tenant_id := by
  have hrow : ∃ m ∈ s.db.documents, m.id = copy.id ∧ m.tenant_id = copy.tenant_id := by
    cases session_moved h hj with
    | kept _ hsj => exact hs.copies j session copy hsj hcopy
    | checked data extension hdot => cases hcopy
    | opened change document tenant_id document_id hc hget =>
      cases hcopy
      obtain ⟨m, hm, hid, htenant, _, rfl⟩ := SqlAlchemyDocumentRepository.get_row hget
      exact ⟨m, hm, rfl, rfl⟩
    | stored => cases hcopy
    | adding data extension document since version_id now version hopened =>
      cases hcopy
      exact hs.copies j _ document hopened rfl
  obtain ⟨m, hm, hid, htenant⟩ := hrow
  obtain ⟨m', hm', hid', htenant'⟩ := rows_stay h m hm
  exact ⟨m', hm', hid'.trans hid, htenant'.trans htenant⟩

theorem stored_new_step (hs : Tied s) (h : Moved sha256_hex settings s a t) {j : Nat}
    {document : KnowledgeDocument} {version : KnowledgeDocumentVersion}
    (hj : t.sessions j = some (.Stored document version)) :
    ∀ m ∈ t.db.documents, m.id ≠ document.id := by
  intro m hm heq
  have hk := document_id_before h (List.mem_map_of_mem (f := KnowledgeDocumentModel.id) hm)
  rw [heq] at hk
  rcases stored_before h hj with hsj | ⟨hnew, _⟩
  · rcases hk with hk | ⟨i, document', version', hi, hti, hk⟩
    · obtain ⟨m', hm', hk⟩ := List.mem_map.mp hk
      exact hs.stored_new j document version hsj m' hm' hk
    · -- the step has closed the only upload of this id
      have hji := hs.stored_apart j i _ _ _ _ hsj hi hk
      rw [← hji, hj] at hti
      cases hti
  · rcases hk with hk | ⟨i, document', version', hi, _, hk⟩
    · obtain ⟨m', hm', hk⟩ := List.mem_map.mp hk
      exact hnew (hk ▸ hs.documents_issued m' hm')
    · exact hnew (hk ▸ hs.stored_issued i document' version' hi)

theorem documents_issued_step (hs : Tied s) (h : Moved sha256_hex settings s a t)
    {m : KnowledgeDocumentModel} (hm : m ∈ t.db.documents) : m.id ∈ t.issued := by
  rcases document_id_before h (List.mem_map_of_mem hm) with hk | ⟨i, document, version, hi, _, hk⟩
  · obtain ⟨m', hm', hk⟩ := List.mem_map.mp hk
    exact issued_mono h (hk ▸ hs.documents_issued m' hm')
  · rw [hk]
    exact issued_mono h (hs.stored_issued i document version hi)

theorem stored_issued_step (hs : Tied s) (h : Moved sha256_hex settings s a t) {j : Nat}
    {document : KnowledgeDocument} {version : KnowledgeDocumentVersion}
    (hj : t.sessions j = some (.Stored document version)) : document.id ∈ t.issued := by
  rcases stored_before h hj with hsj | ⟨_, hissued, _⟩
  · exact issued_mono h (hs.stored_issued j document version hsj)
  · exact hissued

theorem stored_apart_step (hs : Tied s) (h : Moved sha256_hex settings s a t) {i j : Nat}
    {document document' : KnowledgeDocument} {version version' : KnowledgeDocumentVersion}
    (hi : t.sessions i = some (.Stored document version))
    (hj : t.sessions j = some (.Stored document' version')) (heq : document.id = document'.id) :
    i = j := by
  rcases stored_before h hi with hsi | ⟨hnew, _, hrest⟩
  · rcases stored_before h hj with hsj | ⟨hnew, _⟩
    · exact hs.stored_apart i j _ _ _ _ hsi hsj heq
    · exact absurd (heq ▸ hs.stored_issued i document version hsi) hnew
  · by_contra hij
    rw [hrest j (fun h => hij h.symm)] at hj
    exact hnew (heq ▸ hs.stored_issued j document' version' hj)

theorem tied_step (hs : Tied s) (h : Moved sha256_hex settings s a t) : Tied t where
  documents_keyed := documents_keyed_step hs h
  documents_issued := fun _ => documents_issued_step hs h
  copies := fun _ _ _ => copies_have_rows_step hs h
  stored_issued := fun _ _ _ => stored_issued_step hs h
  stored_new := fun _ _ _ => stored_new_step hs h
  stored_apart := fun _ _ _ _ _ _ => stored_apart_step hs h

end Tied

theorem tied_keeps {sha256_hex : Bytes → String} {settings : Settings} (s : Transactions)
    (a : Action) (t : Transactions) (hs : Tied s) (h : s.step sha256_hex settings a = some t) :
    Tied t := tied_step hs (moved_of_step h)

/-! ## The row of one document -/

def Transactions.row (s : Transactions) (document_id : UUID) : Option KnowledgeDocumentModel :=
  find KnowledgeDocumentModel.id document_id s.db.documents

/-- The row that a copy was read from. -/
theorem copy_row {s : Transactions} (hs : Tied s) {i : Nat} {session : Session}
    {copy : KnowledgeDocument} (hi : s.sessions i = some session)
    (hcopy : session.copy = some copy) :
    ∃ m, s.row copy.id = some m ∧ m.tenant_id = copy.tenant_id := by
  obtain ⟨m, hm, hid, htenant⟩ := hs.copies i session copy hi hcopy
  exact ⟨m, hid ▸ find_of_mem _ hs.documents_keyed hm, htenant⟩

@[simp] theorem applied_id (now : DateTime) (change : Change) (document : KnowledgeDocument) :
    (change.applied now document).id = document.id := by
  cases change <;> rfl

@[simp] theorem applied_tenant_id (now : DateTime) (change : Change)
    (document : KnowledgeDocument) :
    (change.applied now document).tenant_id = document.tenant_id := by
  cases change <;> rfl

/-- The open transaction `i` is about to insert a version of the document. -/
def Transactions.Inserts (s : Transactions) (i : Nat) (document : KnowledgeDocument)
    (version : KnowledgeDocumentVersion) : Prop :=
  s.sessions i = some (.Stored document version) ∨
    ∃ data extension since, s.sessions i = some (.Adding data extension document version since)

/-- What a step does to the row of a document: nothing, the insert of an
upload, the write of a changed copy, or the write of a new version. -/
inductive RowMoved (s t : Transactions) (d : UUID) : Action → Prop where
  | kept (a : Action) (others : List (UUID × Change)) :
    t.row d = s.row d → t.history = s.history ++ others → (∀ e ∈ others, e.1 ≠ d) →
    (t.db.versions = s.db.versions ∨ ∃ i document version db_now,
      s.Inserts i document version ∧ document.id ≠ d ∧
      t.db.versions = s.db.versions ++ [version_to_model db_now version]) →
    RowMoved s t d a
  | inserted (a : Action) (i : Nat) (document : KnowledgeDocument)
      (version : KnowledgeDocumentVersion) (db_now : DateTime) :
    s.sessions i = some (.Stored document version) →
    (version_to_model db_now version).number_key ∉
      s.db.versions.map KnowledgeDocumentVersionModel.number_key →
    s.row d = none → t.row d = some (doc_to_model db_now document) → t.history = s.history →
    t.db.versions = s.db.versions ++ [version_to_model db_now version] → RowMoved s t d a
  | updated (i : Nat) (order : RowOrder) (now db_now : DateTime) (job_id : UUID)
      (change : Change) (document : KnowledgeDocument) (since : Nat)
      (m : KnowledgeDocumentModel) :
    s.sessions i = some (.Opened change document since) →
    (∀ data extension, change ≠ .AddVersion data extension) →
    document.id = d → s.row d = some m → m.tenant_id = document.tenant_id →
    t.row d = some (SqlAlchemyDocumentRepository.update_columns db_now
      (change.applied now document) m) →
    t.history = s.history ++ [(d, change)] → t.db.versions = s.db.versions →
    RowMoved s t d (.Commit i order now db_now job_id)
  | added (i : Nat) (order : RowOrder) (now db_now : DateTime) (job_id : UUID)
      (data : AddDocumentVersionInput) (extension : String) (document : KnowledgeDocument)
      (version : KnowledgeDocumentVersion) (since : Nat) (m : KnowledgeDocumentModel) :
    s.sessions i = some (.Adding data extension document version since) →
    (version_to_model db_now version).number_key ∉
      s.db.versions.map KnowledgeDocumentVersionModel.number_key →
    document.id = d → s.row d = some m → m.tenant_id = document.tenant_id →
    t.row d = some (SqlAlchemyDocumentRepository.add_version_columns db_now document m) →
    t.history = s.history ++ [(d, .AddVersion data extension)] →
    t.db.versions = s.db.versions ++ [version_to_model db_now version] →
    RowMoved s t d (.Commit i order now db_now job_id)

theorem row_moved {sha256_hex : Bytes → String} {settings : Settings} {s t : Transactions}
    {a : Action} (hs : Tied s) (h : Moved sha256_hex settings s a t) (d : UUID) :
    RowMoved s t d a := by
  cases h with
  | inserted i order now db_now job_id document version jobs hi hjob hk =>
    by_cases hd : document.id = d
    · have hnone : s.row d = none := by
        rcases hr : s.row d with _ | m
        · rfl
        · obtain ⟨hm, hid⟩ := find_some _ hr
          exact absurd (hid.trans hd.symm) (hs.stored_new i document version hi m hm)
      refine .inserted _ i document version db_now hi hk hnone ?_ rfl rfl
      unfold Transactions.row at hnone ⊢
      rw [find_append, hnone, Option.none_or]
      exact if_pos hd
    · exact .kept _ [] (find_append_ne _ _ hd) (by simp) (by simp)
        (Or.inr ⟨i, document, version, db_now, Or.inl hi, hd, rfl⟩)
  | updated i order now db_now job_id change document since hi hc =>
    by_cases hd : document.id = d
    · obtain ⟨m, hm, htenant⟩ := copy_row hs hi rfl
      refine .updated i order now db_now job_id change document since m hi hc hd (hd ▸ hm) htenant
        ?_ (by rw [← hd]) rfl
      rw [← applied_id now change] at hm hd
      exact hd ▸ SqlAlchemyDocumentRepository.find_updated _ _ hm
    · refine .kept _ [(document.id, change)] ?_ rfl (by simpa using hd) (Or.inl rfl)
      refine find_modify_ne _ (fun m hm => by simp [hm]) ?_ _
      rw [applied_id]
      exact fun h => hd h.symm
  | added i order now db_now job_id data extension document version since hi hk =>
    by_cases hd : document.id = d
    · obtain ⟨m, hm, htenant⟩ := copy_row hs hi rfl
      refine .added i order now db_now job_id data extension document version since m hi hk hd
        (hd ▸ hm) htenant ?_ (by rw [← hd]) rfl
      exact hd ▸ SqlAlchemyDocumentRepository.find_pointed _ hm
    · refine .kept _ [(document.id, .AddVersion data extension)] ?_ rfl (by simpa using hd)
        (Or.inr ⟨i, document, version, db_now, Or.inr ⟨_, _, _, hi⟩, hd, rfl⟩)
      exact find_modify_ne _ (fun m hm => by simp [hm]) (fun h => hd h.symm) _
  | _ => exact .kept _ [] rfl (by simp) (by simp) (Or.inl rfl)

theorem row_stays {sha256_hex : Bytes → String} {settings : Settings} {s t : Transactions}
    {a : Action} (hs : Tied s) (h : Moved sha256_hex settings s a t) {d : UUID}
    {m : KnowledgeDocumentModel} (hm : s.row d = some m) : ∃ m', t.row d = some m' := by
  cases row_moved hs h d with
  | kept _ others hrow => exact ⟨m, hrow.trans hm⟩
  | inserted _ i document version db_now hi _ _ hrow => exact ⟨_, hrow⟩
  | updated i order now db_now job_id change document since m0 hi _ _ _ _ hrow => exact ⟨_, hrow⟩
  | added i order now db_now job_id data extension document version since m0 _ _ _ _ _ hrow =>
    exact ⟨_, hrow⟩

/-! ## The versions -/

/-- The version that an open transaction is about to insert. -/
def Session.pending : Session → Option KnowledgeDocumentVersion
  | .Stored _ version => some version
  | .Adding _ _ _ version _ => some version
  | _ => none

/-- What a step does to the table of versions: nothing, or the insert of a
pending version under a number that is free. -/
inductive VersionsMoved (s t : Transactions) : Prop where
  | kept : t.db.versions = s.db.versions → VersionsMoved s t
  | inserted (i : Nat) (session : Session) (version : KnowledgeDocumentVersion)
      (db_now : DateTime) :
    s.sessions i = some session → session.pending = some version → t.sessions i = none →
    (version_to_model db_now version).number_key ∉
      s.db.versions.map KnowledgeDocumentVersionModel.number_key →
    t.db.versions = s.db.versions ++ [version_to_model db_now version] →
    VersionsMoved s t

theorem versions_moved {sha256_hex : Bytes → String} {settings : Settings} {s t : Transactions}
    {a : Action} (h : Moved sha256_hex settings s a t) : VersionsMoved s t := by
  cases h with
  | inserted i order now db_now job_id document version jobs hi hjob hk =>
    exact .inserted i _ version db_now hi rfl (by simp) hk rfl
  | added i order now db_now job_id data extension document version since hi hk =>
    exact .inserted i _ version db_now hi rfl (by simp) hk rfl
  | _ => exact .kept rfl

/-- A committed version stays as it is. -/
theorem versions_stay {sha256_hex : Bytes → String} {settings : Settings} {s t : Transactions}
    {a : Action} (h : Moved sha256_hex settings s a t) {v : KnowledgeDocumentVersionModel}
    (hv : v ∈ s.db.versions) : v ∈ t.db.versions := by
  cases versions_moved h with
  | kept ht => exact ht ▸ hv
  | inserted i session version db_now _ _ _ _ ht =>
    rw [ht]
    exact List.mem_append_left _ hv

/-! ## One upload -/

/-- The SHA-256 of the bytes `%PDF`, and no other hash. -/
def pdf_sha256 (content : Bytes) : String :=
  if content = [37, 80, 68, 70] then
    "315d429b7714cedb6ad04ac31240145257692630457f3c88253c5beceac76027"
  else ""

/-- The steps of a first upload: document 1 with version 2 and job 3. -/
def one_upload : List Action :=
  [.Open 0 (fun _ => 0) (.Upload {
      tenant_id := "acme", original_filename := "plan.pdf", content := [37, 80, 68, 70],
      content_type := "application/pdf" }),
    .Store 0 noon ⟨1⟩ ⟨2⟩,
    .Commit 0 (fun _ => 0) noon noon ⟨3⟩]

end cortex_rag.document_transactions
