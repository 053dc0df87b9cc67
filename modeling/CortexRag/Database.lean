-- The tables of the service, and the SQLAlchemy repositories as functions of
-- them. A row keeps the value of an enum or of the metadata where the column
-- keeps its text; the attribute `meta` is the column `metadata`.
import CortexRag.Rows
import CortexRag.Jobs
import Mathlib.Data.List.Sort

open keyed_rows

namespace cortex_rag

/-! ## The rows -/

structure KnowledgeDocumentModel where
  id : UUID
  tenant_id : String
  knowledge_space_id : Option UUID
  title : String
  source_type : SourceType
  current_version_id : Option UUID
  status : DocumentStatus
  metadata : KnowledgeMetadata
  created_by : Option String
  deleted_at : Option DateTime
  created_at : DateTime
  updated_at : DateTime
deriving DecidableEq

structure KnowledgeDocumentVersionModel where
  id : UUID
  document_id : UUID
  version_number : Nat
  original_filename : String
  filename : String
  extension : String
  mime_type : String
  size : Nat
  checksum_sha256 : String
  storage_provider : StorageProviderKind
  storage_path : String
  page_count : Option Nat
  metadata : List (String × String)
  uploaded_by : Option String
  created_at : DateTime
deriving DecidableEq

structure ProcessingJobModel where
  id : UUID
  document_id : UUID
  version_id : Option UUID
  tenant_id : String
  job_type : JobType
  status : ProcessingJobStatus
  priority : Int
  retry_count : Nat
  progress : Int
  worker_name : Option String
  error_message : Option String
  started_at : Option DateTime
  finished_at : Option DateTime
  created_at : DateTime
  updated_at : DateTime
deriving DecidableEq

structure ConversationModel where
  id : UUID
  tenant_id : String
  created_at : DateTime
  updated_at : DateTime
deriving DecidableEq

structure ConversationMessageModel where
  id : UUID
  conversation_id : UUID
  seq : Nat
  role : Role
  content : String
  created_at : DateTime
deriving DecidableEq

structure Database where
  documents : List KnowledgeDocumentModel := []
  versions : List KnowledgeDocumentVersionModel := []
  jobs : List ProcessingJobModel := []
  conversations : List ConversationModel := []
  messages : List ConversationMessageModel := []
deriving DecidableEq

/-! ## Statements -/

/-- The error of an insert that a unique index refuses. -/
def IntegrityError : PyException := .Other "IntegrityError"

/-- `INSERT` of a row into a table with a unique index on `unique`. -/
def insert_unique {α κ : Type} [DecidableEq κ] (unique : α → κ) (t : List α) (row : α) :
    Except PyException (List α) :=
  if unique row ∈ t.map unique then .error IntegrityError else .ok (t ++ [row])

theorem insert_unique_ok {α κ : Type} [DecidableEq κ] {unique : α → κ} {t t' : List α} {row : α} :
    insert_unique unique t row = .ok t' ↔ unique row ∉ t.map unique ∧ t' = t ++ [row] := by
  unfold insert_unique
  split
  · rename_i h
    simp [h]
  · rename_i h
    simp only [Except.ok.injEq, h, not_false_eq_true, true_and]
    exact eq_comm

/-- The order in which the database returns rows that the query leaves
unordered, by their id: SQL leaves it open, so every function here that needs
one takes it as an argument. Two rows with one rank come in the order of their
ids. -/
abbrev RowOrder := UUID → Nat

def RowOrder.le (order : RowOrder) (a b : UUID) : Bool :=
  decide (order a < order b ∨ (order a = order b ∧ a.val ≤ b.val))

/-- The rows of a result set: ordered by `first` where it decides, and by the
database where it does not. -/
def ordered {α : Type} (first : α → α → Bool) (order : RowOrder) (id : α → UUID) (rows : List α) :
    List α :=
  rows.insertionSort
    (fun a b => (first a b && !first b a) || (first a b && order.le (id a) (id b)))

theorem perm_ordered {α : Type} (first : α → α → Bool) (order : RowOrder) (id : α → UUID)
    (rows : List α) : (ordered first order id rows).Perm rows := List.perm_insertionSort _ rows

section Ordered

variable {α : Type} {first : α → α → Bool} (order : RowOrder) (id : α → UUID) {rows rows' : List α}

theorem RowOrder.le_antisymm {a b : UUID} (h : order.le a b = true) (h' : order.le b a = true) :
    a = b := by
  simp only [RowOrder.le, decide_eq_true_eq] at h h'
  have hval : a.val = b.val := by omega
  exact congrArg UUID.mk hval

theorem DateTime.le_total (a b : DateTime) : a.le b = true ∨ b.le a = true := by
  simp only [DateTime.le, decide_eq_true_eq]
  omega

theorem DateTime.le_trans {a b c : DateTime} (h : a.le b = true) (h' : b.le c = true) :
    a.le c = true := by
  simp only [DateTime.le, decide_eq_true_eq] at h h' ⊢
  omega

theorem DateTime.le_antisymm {a b : DateTime} (h : a.le b = true) (h' : b.le a = true) :
    a = b := by
  obtain ⟨year, month, micros, _, _⟩ := a
  obtain ⟨year', month', micros', _, _⟩ := b
  simp only [DateTime.le, decide_eq_true_eq] at h h'
  obtain ⟨rfl, rfl, rfl⟩ : year = year' ∧ month = month' ∧ micros = micros' := by omega
  rfl

/-- The sort of `ordered` for a total preorder `first`. -/
theorem ordered_order (htotal : ∀ a b, first a b = true ∨ first b a = true)
    (htrans : ∀ a b c, first a b = true → first b c = true → first a c = true) :
    Std.Total (fun a b => ((first a b && !first b a) ||
        (first a b && order.le (id a) (id b))) = true) ∧
      IsTrans α (fun a b => ((first a b && !first b a) ||
        (first a b && order.le (id a) (id b))) = true) := by
  have hle : ∀ a b : UUID, order.le a b = true ∨ order.le b a = true := by
    intro a b
    simp only [RowOrder.le, decide_eq_true_eq]
    omega
  have hle' : ∀ a b c : UUID, order.le a b = true → order.le b c = true → order.le a c = true := by
    intro a b c
    simp only [RowOrder.le, decide_eq_true_eq]
    omega
  constructor
  · refine ⟨fun a b => ?_⟩
    have := htotal a b
    have := hle (id a) (id b)
    grind
  · refine ⟨fun a b c => ?_⟩
    have := htrans a b c
    have := htrans c a b
    have := htrans b c a
    have := hle' (id a) (id b) (id c)
    grind

/-- A result set depends on which rows it has: what `first` leaves open, the
database decides by their ids. -/
theorem ordered_settled (htotal : ∀ a b, first a b = true ∨ first b a = true)
    (htrans : ∀ a b c, first a b = true → first b c = true → first a c = true)
    (hkeyed : Keyed id rows) (hperm : rows.Perm rows') :
    ordered first order id rows = ordered first order id rows' := by
  obtain ⟨_, _⟩ := ordered_order order id htotal htrans
  refine sort_settled ?_ hperm
  intro a ha b hb hab hba
  refine eq_of_key _ hkeyed ha hb (RowOrder.le_antisymm order ?_ ?_) <;> grind

theorem head_ordered_settled
    (hkeyed : ∀ a ∈ rows, ∀ b ∈ rows, id a = id b → a = b) (hmem : ∀ x, x ∈ rows ↔ x ∈ rows') :
    (ordered (fun _ _ => true) order id rows).head? =
      (ordered (fun _ _ => true) order id rows').head? := by
  have hfirst : ∀ a b : α, (fun _ _ => true : α → α → Bool) a b = true := fun _ _ => rfl
  obtain ⟨_, _⟩ := ordered_order order id (fun a b => Or.inl (hfirst a b))
    (fun a _ c _ _ => hfirst a c)
  refine head_settled ?_ hmem
  intro a ha b hb hab hba
  refine hkeyed a ha b hb (RowOrder.le_antisymm order ?_ ?_) <;> grind

end Ordered

/-- `.limit(limit).offset(offset)`. -/
def page {α : Type} (limit offset : Nat) (rows : List α) : List α := (rows.drop offset).take limit

/-! ## SqlAlchemyDocumentRepository -/

def version_to_entity (model : KnowledgeDocumentVersionModel) : KnowledgeDocumentVersion where
  id := model.id
  document_id := model.document_id
  version_number := model.version_number
  original_filename := model.original_filename
  filename := model.filename
  extension := model.extension
  mime_type := model.mime_type
  size := model.size
  checksum_sha256 := model.checksum_sha256
  storage_provider := model.storage_provider
  storage_path := model.storage_path
  page_count := model.page_count
  metadata := model.metadata
  uploaded_by := model.uploaded_by
  created_at := some model.created_at

/-- The row of a version. The database sets `created_at` to its own time. -/
def version_to_model (db_now : DateTime) (entity : KnowledgeDocumentVersion) :
    KnowledgeDocumentVersionModel where
  id := entity.id
  document_id := entity.document_id
  version_number := entity.version_number
  original_filename := entity.original_filename
  filename := entity.filename
  extension := entity.extension
  mime_type := entity.mime_type
  size := entity.size
  checksum_sha256 := entity.checksum_sha256
  storage_provider := entity.storage_provider
  storage_path := entity.storage_path
  page_count := entity.page_count
  metadata := entity.metadata
  uploaded_by := entity.uploaded_by
  created_at := db_now

def doc_to_entity (model : KnowledgeDocumentModel)
    (active_version : Option KnowledgeDocumentVersion) : KnowledgeDocument where
  id := model.id
  tenant_id := model.tenant_id
  title := model.title
  source_type := model.source_type
  knowledge_space_id := model.knowledge_space_id
  current_version_id := model.current_version_id
  status := model.status
  metadata := model.metadata
  created_by := model.created_by
  created_at := some model.created_at
  updated_at := some model.updated_at
  deleted_at := model.deleted_at
  active_version := active_version

def doc_to_model (db_now : DateTime) (entity : KnowledgeDocument) : KnowledgeDocumentModel where
  id := entity.id
  tenant_id := entity.tenant_id
  title := entity.title
  source_type := entity.source_type
  knowledge_space_id := entity.knowledge_space_id
  current_version_id := entity.current_version_id
  status := entity.status
  metadata := entity.metadata
  created_by := entity.created_by
  deleted_at := entity.deleted_at
  created_at := db_now
  updated_at := db_now

/-- The row after a flush: with no column changed there is no `UPDATE`, and
else the database sets `updated_at` to its own time. -/
def KnowledgeDocumentModel.flushed (db_now : DateTime) (old new : KnowledgeDocumentModel) :
    KnowledgeDocumentModel :=
  if new = old then old else { new with updated_at := db_now }

/-- The unique index `ix_versions_document_number`. -/
def KnowledgeDocumentVersionModel.number_key (model : KnowledgeDocumentVersionModel) : UUID × Nat :=
  (model.document_id, model.version_number)

namespace SqlAlchemyDocumentRepository

/-- `_load_version`. -/
def load_version (db : Database) (version_id : Option UUID) : Option KnowledgeDocumentVersion :=
  match version_id with
  | none => none
  | some id => (find KnowledgeDocumentVersionModel.id id db.versions).map version_to_entity

def add (db : Database) (db_now : DateTime) (document : KnowledgeDocument)
    (initial_version : KnowledgeDocumentVersion) : Except PyException Database := do
  let versions ← insert_unique KnowledgeDocumentVersionModel.number_key db.versions
    (version_to_model db_now initial_version)
  return { db with versions, documents := db.documents ++ [doc_to_model db_now document] }

/-- The columns that `add_version` assigns. -/
def add_version_columns (db_now : DateTime) (document : KnowledgeDocument)
    (model : KnowledgeDocumentModel) : KnowledgeDocumentModel :=
  model.flushed db_now { model with
    current_version_id := document.current_version_id, status := document.status }

def add_version (db : Database) (db_now : DateTime) (document : KnowledgeDocument)
    (version : KnowledgeDocumentVersion) : Except PyException Database := do
  let versions ← insert_unique KnowledgeDocumentVersionModel.number_key db.versions
    (version_to_model db_now version)
  return { db with
    versions
    documents := modify KnowledgeDocumentModel.id document.id
      (add_version_columns db_now document) db.documents }

/-- The `WHERE` of `get`: the row of a live document of the tenant. -/
def live_row (db : Database) (tenant_id : String) (document_id : UUID) :
    Option KnowledgeDocumentModel :=
  db.documents.find? (fun m =>
    m.id = document_id ∧ m.tenant_id = tenant_id ∧ m.deleted_at = none)

def get (db : Database) (tenant_id : String) (document_id : UUID) : Option KnowledgeDocument :=
  match live_row db tenant_id document_id with
  | none => none
  | some model => some (doc_to_entity model (load_version db model.current_version_id))

/-- The rows of the join of `get_by_checksum`: one for each version with the
checksum. -/
def checksum_rows (db : Database) (tenant_id checksum_sha256 : String) :
    List KnowledgeDocumentModel :=
  db.documents.flatMap (fun m =>
    (db.versions.filter (fun v =>
      v.document_id = m.id ∧ v.checksum_sha256 = checksum_sha256 ∧ m.tenant_id = tenant_id ∧
        m.deleted_at = none)).map (fun _ => m))

def get_by_checksum (order : RowOrder) (db : Database) (tenant_id checksum_sha256 : String) :
    Option KnowledgeDocument :=
  match (ordered (fun _ _ => true) order KnowledgeDocumentModel.id
      (checksum_rows db tenant_id checksum_sha256)).head? with
  | none => none
  | some model => some (doc_to_entity model (load_version db model.current_version_id))

/-- The `WHERE` of `list_documents`. -/
def listed (tenant_id : String) (knowledge_space_id : Option UUID) (m : KnowledgeDocumentModel) :
    Bool :=
  decide (m.tenant_id = tenant_id ∧ m.deleted_at = none ∧
    (knowledge_space_id = none ∨ m.knowledge_space_id = knowledge_space_id))

def list_documents (order : RowOrder) (db : Database) (tenant_id : String)
    (knowledge_space_id : Option UUID) (limit offset : Nat) : List KnowledgeDocument × Nat :=
  let rows := db.documents.filter (listed tenant_id knowledge_space_id)
  let models := page limit offset
    (ordered (fun a b => b.created_at.le a.created_at) order KnowledgeDocumentModel.id rows)
  let version_ids := models.filterMap (fun m => m.current_version_id)
  let versions := db.versions.filter (fun v => v.id ∈ version_ids)
  let items := models.map (fun m => doc_to_entity m
    (m.current_version_id.bind (fun id =>
      (find KnowledgeDocumentVersionModel.id id versions).map version_to_entity)))
  (items, rows.length)

def list_versions (db : Database) (document_id : UUID) : List KnowledgeDocumentVersion :=
  ((db.versions.filter (fun v => v.document_id = document_id)).insertionSort
    (fun a b => b.version_number ≤ a.version_number)).map version_to_entity

/-- The columns that `update` assigns. A row of another tenant stays. -/
def update_columns (db_now : DateTime) (document : KnowledgeDocument)
    (model : KnowledgeDocumentModel) : KnowledgeDocumentModel :=
  if model.tenant_id ≠ document.tenant_id then model
  else
    model.flushed db_now { model with
      title := document.title
      knowledge_space_id := document.knowledge_space_id
      status := document.status
      metadata := document.metadata
      current_version_id := document.current_version_id
      deleted_at := document.deleted_at }

def update (db : Database) (db_now : DateTime) (document : KnowledgeDocument) : Database :=
  { db with
    documents := modify KnowledgeDocumentModel.id document.id
      (update_columns db_now document) db.documents }

/-! ### What the calls give -/

theorem add_ok {db db' : Database} {db_now : DateTime} {document : KnowledgeDocument}
    {version : KnowledgeDocumentVersion} :
    add db db_now document version = .ok db' ↔
      (version_to_model db_now version).number_key ∉
          db.versions.map KnowledgeDocumentVersionModel.number_key ∧
        db' = { db with
          versions := db.versions ++ [version_to_model db_now version]
          documents := db.documents ++ [doc_to_model db_now document] } := by
  unfold add
  simp only [bind, Except.bind, pure, Except.pure]
  split
  · rename_i e h
    simp only [reduceCtorEq, false_iff, not_and]
    intro hk
    rw [insert_unique_ok.mpr ⟨hk, rfl⟩] at h
    cases h
  · rename_i versions h
    obtain ⟨hk, rfl⟩ := insert_unique_ok.mp h
    simp only [Except.ok.injEq, hk, not_false_eq_true, true_and]
    exact eq_comm

theorem add_version_ok {db db' : Database} {db_now : DateTime} {document : KnowledgeDocument}
    {version : KnowledgeDocumentVersion} :
    add_version db db_now document version = .ok db' ↔
      (version_to_model db_now version).number_key ∉
          db.versions.map KnowledgeDocumentVersionModel.number_key ∧
        db' = { db with
          versions := db.versions ++ [version_to_model db_now version]
          documents := modify KnowledgeDocumentModel.id document.id
            (add_version_columns db_now document) db.documents } := by
  unfold add_version
  simp only [bind, Except.bind, pure, Except.pure]
  split
  · rename_i e h
    simp only [reduceCtorEq, false_iff, not_and]
    intro hk
    rw [insert_unique_ok.mpr ⟨hk, rfl⟩] at h
    cases h
  · rename_i versions h
    obtain ⟨hk, rfl⟩ := insert_unique_ok.mp h
    simp only [Except.ok.injEq, hk, not_false_eq_true, true_and]
    exact eq_comm

theorem live_row_some {db : Database} {tenant_id : String} {document_id : UUID}
    {m : KnowledgeDocumentModel} (h : live_row db tenant_id document_id = some m) :
    m ∈ db.documents ∧ m.id = document_id ∧ m.tenant_id = tenant_id ∧ m.deleted_at = none := by
  unfold live_row at h
  have hp := List.find?_some h
  simp only [decide_eq_true_eq] at hp
  exact ⟨List.mem_of_find?_eq_some h, hp⟩

theorem get_some {db : Database} {tenant_id : String} {document_id : UUID}
    {document : KnowledgeDocument} (h : get db tenant_id document_id = some document) :
    ∃ m, live_row db tenant_id document_id = some m ∧
      document = doc_to_entity m (load_version db m.current_version_id) := by
  unfold get at h
  split at h
  · cases h
  · rename_i m hm
    exact ⟨m, hm, by simpa using h.symm⟩

/-- The row behind a document that `get` returns. -/
theorem get_row {db : Database} {tenant_id : String} {document_id : UUID}
    {document : KnowledgeDocument} (h : get db tenant_id document_id = some document) :
    ∃ m ∈ db.documents, m.id = document_id ∧ m.tenant_id = tenant_id ∧ m.deleted_at = none ∧
      document = doc_to_entity m (load_version db m.current_version_id) := by
  obtain ⟨m, hm, rfl⟩ := get_some h
  obtain ⟨hmem, hid, htenant, hlive⟩ := live_row_some hm
  exact ⟨m, hmem, hid, htenant, hlive, rfl⟩

theorem live_row_of_mem {db : Database} (hk : Keyed KnowledgeDocumentModel.id db.documents)
    {m : KnowledgeDocumentModel} (hm : m ∈ db.documents) (hlive : m.deleted_at = none) :
    live_row db m.tenant_id m.id = some m := by
  rcases h : live_row db m.tenant_id m.id with _ | m'
  · unfold live_row at h
    have := List.find?_eq_none.mp h m hm
    simp [hlive] at this
  · obtain ⟨hmem, hid, _⟩ := live_row_some h
    rw [eq_of_key _ hk hmem hm hid]

/-- What `get` returns for the row of a live document. -/
theorem get_of_row {db : Database} (hk : Keyed KnowledgeDocumentModel.id db.documents)
    {m : KnowledgeDocumentModel} (hm : m ∈ db.documents) (hlive : m.deleted_at = none) :
    get db m.tenant_id m.id =
      some (doc_to_entity m (load_version db m.current_version_id)) := by
  unfold get
  rw [live_row_of_mem hk hm hlive]

theorem mem_checksum_rows {db : Database} {tenant_id checksum_sha256 : String}
    {m : KnowledgeDocumentModel} :
    m ∈ checksum_rows db tenant_id checksum_sha256 ↔
      m ∈ db.documents ∧ m.tenant_id = tenant_id ∧ m.deleted_at = none ∧
        ∃ v ∈ db.versions, v.document_id = m.id ∧ v.checksum_sha256 = checksum_sha256 := by
  unfold checksum_rows
  simp only [List.mem_flatMap, List.mem_map, List.mem_filter, decide_eq_true_eq]
  constructor
  · rintro ⟨m', hm', v, ⟨hv, hd, hc, ht, hl⟩, rfl⟩
    exact ⟨hm', ht, hl, v, hv, hd, hc⟩
  · rintro ⟨hm, ht, hl, v, hv, hd, hc⟩
    exact ⟨m, hm, v, ⟨hv, hd, hc, ht, hl⟩, rfl⟩

/-- The row behind a document that `get_by_checksum` returns. -/
theorem get_by_checksum_row {order : RowOrder} {db : Database}
    {tenant_id checksum_sha256 : String} {document : KnowledgeDocument}
    (h : get_by_checksum order db tenant_id checksum_sha256 = some document) :
    ∃ m ∈ checksum_rows db tenant_id checksum_sha256,
      document = doc_to_entity m (load_version db m.current_version_id) := by
  unfold get_by_checksum at h
  split at h
  · cases h
  · rename_i m hm
    refine ⟨m, ?_, by simpa using h.symm⟩
    exact (perm_ordered _ _ _ _).mem_iff.mp (List.mem_of_mem_head? hm)

/-- The join has a row exactly for the live documents that own the checksum. -/
theorem get_by_checksum_iff {order : RowOrder} {db : Database}
    {tenant_id checksum_sha256 : String} :
    (∃ document, get_by_checksum order db tenant_id checksum_sha256 = some document) ↔
      ∃ m ∈ db.documents, m.tenant_id = tenant_id ∧ m.deleted_at = none ∧
        ∃ v ∈ db.versions, v.document_id = m.id ∧ v.checksum_sha256 = checksum_sha256 := by
  constructor
  · rintro ⟨document, h⟩
    obtain ⟨m, hm, _⟩ := get_by_checksum_row h
    exact ⟨m, mem_checksum_rows.mp hm⟩
  · rintro ⟨m, hm⟩
    have hrow := mem_checksum_rows.mpr hm
    have hordered := (perm_ordered (fun _ _ => true) order KnowledgeDocumentModel.id _).mem_iff.mpr
      hrow
    obtain ⟨first, hfirst⟩ := Option.isSome_iff_exists.mp
      (List.isSome_head?.mpr (List.ne_nil_of_mem hordered))
    unfold get_by_checksum
    rw [hfirst]
    exact ⟨_, rfl⟩

/-- The row behind a document that `list_documents` returns. -/
theorem list_documents_row {order : RowOrder} {db : Database} {tenant_id : String}
    {knowledge_space_id : Option UUID} {limit offset : Nat} {document : KnowledgeDocument}
    (h : document ∈ (list_documents order db tenant_id knowledge_space_id limit offset).1) :
    ∃ m ∈ db.documents, m.tenant_id = tenant_id ∧ m.deleted_at = none ∧
      ∃ version, document = doc_to_entity m version := by
  unfold list_documents at h
  obtain ⟨m, hm, rfl⟩ := List.mem_map.mp h
  have hrows := (perm_ordered _ _ _ _).mem_iff.mp (List.mem_of_mem_drop (List.mem_of_mem_take hm))
  obtain ⟨hmem, hlisted⟩ := List.mem_filter.mp hrows
  simp only [listed, decide_eq_true_eq] at hlisted
  exact ⟨m, hmem, hlisted.1, hlisted.2.1, _, rfl⟩

/-- The versions that `list_documents` loads for a page are those of its rows. -/
theorem load_listed_version {db : Database}
    (hk : Keyed KnowledgeDocumentVersionModel.id db.versions)
    {models : List KnowledgeDocumentModel} {m : KnowledgeDocumentModel} (hm : m ∈ models) :
    (m.current_version_id.bind (fun id =>
      (find KnowledgeDocumentVersionModel.id id (db.versions.filter (fun v =>
        v.id ∈ models.filterMap (fun m => m.current_version_id)))).map version_to_entity)) =
      load_version db m.current_version_id := by
  unfold load_version
  rcases hcurrent : m.current_version_id with _ | id
  · rfl
  · have hid : id ∈ models.filterMap (fun m => m.current_version_id) :=
      List.mem_filterMap.mpr ⟨m, hm, hcurrent⟩
    have hfind := find_congr KnowledgeDocumentVersionModel.id hk
      (t := db.versions.filter (fun v =>
        v.id ∈ models.filterMap (fun m => m.current_version_id))) (k := id)
      (fun v hv => by
        rw [List.mem_filter, decide_eq_true_eq, hv]
        exact ⟨And.left, fun hmem => ⟨hmem, hid⟩⟩)
    simp only [Option.bind_some]
    rw [hfind]

/-- A flush changes no column but `updated_at`. -/
theorem flushed_eq (db_now : DateTime) (old new : KnowledgeDocumentModel) :
    ∃ u, old.flushed db_now new = { new with updated_at := u } := by
  unfold KnowledgeDocumentModel.flushed
  split
  · rename_i h
    exact ⟨old.updated_at, by rw [h]⟩
  · exact ⟨db_now, rfl⟩

theorem add_version_columns_eq (db_now : DateTime) (document : KnowledgeDocument)
    (m : KnowledgeDocumentModel) :
    ∃ u, add_version_columns db_now document m =
      { m with
        current_version_id := document.current_version_id
        status := document.status
        updated_at := u } := flushed_eq db_now m _

theorem update_columns_eq (db_now : DateTime) {document : KnowledgeDocument}
    {m : KnowledgeDocumentModel} (h : m.tenant_id = document.tenant_id) :
    ∃ u, update_columns db_now document m =
      { m with
        title := document.title
        knowledge_space_id := document.knowledge_space_id
        status := document.status
        metadata := document.metadata
        current_version_id := document.current_version_id
        deleted_at := document.deleted_at
        updated_at := u } := by
  unfold update_columns
  rw [if_neg (not_not.mpr h)]
  exact flushed_eq db_now m _

theorem update_columns_other (db_now : DateTime) {document : KnowledgeDocument}
    {m : KnowledgeDocumentModel} (h : m.tenant_id ≠ document.tenant_id) :
    update_columns db_now document m = m := if_pos h

@[simp] theorem add_version_columns_id (db_now : DateTime) (document : KnowledgeDocument)
    (m : KnowledgeDocumentModel) : (add_version_columns db_now document m).id = m.id := by
  obtain ⟨u, hu⟩ := add_version_columns_eq db_now document m
  rw [hu]

@[simp] theorem add_version_columns_tenant_id (db_now : DateTime) (document : KnowledgeDocument)
    (m : KnowledgeDocumentModel) :
    (add_version_columns db_now document m).tenant_id = m.tenant_id := by
  obtain ⟨u, hu⟩ := add_version_columns_eq db_now document m
  rw [hu]

@[simp] theorem update_columns_id (db_now : DateTime) (document : KnowledgeDocument)
    (m : KnowledgeDocumentModel) : (update_columns db_now document m).id = m.id := by
  by_cases h : m.tenant_id = document.tenant_id
  · obtain ⟨u, hu⟩ := update_columns_eq db_now h
    rw [hu]
  · rw [update_columns_other db_now h]

@[simp] theorem update_columns_tenant_id (db_now : DateTime) (document : KnowledgeDocument)
    (m : KnowledgeDocumentModel) :
    (update_columns db_now document m).tenant_id = m.tenant_id := by
  by_cases h : m.tenant_id = document.tenant_id
  · obtain ⟨u, hu⟩ := update_columns_eq db_now h
    rw [hu]
  · rw [update_columns_other db_now h]

theorem find_updated {db : Database} (db_now : DateTime) (document : KnowledgeDocument)
    {m : KnowledgeDocumentModel}
    (h : find KnowledgeDocumentModel.id document.id db.documents = some m) :
    find KnowledgeDocumentModel.id document.id (update db db_now document).documents =
      some (update_columns db_now document m) := by
  simp only [update]
  rw [find_modify_self _ (fun m hm => by simp [hm]), h]
  rfl

theorem find_pointed {t : List KnowledgeDocumentModel} (db_now : DateTime)
    {document : KnowledgeDocument} {m : KnowledgeDocumentModel}
    (h : find KnowledgeDocumentModel.id document.id t = some m) :
    find KnowledgeDocumentModel.id document.id (modify KnowledgeDocumentModel.id document.id
      (add_version_columns db_now document) t) = some (add_version_columns db_now document m) := by
  rw [find_modify_self _ (fun m hm => by simp [hm]), h]
  rfl

end SqlAlchemyDocumentRepository

/-! ## SqlAlchemyProcessingJobRepository -/

/-- `_to_entity`. -/
def to_entity (model : ProcessingJobModel) : ProcessingJob where
  id := model.id
  document_id := model.document_id
  tenant_id := model.tenant_id
  job_type := model.job_type
  status := model.status
  version_id := model.version_id
  priority := model.priority
  retry_count := model.retry_count
  progress := model.progress
  worker_name := model.worker_name
  error_message := model.error_message
  started_at := model.started_at
  finished_at := model.finished_at
  created_at := some model.created_at
  updated_at := some model.updated_at

/-- `_to_model`. -/
def to_model (db_now : DateTime) (entity : ProcessingJob) : ProcessingJobModel where
  id := entity.id
  document_id := entity.document_id
  version_id := entity.version_id
  tenant_id := entity.tenant_id
  job_type := entity.job_type
  status := entity.status
  priority := entity.priority
  retry_count := entity.retry_count
  progress := entity.progress
  worker_name := entity.worker_name
  error_message := entity.error_message
  started_at := entity.started_at
  finished_at := entity.finished_at
  created_at := db_now
  updated_at := db_now

/-- The columns of a row that no update assigns, but its times. -/
def ProcessingJobModel.origin (model : ProcessingJobModel) :
    UUID × UUID × String × JobType × Option UUID := (to_entity model).origin

namespace SqlAlchemyProcessingJobRepository

def add (jobs : List ProcessingJobModel) (db_now : DateTime) (job : ProcessingJob) :
    List ProcessingJobModel := jobs ++ [to_model db_now job]

def get (jobs : List ProcessingJobModel) (tenant_id : String) (job_id : UUID) :
    Option ProcessingJob :=
  (jobs.find? (fun m => m.id = job_id ∧ m.tenant_id = tenant_id)).map to_entity

/-- The columns that `update` assigns. -/
def update_columns (db_now : DateTime) (job : ProcessingJob) (model : ProcessingJobModel) :
    ProcessingJobModel :=
  let new := { model with
    status := job.status
    priority := job.priority
    retry_count := job.retry_count
    progress := job.progress
    worker_name := job.worker_name
    error_message := job.error_message
    started_at := job.started_at
    finished_at := job.finished_at }
  if new = model then model else { new with updated_at := db_now }

def update (jobs : List ProcessingJobModel) (db_now : DateTime) (job : ProcessingJob) :
    List ProcessingJobModel :=
  modify ProcessingJobModel.id job.id (update_columns db_now job) jobs

/-- The `WHERE` of `get_active_by_type`. -/
def active_by_type (document_id : UUID) (job_type : JobType) (m : ProcessingJobModel) : Bool :=
  decide (m.document_id = document_id ∧ m.job_type = job_type ∧ m.status ∈ ACTIVE_JOB_STATUSES)

def get_active_by_type (order : RowOrder) (jobs : List ProcessingJobModel) (document_id : UUID)
    (job_type : JobType) : Option ProcessingJob :=
  (ordered (fun _ _ => true) order ProcessingJobModel.id
    (jobs.filter (active_by_type document_id job_type))).head?.map to_entity

/-- The `WHERE` of `list_jobs`. -/
def listed (tenant_id : String) (document_id : Option UUID) (status : Option ProcessingJobStatus)
    (m : ProcessingJobModel) : Bool :=
  decide (m.tenant_id = tenant_id ∧ (document_id = none ∨ document_id = some m.document_id) ∧
    (status = none ∨ status = some m.status))

def list_jobs (order : RowOrder) (jobs : List ProcessingJobModel) (tenant_id : String)
    (document_id : Option UUID) (status : Option ProcessingJobStatus) (limit offset : Nat) :
    List ProcessingJob × Nat :=
  let rows := jobs.filter (listed tenant_id document_id status)
  let models := page limit offset
    (ordered (fun a b => b.created_at.le a.created_at) order ProcessingJobModel.id rows)
  (models.map to_entity, rows.length)

/-! ### What the calls give -/

/-- The row behind a job that `get` returns. -/
theorem get_row {jobs : List ProcessingJobModel} {tenant_id : String} {job_id : UUID}
    {job : ProcessingJob} (h : get jobs tenant_id job_id = some job) :
    ∃ m ∈ jobs, m.id = job_id ∧ m.tenant_id = tenant_id ∧ job = to_entity m := by
  unfold get at h
  obtain ⟨m, hm, rfl⟩ := Option.map_eq_some_iff.mp h
  have hp := List.find?_some hm
  simp only [decide_eq_true_eq] at hp
  exact ⟨m, List.mem_of_find?_eq_some hm, hp.1, hp.2, rfl⟩

theorem get_of_mem {jobs : List ProcessingJobModel} (hk : Keyed ProcessingJobModel.id jobs)
    {m : ProcessingJobModel} (hm : m ∈ jobs) : get jobs m.tenant_id m.id = some (to_entity m) := by
  rcases h : get jobs m.tenant_id m.id with _ | job
  · unfold get at h
    rw [Option.map_eq_none_iff, List.find?_eq_none] at h
    exact absurd (by simp) (h m hm)
  · obtain ⟨m', hm', hid, _, rfl⟩ := get_row h
    rw [eq_of_key _ hk hm' hm hid]

theorem update_columns_eq (db_now : DateTime) (job : ProcessingJob) (m : ProcessingJobModel) :
    ∃ u, update_columns db_now job m =
      { m with
        status := job.status
        priority := job.priority
        retry_count := job.retry_count
        progress := job.progress
        worker_name := job.worker_name
        error_message := job.error_message
        started_at := job.started_at
        finished_at := job.finished_at
        updated_at := u } := by
  unfold update_columns
  dsimp only
  split
  · rename_i h
    refine ⟨m.updated_at, ?_⟩
    conv_lhs => rw [← h]
  · exact ⟨db_now, rfl⟩

@[simp] theorem update_columns_id (db_now : DateTime) (job : ProcessingJob)
    (m : ProcessingJobModel) : (update_columns db_now job m).id = m.id := by
  obtain ⟨u, hu⟩ := update_columns_eq db_now job m
  rw [hu]

@[simp] theorem update_columns_tenant_id (db_now : DateTime) (job : ProcessingJob)
    (m : ProcessingJobModel) : (update_columns db_now job m).tenant_id = m.tenant_id := by
  obtain ⟨u, hu⟩ := update_columns_eq db_now job m
  rw [hu]

@[simp] theorem update_columns_origin (db_now : DateTime) (job : ProcessingJob)
    (m : ProcessingJobModel) : (update_columns db_now job m).origin = m.origin := by
  obtain ⟨u, hu⟩ := update_columns_eq db_now job m
  rw [hu]
  rfl

@[simp] theorem update_columns_retry_count (db_now : DateTime) (job : ProcessingJob)
    (m : ProcessingJobModel) : (update_columns db_now job m).retry_count = job.retry_count := by
  obtain ⟨u, hu⟩ := update_columns_eq db_now job m
  rw [hu]

@[simp] theorem update_columns_status (db_now : DateTime) (job : ProcessingJob)
    (m : ProcessingJobModel) : (update_columns db_now job m).status = job.status := by
  obtain ⟨u, hu⟩ := update_columns_eq db_now job m
  rw [hu]

/-- A row after an update: a row of another job as before, or the written one. -/
theorem mem_update {jobs : List ProcessingJobModel} {db_now : DateTime} {job : ProcessingJob}
    {m : ProcessingJobModel} (h : m ∈ update jobs db_now job) :
    (m ∈ jobs ∧ m.id ≠ job.id) ∨
      ∃ m0 ∈ jobs, m0.id = job.id ∧ m = update_columns db_now job m0 := mem_of_modify _ h

end SqlAlchemyProcessingJobRepository

/-! ## SqlAlchemyConversationRepository -/

def message_to_model (db_now : DateTime) (message : ChatMessage) (conversation_id : UUID)
    (seq : Nat) : ConversationMessageModel where
  id := message.id
  conversation_id := conversation_id
  seq := seq
  role := message.role
  content := message.content
  created_at := db_now

def message_to_entity (model : ConversationMessageModel) : ChatMessage where
  id := model.id
  role := model.role
  content := model.content
  created_at := some model.created_at

/-- The unique index `ix_messages_conversation_seq`. -/
def ConversationMessageModel.seq_key (model : ConversationMessageModel) : UUID × Nat :=
  (model.conversation_id, model.seq)

namespace SqlAlchemyConversationRepository

/-- The flush of new message rows, in order. -/
def insert_messages (t : List ConversationMessageModel) (rows : List ConversationMessageModel) :
    Except PyException (List ConversationMessageModel) :=
  rows.foldlM (insert_unique ConversationMessageModel.seq_key) t

def add (db : Database) (db_now : DateTime) (conversation : Conversation) :
    Except PyException Database := do
  let messages ← insert_messages db.messages
    (conversation.messages.zipIdx.map (fun m => message_to_model db_now m.1 conversation.id m.2))
  return { db with
    messages
    conversations := db.conversations ++
      [{ id := conversation.id, tenant_id := conversation.tenant_id,
         created_at := db_now, updated_at := db_now }] }

/-- The stored messages of a conversation, by `seq`. -/
def message_rows (db : Database) (conversation_id : UUID) : List ConversationMessageModel :=
  (db.messages.filter (fun m => m.conversation_id = conversation_id)).insertionSort
    (fun a b => a.seq ≤ b.seq)

def get (db : Database) (tenant_id : String) (conversation_id : UUID) : Option Conversation :=
  match find ConversationModel.id conversation_id db.conversations with
  | none => none
  | some model =>
    if model.tenant_id ≠ tenant_id then none
    else
      some {
        id := conversation_id
        tenant_id := model.tenant_id
        messages := (message_rows db conversation_id).map message_to_entity
        created_at := some model.created_at
        updated_at := some model.updated_at }

/-- The rows that `update` adds: the messages whose id is not stored yet, each
with its position in the list as `seq`. -/
def new_rows (db : Database) (db_now : DateTime) (conversation : Conversation) :
    List ConversationMessageModel :=
  let existing_ids :=
    (db.messages.filter (fun m => m.conversation_id = conversation.id)).map (fun m => m.id)
  (conversation.messages.zipIdx.filter (fun m => m.1.id ∉ existing_ids)).map
    (fun m => message_to_model db_now m.1 conversation.id m.2)

def update (db : Database) (db_now : DateTime) (conversation : Conversation) :
    Except PyException Database :=
  match find ConversationModel.id conversation.id db.conversations with
  | none => .ok db
  | some _ => do
    let messages ← insert_messages db.messages (new_rows db db_now conversation)
    return { db with messages }

end SqlAlchemyConversationRepository

end cortex_rag
