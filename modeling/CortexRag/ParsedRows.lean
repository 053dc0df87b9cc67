-- The two repositories: over stored rows, where one may not parse, and over typed
-- rows. On tables that parse they read the same documents, and their writes keep the
-- two tables alike.
import CortexRag.MigratedWrites

open keyed_rows json_values related_lists

namespace cortex_rag.migrations.parsed_rows

/-! ## Typed values -/

/-- A version with the integers and the JSON of its columns. `now` stands for a time that
it does not have. -/
def wide_version (now : DateTime) (v : cortex_rag.KnowledgeDocumentVersion) :
    KnowledgeDocumentVersion where
  id := v.id
  document_id := v.document_id
  version_number := v.version_number
  original_filename := v.original_filename
  filename := v.filename
  extension := v.extension
  mime_type := v.mime_type
  size := v.size
  checksum_sha256 := v.checksum_sha256
  storage_provider := v.storage_provider
  storage_path := v.storage_path
  page_count := v.page_count.map Int.ofNat
  metadata := v.metadata.map text_field
  uploaded_by := v.uploaded_by
  created_at := v.created_at.getD now

def wide (now : DateTime) (d : cortex_rag.KnowledgeDocument) : KnowledgeDocument where
  id := d.id
  tenant_id := d.tenant_id
  title := d.title
  source_type := d.source_type
  knowledge_space_id := d.knowledge_space_id
  current_version_id := d.current_version_id
  status := d.status
  metadata := d.metadata
  created_by := d.created_by
  created_at := d.created_at.getD now
  updated_at := d.updated_at.getD now
  deleted_at := d.deleted_at
  active_version := d.active_version.map (wide_version now)

/-- The stored version parses to the typed one. -/
def VersionHolds (row : KnowledgeDocumentVersionRow) (model : KnowledgeDocumentVersionModel) :
    Prop :=
  ∀ now, version_to_entity row = .ok (wide_version now (cortex_rag.version_to_entity model))

/-- The stored row parses to the typed one. -/
def RowHolds (read_datetime : Json → Option DateTime) (row : KnowledgeDocumentRow)
    (model : KnowledgeDocumentModel) : Prop :=
  ∀ now version, doc_to_entity read_datetime row (version.map (wide_version now)) =
    .ok (wide now (cortex_rag.doc_to_entity model version))

/-- The tables parse to typed ones, row by row. -/
structure Parsed (read_datetime : Json → Option DateTime) (t : Tables) (db : Database) : Prop where
  documents : List.Forall₂ (RowHolds read_datetime) t.documents db.documents
  versions : List.Forall₂ VersionHolds t.versions db.versions

variable {read_datetime : Json → Option DateTime} {dump_datetime : DateTime → Json} {t : Tables}
  {db : Database} {row : KnowledgeDocumentRow} {model : KnowledgeDocumentModel}

/-! ## Rows -/

/-- The columns of a version that a query looks at. -/
structure SameVersion (row : KnowledgeDocumentVersionRow) (model : KnowledgeDocumentVersionModel) :
    Prop where
  id : row.id = model.id
  document_id : row.document_id = model.document_id
  version_number : row.version_number = model.version_number
  checksum_sha256 : row.checksum_sha256 = model.checksum_sha256

theorem same_version {row : KnowledgeDocumentVersionRow} {model : KnowledgeDocumentVersionModel}
    (h : VersionHolds row model) : SameVersion row model := by
  obtain ⟨_, _, hrow⟩ := bind_eq_ok.mp (h noon)
  obtain ⟨_, _, hrow⟩ := bind_eq_ok.mp hrow
  have hentity := Except.ok.inj hrow
  exact ⟨congrArg KnowledgeDocumentVersion.id hentity,
    congrArg KnowledgeDocumentVersion.document_id hentity,
    congrArg KnowledgeDocumentVersion.version_number hentity,
    congrArg KnowledgeDocumentVersion.checksum_sha256 hentity⟩

/-- A stored row parses to the typed one of its columns. -/
theorem row_holds_iff : RowHolds read_datetime row model ↔
    SourceType.of_value row.source_type = .ok model.source_type ∧
      DocumentStatus.of_value row.status = .ok model.status ∧
      KnowledgeMetadata.model_validate read_datetime row.metadata = some model.metadata ∧
      row.id = model.id ∧ row.tenant_id = model.tenant_id ∧ row.title = model.title ∧
      row.knowledge_space_id = model.knowledge_space_id ∧
      row.current_version_id = model.current_version_id ∧ row.created_by = model.created_by ∧
      row.deleted_at = model.deleted_at ∧ row.created_at = model.created_at ∧
      row.updated_at = model.updated_at := by
  constructor
  · intro h
    obtain ⟨source_type, status, metadata, hsource, hstatus, hmetadata, hentity⟩ :=
      doc_to_entity_ok.mp (h noon none)
    simp only [wide, cortex_rag.doc_to_entity, Option.getD_some, KnowledgeDocument.mk.injEq]
      at hentity
    obtain ⟨hid, htenant, htitle, rfl, hspace, hcurrent, rfl, rfl, hby, hcreated, hupdated,
      hdeleted, _⟩ := hentity
    exact ⟨hsource, hstatus, hmetadata, hid.symm, htenant.symm, htitle.symm, hspace.symm,
      hcurrent.symm, hby.symm, hdeleted.symm, hcreated.symm, hupdated.symm⟩
  · rintro ⟨hsource, hstatus, hmetadata, hid, htenant, htitle, hspace, hcurrent, hby, hdeleted,
      hcreated, hupdated⟩ now version
    refine doc_to_entity_ok.mpr ⟨_, _, _, hsource, hstatus, hmetadata, ?_⟩
    rw [hid, htenant, htitle, hspace, hcurrent, hby, hdeleted, hcreated, hupdated]
    rfl

theorem same_id (row : KnowledgeDocumentRow) (model : KnowledgeDocumentModel)
    (h : RowHolds read_datetime row model) : row.id = model.id :=
  (row_holds_iff.mp h).2.2.2.1

/-- Each row whose own values parse has a typed one. -/
theorem exists_typed_row (hsource : ∃ s, SourceType.of_value row.source_type = .ok s)
    (hstatus : ∃ s, DocumentStatus.of_value row.status = .ok s)
    (hmetadata : ∃ m, KnowledgeMetadata.model_validate read_datetime row.metadata = some m) :
    ∃ model, RowHolds read_datetime row model := by
  obtain ⟨source_type, hsource⟩ := hsource
  obtain ⟨status, hstatus⟩ := hstatus
  obtain ⟨metadata, hmetadata⟩ := hmetadata
  exact ⟨⟨row.id, row.tenant_id, row.knowledge_space_id, row.title, source_type,
    row.current_version_id, status, metadata, row.created_by, row.deleted_at, row.created_at,
    row.updated_at⟩, row_holds_iff.mpr ⟨hsource, hstatus, hmetadata, rfl, rfl, rfl, rfl, rfl, rfl,
      rfl, rfl, rfl⟩⟩

/-- Where each row parses, and each version has the integers and the texts of a typed one,
the tables are those of a typed database. -/
theorem exists_parsed (hrows : ∀ m ∈ t.documents, Parses read_datetime t m)
    (hversions : ∀ v ∈ t.versions, ∃ model, VersionHolds v model) :
    ∃ db, Parsed read_datetime t db := by
  obtain ⟨documents, hdocuments⟩ := exists_forall₂.mpr (fun m hm =>
    exists_typed_row (hrows m hm).source_type (hrows m hm).status (hrows m hm).metadata)
  obtain ⟨versions, hversions⟩ := exists_forall₂.mpr hversions
  exact ⟨{ documents, versions }, hdocuments, hversions⟩

/-! ## Reads -/

theorem load_version_agrees (h : Parsed read_datetime t db) (now : DateTime)
    (pointer : Option UUID) :
    SqlAlchemyDocumentRepository.load_version t pointer =
      .ok ((cortex_rag.SqlAlchemyDocumentRepository.load_version db pointer).map
        (wide_version now)) := by
  rcases pointer with _ | version_id
  · rfl
  · have hfind : Option.Rel VersionHolds
        (find KnowledgeDocumentVersionRow.id version_id t.versions)
        (find KnowledgeDocumentVersionModel.id version_id db.versions) :=
      forall₂_find h.versions (fun _ _ hv => by rw [(same_version hv).id])
    simp only [SqlAlchemyDocumentRepository.load_version,
      cortex_rag.SqlAlchemyDocumentRepository.load_version]
    generalize find KnowledgeDocumentVersionRow.id version_id t.versions = found at hfind ⊢
    generalize find KnowledgeDocumentVersionModel.id version_id db.versions = found' at hfind ⊢
    cases hfind with
    | none => rfl
    | some hv =>
      simp only [hv now]
      rfl

theorem read_agrees (h : Parsed read_datetime t db) (hrow : RowHolds read_datetime row model)
    (now : DateTime) :
    SqlAlchemyDocumentRepository.read read_datetime t row =
      .ok (wide now (cortex_rag.doc_to_entity model
        (cortex_rag.SqlAlchemyDocumentRepository.load_version db model.current_version_id))) := by
  obtain ⟨_, _, _, _, _, _, _, hcurrent, _⟩ := row_holds_iff.mp hrow
  refine read_ok.mpr ⟨_, load_version_agrees h now row.current_version_id, ?_⟩
  rw [hcurrent]
  exact hrow now _

theorem get_agrees (h : Parsed read_datetime t db) (now : DateTime) (tenant_id : String)
    (document_id : UUID) :
    SqlAlchemyDocumentRepository.get read_datetime t tenant_id document_id =
      .ok ((cortex_rag.SqlAlchemyDocumentRepository.get db tenant_id document_id).map
        (wide now)) := by
  have hfind : Option.Rel (RowHolds read_datetime)
      (t.documents.find? (fun m =>
        m.id = document_id ∧ m.tenant_id = tenant_id ∧ m.deleted_at = none))
      (cortex_rag.SqlAlchemyDocumentRepository.live_row db tenant_id document_id) := by
    refine forall₂_find h.documents ?_
    intro row model hrow
    obtain ⟨_, _, _, hid, htenant, _, _, _, _, hdeleted, _⟩ := row_holds_iff.mp hrow
    rw [hid, htenant, hdeleted]
  unfold SqlAlchemyDocumentRepository.get cortex_rag.SqlAlchemyDocumentRepository.get
  generalize t.documents.find? _ = found at hfind ⊢
  generalize cortex_rag.SqlAlchemyDocumentRepository.live_row db tenant_id document_id = found'
    at hfind ⊢
  cases hfind with
  | none => rfl
  | some hrow =>
    simp only [read_agrees h hrow now]
    rfl

/-- Rows of the same ids come in one order. -/
theorem ordered_agrees {α β : Type} {R : α → β → Prop} {first : α → α → Bool}
    {first' : β → β → Bool} {id : α → UUID} {id' : β → UUID} (order : RowOrder)
    (hid : ∀ row model, R row model → id row = id' model)
    (hfirst : ∀ row model row' model', R row model → R row' model' →
      first row row' = first' model model')
    {rows : List α} {models : List β} (h : List.Forall₂ R rows models) :
    List.Forall₂ R (ordered first order id rows) (ordered first' order id' models) := by
  refine forall₂_insertionSort h ?_
  intro row model row' model' hrow hrow'
  rw [hfirst row model row' model' hrow hrow', hfirst row' model' row model hrow' hrow,
    hid row model hrow, hid row' model' hrow']

theorem checksum_rows_agree (h : Parsed read_datetime t db) (tenant_id checksum_sha256 : String) :
    List.Forall₂ (RowHolds read_datetime)
      (SqlAlchemyDocumentRepository.checksum_rows t tenant_id checksum_sha256)
      (cortex_rag.SqlAlchemyDocumentRepository.checksum_rows db tenant_id checksum_sha256) := by
  refine List.rel_flatMap h.documents ?_
  intro row model hrow
  obtain ⟨_, _, _, hid, htenant, _, _, _, _, hdeleted, _⟩ := row_holds_iff.mp hrow
  refine List.rel_map (fun _ _ _ => hrow) (List.rel_filter ?_ h.versions)
  intro v v' hv
  have hsame := same_version hv
  simp only [hsame.document_id, hsame.checksum_sha256, hid, htenant, hdeleted]

theorem get_by_checksum_agrees (h : Parsed read_datetime t db) (now : DateTime) (order : RowOrder)
    (tenant_id checksum_sha256 : String) :
    SqlAlchemyDocumentRepository.get_by_checksum read_datetime order t tenant_id checksum_sha256 =
      .ok ((cortex_rag.SqlAlchemyDocumentRepository.get_by_checksum order db tenant_id
        checksum_sha256).map (wide now)) := by
  have hordered : List.Forall₂ (RowHolds read_datetime)
      (ordered (fun _ _ => true) order KnowledgeDocumentRow.id
        (SqlAlchemyDocumentRepository.checksum_rows t tenant_id checksum_sha256))
      (ordered (fun _ _ => true) order KnowledgeDocumentModel.id
        (cortex_rag.SqlAlchemyDocumentRepository.checksum_rows db tenant_id checksum_sha256)) :=
    ordered_agrees order same_id (fun _ _ _ _ _ _ => rfl)
      (checksum_rows_agree h tenant_id checksum_sha256)
  unfold SqlAlchemyDocumentRepository.get_by_checksum
    cortex_rag.SqlAlchemyDocumentRepository.get_by_checksum
  generalize ordered _ order KnowledgeDocumentRow.id _ = rows at hordered ⊢
  generalize ordered _ order KnowledgeDocumentModel.id _ = models at hordered ⊢
  cases hordered with
  | nil => rfl
  | cons hrow _ =>
    simp only [List.head?_cons, read_agrees h hrow now]
    rfl

theorem keyed_typed_versions (hs : Stored t) (h : Parsed read_datetime t db) :
    Keyed KnowledgeDocumentVersionModel.id db.versions := by
  have hids := map_of_forall₂ h.versions (fun _ _ hv => (same_version hv).id.symm)
  have hkeyed := hs.versions
  unfold Keyed at hkeyed ⊢
  rw [hids]
  exact hkeyed

theorem listed_rows_agree (h : Parsed read_datetime t db) (tenant_id : String)
    (knowledge_space_id : Option UUID) :
    List.Forall₂ (RowHolds read_datetime)
      (t.documents.filter (SqlAlchemyDocumentRepository.listed tenant_id knowledge_space_id))
      (db.documents.filter
        (cortex_rag.SqlAlchemyDocumentRepository.listed tenant_id knowledge_space_id)) := by
  refine List.rel_filter ?_ h.documents
  intro row model hrow
  obtain ⟨_, _, _, _, htenant, _, hspace, _, _, hdeleted, _⟩ := row_holds_iff.mp hrow
  simp only [SqlAlchemyDocumentRepository.listed, cortex_rag.SqlAlchemyDocumentRepository.listed,
    htenant, hspace, hdeleted]

theorem list_documents_agrees (hs : Stored t) (h : Parsed read_datetime t db) (now : DateTime)
    (order : RowOrder) (tenant_id : String) (knowledge_space_id : Option UUID)
    (limit offset : Nat) :
    SqlAlchemyDocumentRepository.list_documents read_datetime order t tenant_id knowledge_space_id
        limit offset =
      .ok ((cortex_rag.SqlAlchemyDocumentRepository.list_documents order db tenant_id
          knowledge_space_id limit offset).1.map (wide now),
        (cortex_rag.SqlAlchemyDocumentRepository.list_documents order db tenant_id
          knowledge_space_id limit offset).2) := by
  have hrows := listed_rows_agree h tenant_id knowledge_space_id
  have hitems : (cortex_rag.SqlAlchemyDocumentRepository.list_documents order db tenant_id
      knowledge_space_id limit offset).1 = (page limit offset
        (ordered (fun a b => b.created_at.le a.created_at) order KnowledgeDocumentModel.id
          (db.documents.filter (cortex_rag.SqlAlchemyDocumentRepository.listed tenant_id
            knowledge_space_id)))).map (fun m => cortex_rag.doc_to_entity m
              (cortex_rag.SqlAlchemyDocumentRepository.load_version db m.current_version_id)) :=
    List.map_congr_left (fun m hm => by
      rw [cortex_rag.SqlAlchemyDocumentRepository.load_listed_version
        (keyed_typed_versions hs h) hm])
  refine (SqlAlchemyDocumentRepository.list_documents_ok hs).mpr ⟨?_, hrows.length_eq.symm⟩
  rw [hitems, mapM_eq_ok, List.forall₂_map_right_iff, List.forall₂_map_right_iff]
  refine List.Forall₂.imp (fun _ _ hrow => read_agrees h hrow now)
    (List.forall₂_take _ (List.forall₂_drop _ (ordered_agrees order
      same_id ?_ hrows)))
  intro row model row' model' hrow hrow'
  obtain ⟨_, _, _, _, _, _, _, _, _, _, hcreated, _⟩ := row_holds_iff.mp hrow
  obtain ⟨_, _, _, _, _, _, _, _, _, _, hcreated', _⟩ := row_holds_iff.mp hrow'
  rw [hcreated, hcreated']

/-! ## Jobs -/

/-- A job with the integers of its columns. -/
def wide_job (now : DateTime) (job : cortex_rag.ProcessingJob) : ProcessingJob where
  id := job.id
  document_id := job.document_id
  tenant_id := job.tenant_id
  job_type := job.job_type
  status := job.status
  version_id := job.version_id
  priority := job.priority
  retry_count := job.retry_count
  progress := job.progress
  worker_name := job.worker_name
  error_message := job.error_message
  started_at := job.started_at
  finished_at := job.finished_at
  created_at := job.created_at.getD now
  updated_at := job.updated_at.getD now

/-- The stored job parses to the typed one. -/
def JobHolds (row : ProcessingJobRow) (model : ProcessingJobModel) : Prop :=
  ∀ now, to_entity row = .ok (wide_job now (cortex_rag.to_entity model))

/-- The columns of a job that a query looks at. -/
structure SameJob (row : ProcessingJobRow) (model : ProcessingJobModel) : Prop where
  id : row.id = model.id
  tenant_id : row.tenant_id = model.tenant_id
  document_id : row.document_id = model.document_id
  status : row.status = model.status.str
  created_at : row.created_at = model.created_at

theorem same_job {row : ProcessingJobRow} {model : ProcessingJobModel} (h : JobHolds row model) :
    SameJob row model := by
  obtain ⟨_, _, _, hstatus, hentity⟩ := to_entity_ok.mp (h noon)
  simp only [wide_job, cortex_rag.to_entity, Option.getD_some, ProcessingJob.mk.injEq] at hentity
  obtain ⟨hid, hdocument, htenant, _, rfl, _, _, _, _, _, _, _, _, hcreated, _⟩ := hentity
  exact ⟨hid.symm, htenant.symm, hdocument.symm, job_status_of_value.mp hstatus, hcreated.symm⟩

theorem same_job_id (row : ProcessingJobRow) (model : ProcessingJobModel)
    (h : JobHolds row model) : row.id = model.id :=
  (same_job h).id

theorem listed_jobs_agree {rows : List ProcessingJobRow} {jobs : List ProcessingJobModel}
    (h : List.Forall₂ JobHolds rows jobs) (tenant_id : String) (document_id : Option UUID)
    (status : Option ProcessingJobStatus) :
    List.Forall₂ JobHolds
      (rows.filter (SqlAlchemyProcessingJobRepository.listed tenant_id document_id status))
      (jobs.filter
        (cortex_rag.SqlAlchemyProcessingJobRepository.listed tenant_id document_id status)) := by
  refine List.rel_filter ?_ h
  intro row model hholds
  have hsame := same_job hholds
  have hstatus : status.map ProcessingJobStatus.str = some row.status ↔
      status = some model.status := by
    rw [hsame.status]
    cases status with
    | none => simp
    | some s => simp [ProcessingJobStatus.str_inj]
  simp only [SqlAlchemyProcessingJobRepository.listed,
    cortex_rag.SqlAlchemyProcessingJobRepository.listed, hsame.tenant_id, hsame.document_id,
    hstatus]

theorem list_jobs_agrees {rows : List ProcessingJobRow} {jobs : List ProcessingJobModel}
    (h : List.Forall₂ JobHolds rows jobs) (now : DateTime) (order : RowOrder) (tenant_id : String)
    (document_id : Option UUID) (status : Option ProcessingJobStatus) (limit offset : Nat) :
    SqlAlchemyProcessingJobRepository.list_jobs order rows tenant_id document_id status limit
        offset =
      .ok ((cortex_rag.SqlAlchemyProcessingJobRepository.list_jobs order jobs tenant_id document_id
          status limit offset).1.map (wide_job now),
        (cortex_rag.SqlAlchemyProcessingJobRepository.list_jobs order jobs tenant_id document_id
          status limit offset).2) := by
  have hlisted := listed_jobs_agree h tenant_id document_id status
  refine SqlAlchemyProcessingJobRepository.list_jobs_ok.mpr ⟨?_, hlisted.length_eq.symm⟩
  rw [mapM_eq_ok, cortex_rag.SqlAlchemyProcessingJobRepository.list_jobs,
    List.forall₂_map_right_iff, List.forall₂_map_right_iff]
  refine List.Forall₂.imp (fun _ _ hholds => hholds now) (List.forall₂_take _
    (List.forall₂_drop _ (ordered_agrees order same_job_id ?_ hlisted)))
  intro row model row' model' hrow hrow'
  rw [(same_job hrow).created_at, (same_job hrow').created_at]

/-! ## Writes -/

/-- A row parses to one typed row. -/
theorem row_holds_unique {model' : KnowledgeDocumentModel} (h : RowHolds read_datetime row model)
    (h' : RowHolds read_datetime row model') : model = model' := by
  obtain ⟨hsource, hstatus, hmetadata, hid, htenant, htitle, hspace, hcurrent, hby, hdeleted,
    hcreated, hupdated⟩ := row_holds_iff.mp h
  obtain ⟨hsource', hstatus', hmetadata', hid', htenant', htitle', hspace', hcurrent', hby',
    hdeleted', hcreated', hupdated'⟩ := row_holds_iff.mp h'
  cases model
  cases model'
  simp only [KnowledgeDocumentModel.mk.injEq]
  exact ⟨hid.symm.trans hid', htenant.symm.trans htenant', hspace.symm.trans hspace',
    htitle.symm.trans htitle', Except.ok.inj (hsource.symm.trans hsource'),
    hcurrent.symm.trans hcurrent', Except.ok.inj (hstatus.symm.trans hstatus'),
    Option.some.inj (hmetadata.symm.trans hmetadata'), hby.symm.trans hby',
    hdeleted.symm.trans hdeleted', hcreated.symm.trans hcreated', hupdated.symm.trans hupdated'⟩

/-- A change of the row of one document, with the time that the flush leaves on it. -/
theorem modify_agrees (hs : Stored t) (h : Parsed read_datetime t db) (k : UUID)
    {f : DateTime → KnowledgeDocumentRow → KnowledgeDocumentRow}
    {g : KnowledgeDocumentModel → KnowledgeDocumentModel}
    (hfg : ∀ row model, RowHolds read_datetime row model →
      RowHolds read_datetime (f (g model).updated_at row) (g model)) :
    ∃ updated_at, List.Forall₂ (RowHolds read_datetime)
      (modify KnowledgeDocumentRow.id k (f updated_at) t.documents)
      (modify KnowledgeDocumentModel.id k g db.documents) := by
  have hkeep : ∀ updated_at, (∀ row ∈ t.documents, ∀ model, RowHolds read_datetime row model →
      row.id = k → RowHolds read_datetime (f updated_at row) (g model)) →
      List.Forall₂ (RowHolds read_datetime)
        (modify KnowledgeDocumentRow.id k (f updated_at) t.documents)
        (modify KnowledgeDocumentModel.id k g db.documents) := by
    intro updated_at hchange
    unfold keyed_rows.modify
    rw [List.forall₂_map_left_iff, List.forall₂_map_right_iff]
    refine forall₂_imp_mem h.documents ?_
    intro row hrow model hholds
    obtain ⟨_, _, _, hid, _⟩ := row_holds_iff.mp hholds
    by_cases hk : row.id = k
    · rw [if_pos hk, if_pos (hid ▸ hk)]
      exact hchange row hrow model hholds hk
    · rw [if_neg hk, if_neg (hid ▸ hk)]
      exact hholds
  by_cases hfound : ∃ row ∈ t.documents, row.id = k
  · obtain ⟨row, hrow, rfl⟩ := hfound
    obtain ⟨model, hholds⟩ := exists_forall₂.mp ⟨_, h.documents⟩ row hrow
    refine ⟨(g model).updated_at, hkeep _ ?_⟩
    intro row' hrow' model' hholds' hid
    obtain rfl := eq_of_key _ hs.documents hrow' hrow hid
    rw [row_holds_unique hholds' hholds]
    exact hfg _ _ hholds
  · exact ⟨noon, hkeep _ (fun row hrow _ _ hid => absurd ⟨row, hrow, hid⟩ hfound)⟩

/-- A flush changes no column but `updated_at`. -/
theorem flushed_eq (db_now : DateTime) (old new : KnowledgeDocumentModel) :
    old.flushed db_now new = { new with updated_at := (old.flushed db_now new).updated_at } := by
  unfold KnowledgeDocumentModel.flushed
  split
  · rename_i hsame
    rw [hsame]
  · rfl

/-- `update` with the copy that a call holds keeps the tables alike. -/
theorem update_agrees (hs : Stored t) (h : Parsed read_datetime t db) (now db_now : DateTime)
    (document : cortex_rag.KnowledgeDocument)
    (hvalid : KnowledgeMetadata.model_validate read_datetime
      (KnowledgeMetadata.model_dump dump_datetime document.metadata) = some document.metadata) :
    ∃ updated_at, Parsed read_datetime
      (SqlAlchemyDocumentRepository.update dump_datetime t updated_at (wide now document))
      (cortex_rag.SqlAlchemyDocumentRepository.update db db_now document) := by
  have hcolumns : ∀ row model, RowHolds read_datetime row model → RowHolds read_datetime
      (SqlAlchemyDocumentRepository.update_columns dump_datetime
        (cortex_rag.SqlAlchemyDocumentRepository.update_columns db_now document model).updated_at
        (wide now document) row)
      (cortex_rag.SqlAlchemyDocumentRepository.update_columns db_now document model) := by
    intro row model hholds
    obtain ⟨hsource, _, _, hid, htenant, _, _, _, hby, _, hcreated, _⟩ := row_holds_iff.mp hholds
    unfold SqlAlchemyDocumentRepository.update_columns
      cortex_rag.SqlAlchemyDocumentRepository.update_columns
    by_cases hother : model.tenant_id ≠ document.tenant_id
    · rw [if_pos hother, if_pos (by rw [htenant]; exact hother)]
      exact hholds
    · rw [if_neg hother, if_neg (by rw [htenant]; exact hother), flushed_eq]
      exact row_holds_iff.mpr ⟨hsource, document_status_of_value _, hvalid, hid, htenant, rfl, rfl,
        rfl, hby, rfl, hcreated, rfl⟩
  obtain ⟨updated_at, hdocuments⟩ := modify_agrees hs h document.id (f := fun updated_at =>
    SqlAlchemyDocumentRepository.update_columns dump_datetime updated_at (wide now document))
    hcolumns
  exact ⟨updated_at, hdocuments, h.versions⟩

/-- The row of a new version parses to the typed one. -/
theorem new_version_holds (now db_now : DateTime) {version : cortex_rag.KnowledgeDocumentVersion}
    (hkeyed : Keyed Prod.fst version.metadata) :
    VersionHolds (version_to_model db_now (wide_version now version))
      (cortex_rag.version_to_model db_now version) := by
  intro now'
  have hdict : dict (.object (version.metadata.map text_field)) =
      .ok (version.metadata.map text_field) := by
    rw [dict, merged_eq (keyed_texts.mpr hkeyed)]
  unfold version_to_entity
  simp only [version_to_model, wide_version, storage_provider_of_value, hdict]
  rfl

/-- A version that the stored table takes, the typed one takes. -/
theorem insert_agrees (h : List.Forall₂ VersionHolds t.versions db.versions)
    {row : KnowledgeDocumentVersionRow} {model : KnowledgeDocumentVersionModel}
    (hholds : VersionHolds row model) {t' : Tables} (hinsert : insert_version t row = .ok t') :
    model.number_key ∉ db.versions.map KnowledgeDocumentVersionModel.number_key ∧
      t'.documents = t.documents ∧
      List.Forall₂ VersionHolds t'.versions (db.versions ++ [model]) := by
  obtain ⟨hnumber, _, rfl⟩ := insert_version_ok hinsert
  refine ⟨?_, rfl, List.rel_append h (.cons hholds .nil)⟩
  intro hmem
  obtain ⟨other, hother, hkey⟩ := List.mem_map.mp hmem
  obtain ⟨row', hrow', hholds'⟩ := exists_of_mem_right h hother
  have hsame := same_version hholds
  have hsame' := same_version hholds'
  obtain ⟨hdocument, hversion⟩ := Prod.mk.inj hkey
  refine hnumber (List.mem_map.mpr ⟨row', hrow', ?_⟩)
  unfold number_key
  rw [hsame.document_id, hsame.version_number, hsame'.document_id, hsame'.version_number, hdocument,
    hversion]

/-- A document that the stored tables take, the typed ones take. -/
theorem add_agrees (h : Parsed read_datetime t db) (now db_now : DateTime)
    {document : cortex_rag.KnowledgeDocument} {version : cortex_rag.KnowledgeDocumentVersion}
    (hvalid : KnowledgeMetadata.model_validate read_datetime
      (KnowledgeMetadata.model_dump dump_datetime document.metadata) = some document.metadata)
    (hkeyed : Keyed Prod.fst version.metadata) {t' : Tables}
    (hadd : SqlAlchemyDocumentRepository.add dump_datetime t db_now (wide now document)
      (wide_version now version) = .ok t') :
    ∃ db', cortex_rag.SqlAlchemyDocumentRepository.add db db_now document version = .ok db' ∧
      Parsed read_datetime t' db' := by
  obtain ⟨documents, hdocuments, hinsert⟩ := bind_eq_ok.mp hadd
  obtain ⟨_, rfl⟩ := insert_unique_ok.mp hdocuments
  obtain ⟨hnew, hrows, hversions⟩ := insert_agrees
    (t := ⟨t.documents ++ [doc_to_model dump_datetime db_now (wide now document)], t.versions⟩)
    h.versions (new_version_holds now db_now hkeyed) hinsert
  refine ⟨_, cortex_rag.SqlAlchemyDocumentRepository.add_ok.mpr ⟨hnew, rfl⟩, ?_, hversions⟩
  rw [hrows]
  refine List.rel_append h.documents (.cons ?_ .nil)
  exact row_holds_iff.mpr ⟨source_type_of_value _, document_status_of_value _, hvalid, rfl, rfl,
    rfl, rfl, rfl, rfl, rfl, rfl, rfl⟩

/-- A version that the stored tables take, the typed ones take. -/
theorem add_version_agrees (hs : Stored t) (h : Parsed read_datetime t db) (now db_now : DateTime)
    (document : cortex_rag.KnowledgeDocument) {version : cortex_rag.KnowledgeDocumentVersion}
    (hkeyed : Keyed Prod.fst version.metadata) :
    ∃ updated_at, ∀ t', SqlAlchemyDocumentRepository.add_version t db_now updated_at
        (wide now document) (wide_version now version) = .ok t' →
      ∃ db', cortex_rag.SqlAlchemyDocumentRepository.add_version db db_now document version =
          .ok db' ∧ Parsed read_datetime t' db' := by
  have hcolumns : ∀ row model, RowHolds read_datetime row model → RowHolds read_datetime
      { row with
        current_version_id := document.current_version_id
        status := document.status.value
        updated_at := (cortex_rag.SqlAlchemyDocumentRepository.add_version_columns db_now document
          model).updated_at }
      (cortex_rag.SqlAlchemyDocumentRepository.add_version_columns db_now document model) := by
    intro row model hholds
    obtain ⟨hsource, _, hmetadata, hid, htenant, htitle, hspace, _, hby, hdeleted, hcreated, _⟩ :=
      row_holds_iff.mp hholds
    unfold cortex_rag.SqlAlchemyDocumentRepository.add_version_columns
    rw [flushed_eq]
    exact row_holds_iff.mpr ⟨hsource, document_status_of_value _, hmetadata, hid, htenant, htitle,
      hspace, rfl, hby, hdeleted, hcreated, rfl⟩
  obtain ⟨updated_at, hdocuments⟩ := modify_agrees hs h document.id (f := fun updated_at row =>
    { row with
      current_version_id := document.current_version_id
      status := document.status.value
      updated_at }) hcolumns
  refine ⟨updated_at, ?_⟩
  intro t' hadd
  obtain ⟨inserted, hinsert, hrest⟩ := bind_eq_ok.mp hadd
  obtain ⟨hnew, hrows, hversions⟩ :=
    insert_agrees h.versions (new_version_holds now db_now hkeyed) hinsert
  cases hrest
  refine ⟨_, cortex_rag.SqlAlchemyDocumentRepository.add_version_ok.mpr ⟨hnew, rfl⟩, ?_, hversions⟩
  simp only [hrows]
  exact hdocuments

end cortex_rag.migrations.parsed_rows
