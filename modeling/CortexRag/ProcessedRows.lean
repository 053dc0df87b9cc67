-- Which document a step has processed, and what a step makes of the rows of
-- documents and jobs: where each row of the world after it comes from.
import CortexRag.Duplicates

open keyed_rows state_programs

namespace cortex_rag.service

/-! ## The run of a step -/

/-- The job that the handling of a message has made COMPLETED. -/
def completed_job (w w' : World) (message : Message) : Option ProcessingJob :=
  match SqlAlchemyProcessingJobRepository.get w.db.jobs message.tenant_id message.job_id with
  | none => none
  | some job =>
    if job.status ≠ .Completed ∧
        (SqlAlchemyProcessingJobRepository.get w'.db.jobs message.tenant_id
          message.job_id).map (fun j => j.status) = some .Completed then some job
    else none

/-- The tenant and the document of the `ProcessDocumentUseCase` run that a step
has brought to its end and committed. -/
def processed_document (P : Providers) (settings : Settings) (w : World) (r : Request) :
    Option (String × UUID) :=
  match r.operation with
  | .Process data =>
    match (w.perform P settings r).1 with
    | .ok _ => some (data.tenant_id, data.document_id)
    | .error _ => none
  | .Handle message =>
    (completed_job w (w.perform P settings r).2 message).map
      (fun job => (job.tenant_id, job.document_id))
  | _ => none

/-- The version whose bytes a run on the document reads. -/
def version_read (db : Database) (tenant_id : String) (document_id : UUID) : Option UUID :=
  match ProcessDocumentUseCase.load db tenant_id document_id with
  | .ok (_, version) => some version.id
  | .error _ => none

variable {P : Providers} {settings : Settings} {m : Moment} {w w' : World} {r : Request}

/-- A run reads the version that the document points to. -/
theorem version_read_eq {db : Database} {tenant_id : String} {document_id : UUID}
    {document : KnowledgeDocument} {version : KnowledgeDocumentVersion}
    (hget : SqlAlchemyDocumentRepository.get db tenant_id document_id = some document)
    (hactive : document.active_version = some version) :
    version_read db tenant_id document_id = some version.id ∧
      document.current_version_id = some version.id := by
  constructor
  · unfold version_read ProcessDocumentUseCase.load
    simp only [hget, hactive]
  · obtain ⟨row, _, _, _, _, rfl⟩ := SqlAlchemyDocumentRepository.get_row hget
    simp only [doc_to_entity, SqlAlchemyDocumentRepository.load_version] at hactive ⊢
    split at hactive
    · cases hactive
    · rename_i id hid
      obtain ⟨v, hv, rfl⟩ := Option.map_eq_some_iff.mp hactive
      rw [hid, ← (find_some _ hv).2]
      rfl

/-! ## The jobs of an execution -/

/-- The status of a row that has been written. -/
theorem written_status {jobs : List ProcessingJobModel} {tenant_id : String} {job_id : UUID}
    {job job' : ProcessingJob} (db_now : DateTime)
    (hget : SqlAlchemyProcessingJobRepository.get jobs tenant_id job_id = some job)
    (hid : job'.id = job.id) :
    ∃ written, SqlAlchemyProcessingJobRepository.get
        (SqlAlchemyProcessingJobRepository.update jobs db_now job') tenant_id job_id =
          some written ∧ written.status = job'.status ∧ written.id = job.id := by
  unfold SqlAlchemyProcessingJobRepository.get at hget ⊢
  obtain ⟨row, hrow, rfl⟩ := Option.map_eq_some_iff.mp hget
  have hself : row.id = job'.id := hid.symm
  have hkept : (fun j : ProcessingJobModel => decide (j.id = job_id ∧ j.tenant_id = tenant_id)) ∘
      (fun j => if j.id = job'.id then
        SqlAlchemyProcessingJobRepository.update_columns db_now job' j else j) =
      fun j => decide (j.id = job_id ∧ j.tenant_id = tenant_id) := by
    funext j
    by_cases hj : j.id = job'.id <;> simp [hj]
  unfold SqlAlchemyProcessingJobRepository.update keyed_rows.modify
  rw [List.find?_map, hkept, hrow]
  simp only [Option.map_some, hself, if_true]
  refine ⟨_, rfl, ?_, ?_⟩
  · exact SqlAlchemyProcessingJobRepository.update_columns_status _ _ _
  · exact (SqlAlchemyProcessingJobRepository.update_columns_id _ _ _).trans (hself.trans hid)

/-- The rows before and after the writes of an execution, which ends with the
job `last`: one row has its status, and the others stay. -/
structure Wrote (jobs jobs' : List ProcessingJobModel) (job last : ProcessingJob) : Prop where
  before : ∀ j' ∈ jobs', (j' ∈ jobs ∧ j'.id ≠ job.id) ∨
    ∃ j ∈ jobs, j.id = job.id ∧ j'.origin = j.origin ∧ j'.status = last.status
  kept : ∀ j ∈ jobs, j.id ≠ job.id → j ∈ jobs'
  written : ∀ j ∈ jobs, j.id = job.id →
    ∃ j' ∈ jobs', j'.origin = j.origin ∧ j'.status = last.status

theorem wrote_update {jobs : List ProcessingJobModel} (db_now : DateTime)
    {job last : ProcessingJob} (hid : last.id = job.id) :
    Wrote jobs (SqlAlchemyProcessingJobRepository.update jobs db_now last) job last := by
  refine ⟨?_, ?_, ?_⟩
  · intro j' hj'
    rcases SqlAlchemyProcessingJobRepository.mem_update hj' with ⟨hj, hne⟩ | ⟨j, hj, hjid, rfl⟩
    · exact Or.inl ⟨hj, hid ▸ hne⟩
    · exact Or.inr ⟨j, hj, hjid.trans hid, by simp, by simp⟩
  · intro j hj hne
    unfold SqlAlchemyProcessingJobRepository.update
    rw [mem_modify]
    exact ⟨j, hj, if_neg (fun he => hne (he.trans hid))⟩
  · intro j hj hjid
    refine ⟨SqlAlchemyProcessingJobRepository.update_columns db_now last j, ?_, by simp, by simp⟩
    unfold SqlAlchemyProcessingJobRepository.update
    rw [mem_modify]
    exact ⟨j, hj, if_pos (hjid.trans hid.symm)⟩

theorem wrote_again {jobs jobs' : List ProcessingJobModel} (db_now : DateTime)
    {job first last : ProcessingJob} (hid : last.id = job.id) (h : Wrote jobs jobs' job first) :
    Wrote jobs (SqlAlchemyProcessingJobRepository.update jobs' db_now last) job last := by
  have hnext : Wrote jobs' (SqlAlchemyProcessingJobRepository.update jobs' db_now last) job last :=
    wrote_update db_now hid
  have hsame : ∀ j j' : ProcessingJobModel, j'.origin = j.origin → j'.id = j.id :=
    fun _ _ ho => congrArg Prod.fst ho
  refine ⟨?_, ?_, ?_⟩
  · intro j'' hj''
    rcases hnext.before j'' hj'' with ⟨hj', hne⟩ | ⟨j', hj', hid', horigin, hstatus⟩
    · rcases h.before j'' hj' with hkept | ⟨j, _, hjid, horigin, _⟩
      · exact Or.inl hkept
      · exact absurd ((hsame j j'' horigin).trans hjid) hne
    · rcases h.before j' hj' with ⟨hj, hne⟩ | ⟨j, hj, hjid, horigin', _⟩
      · exact absurd hid' hne
      · exact Or.inr ⟨j, hj, hjid, horigin.trans horigin', hstatus⟩
  · intro j hj hne
    exact hnext.kept j (h.kept j hj hne) hne
  · intro j hj hjid
    obtain ⟨j', hj', horigin, _⟩ := h.written j hj hjid
    obtain ⟨j'', hj'', horigin', hstatus⟩ := hnext.written j' hj' ((hsame j j' horigin).trans hjid)
    exact ⟨j'', hj'', horigin'.trans horigin, hstatus⟩

/-- What the handling of a message does to the rows: no run has ended, or the
run of a job has, and its document is PROCESSED. -/
inductive Handled (P : Providers) (m : Moment) (w w' : World) (message : Message) : Prop where
  | unfinished :
    completed_job w w' message = none → w'.db.documents = w.db.documents →
    w'.db.versions = w.db.versions →
    (w'.db.jobs = w.db.jobs ∨ ∃ job last, job.status ≠ .Completed ∧ last.status ≠ .Completed ∧
      SqlAlchemyProcessingJobRepository.get w.db.jobs message.tenant_id message.job_id = some job ∧
      Wrote w.db.jobs w'.db.jobs job last) →
    Handled P m w w' message
  | finished (job last : ProcessingJob) (document : KnowledgeDocument) :
    completed_job w w' message = some job → job.status ≠ .Completed → last.status = .Completed →
    SqlAlchemyProcessingJobRepository.get w.db.jobs message.tenant_id message.job_id = some job →
    Wrote w.db.jobs w'.db.jobs job last →
    Ingested P w job.tenant_id job.document_id document w'.points →
    w'.db.documents = (SqlAlchemyDocumentRepository.update w.db m.db_now
      (ProcessDocumentUseCase.processed document)).documents →
    w'.db.versions = w.db.versions → Handled P m w w' message

theorem completed_job_of_kept {message : Message} (h : w'.db.jobs = w.db.jobs) :
    completed_job w w' message = none := by
  unfold completed_job
  rw [h]
  split
  · rfl
  · rename_i job hget
    rw [hget]
    simp only [Option.map_some, Option.some.injEq]
    exact if_neg (fun hand => hand.1 hand.2)

theorem completed_job_of_status {message : Message} {job written : ProcessingJob}
    (hget : SqlAlchemyProcessingJobRepository.get w.db.jobs message.tenant_id message.job_id =
      some job)
    (hget' : SqlAlchemyProcessingJobRepository.get w'.db.jobs message.tenant_id message.job_id =
      some written) (hopen : job.status ≠ .Completed) :
    completed_job w w' message = if written.status = .Completed then some job else none := by
  unfold completed_job
  simp only [hget, hget', Option.map_some, Option.some.injEq, hopen, ne_eq, not_false_eq_true,
    true_and]

theorem handled_of_executed {message : Message} {job : ProcessingJob}
    (hget : SqlAlchemyProcessingJobRepository.get w.db.jobs message.tenant_id message.job_id =
      some job) (he : Executed P settings m w job w') : Handled P m w w' message := by
  cases he with
  | refused job' events hrefused hb =>
    obtain ⟨hid, _, hstatus, _⟩ := WorkerExecutor.refused_ok hrefused
    have hopen : job.status ≠ .Completed := by
      unfold WorkerExecutor.refused at hrefused
      simp only [bind, Except.bind] at hrefused
      split at hrefused
      · cases hrefused
      · rename_i failed hfail
        intro hcompleted
        have hterminal := ProcessingJob.open_of_fail hfail
        simp [ProcessingJob.is_terminal, TERMINAL_JOB_STATUSES, hcompleted] at hterminal
    obtain ⟨written, hget', hwritten, _⟩ := written_status m.db_now hget hid
    refine .unfinished ?_ (by rw [hb.db]) (by rw [hb.db]) (Or.inr ⟨job, job', hopen, ?_, hget, ?_⟩)
    · rw [completed_job_of_status hget (by rw [hb.db]; exact hget') hopen, hwritten, hstatus]
      exact if_neg (by decide)
    · simp [hstatus]
    · rw [hb.db]
      exact wrote_update m.db_now hid
  | failed name text job1 job2 events more enqueued points hstarted hfinished hpartial hb =>
    obtain ⟨hqueued, hid1, _⟩ := WorkerExecutor.started_ok hstarted
    obtain ⟨horigin, hcases⟩ := WorkerExecutor.finished_cases hfinished
    have hid2 : job2.id = job.id := (congrArg Prod.fst horigin).trans hid1
    have hopen : job.status ≠ .Completed := by simp [hqueued]
    have hnot : job2.status ≠ .Completed := by
      rcases hcases with ⟨_, _, hnone⟩ | ⟨hstatus, _⟩ | ⟨hstatus, _⟩
      · cases hnone
      · simp [hstatus]
      · simp [hstatus]
    obtain ⟨written1, hget1, _, hwid1⟩ := written_status m.db_now hget hid1
    obtain ⟨written2, hget2, hwritten, _⟩ :=
      written_status m.db_now hget1 (hid2.trans hwid1.symm)
    refine .unfinished ?_ (by rw [hb.db]) (by rw [hb.db])
      (Or.inr ⟨job, job2, hopen, hnot, hget, ?_⟩)
    · rw [completed_job_of_status hget (by rw [hb.db]; exact hget2) hopen, hwritten]
      exact if_neg hnot
    · rw [hb.db]
      exact wrote_again m.db_now hid2 (wrote_update m.db_now hid1)
  | completed name job1 job2 events more enqueued document points hstarted hfinished hi hb =>
    obtain ⟨hqueued, hid1, _⟩ := WorkerExecutor.started_ok hstarted
    obtain ⟨horigin, hcases⟩ := WorkerExecutor.finished_cases hfinished
    have hid2 : job2.id = job.id := (congrArg Prod.fst horigin).trans hid1
    have hopen : job.status ≠ .Completed := by simp [hqueued]
    have hdone : job2.status = .Completed := by
      rcases hcases with ⟨hstatus, _⟩ | ⟨_, _, hne, _⟩ | ⟨_, _, hne, _⟩
      · exact hstatus
      · exact absurd rfl hne
      · exact absurd rfl hne
    obtain ⟨written1, hget1, _, hwid1⟩ := written_status m.db_now hget hid1
    obtain ⟨written2, hget2, hwritten, _⟩ :=
      written_status m.db_now hget1 (hid2.trans hwid1.symm)
    refine .finished job job2 document ?_ hopen hdone hget ?_ (hb.points ▸ hi) (by rw [hb.db])
      (by rw [hb.db]; rfl)
    · rw [completed_job_of_status hget (by rw [hb.db]; exact hget2) hopen, hwritten, if_pos hdone]
    · rw [hb.db]
      exact wrote_again m.db_now hid2 (wrote_update m.db_now hid1)

/-- The ids that a call takes have no say in what it does to the rows. -/
theorem ingested_of_opened {tenant_id : String} {document_id : UUID}
    {document : KnowledgeDocument} {points : List VectorPoint}
    (h : Ingested P (opened w r) tenant_id document_id document points) :
    Ingested P w tenant_id document_id document points := ⟨h.got, h.indexed⟩

theorem handled_of_opened {message : Message} (h : Handled P m (opened w r) w' message) :
    Handled P m w w' message := by
  cases h with
  | unfinished hnone hd hv hj => exact .unfinished hnone hd hv hj
  | finished job last document hsome hopen hdone hget hwrote hi hd hv =>
    exact .finished job last document hsome hopen hdone hget hwrote (ingested_of_opened hi) hd hv

theorem handled_of_step {message : Message} (hop : r.operation = .Handle message)
    (hw : w.step P settings r = some w') : Handled P r.moment w w' message := by
  obtain ⟨_, _, hm⟩ := moved_of_step hw
  rw [hop] at hm
  have hkept : w'.db.documents = w.db.documents → w'.db.versions = w.db.versions →
      w'.db.jobs = w.db.jobs → Handled P r.moment w w' message :=
    fun hd hv hj => .unfinished (completed_job_of_kept hj) hd hv (Or.inl hj)
  cases hm with
  | still _ _ hb => exact hkept (by rw [hb.db]; rfl) (by rw [hb.db]; rfl) (by rw [hb.db]; rfl)
  | saved _ _ tenant_id document_id extension at_ content _ hb =>
    exact hkept (by rw [hb.db]; rfl) (by rw [hb.db]; rfl) (by rw [hb.db]; rfl)
  | indexed _ _ document_id document points _ hb =>
    exact hkept (by rw [hb.db]; rfl) (by rw [hb.db]; rfl) (by rw [hb.db]; rfl)
  | handled _ _ job hget he =>
    exact handled_of_opened (handled_of_executed (w := opened w r) hget he)

/-! ## A run of its own -/

theorem processed_document_of_other (hprocess : ∀ data, r.operation ≠ .Process data)
    (hhandle : ∀ message, r.operation ≠ .Handle message) :
    processed_document P settings w r = none := by
  unfold processed_document
  split
  · rename_i data hop
    exact absurd hop (hprocess data)
  · rename_i message hop
    exact absurd hop (hhandle message)
  · rfl

/-- A direct run ends well and its document is PROCESSED, or no row changes. -/
theorem process_step {data : GetDocumentInput} (hop : r.operation = .Process data)
    (hw : w.step P settings r = some w') :
    (processed_document P settings w r = none ∧ w'.db = w.db) ∨
      ∃ document, processed_document P settings w r = some (data.tenant_id, data.document_id) ∧
        Ingested P w data.tenant_id data.document_id document w'.points ∧
        w'.db = SqlAlchemyDocumentRepository.update w.db r.moment.db_now
          (ProcessDocumentUseCase.processed document) := by
  unfold World.step at hw
  split at hw
  · cases hw
    unfold processed_document
    simp only [hop, perform_eq]
    rcases hend : session ((Operation.Process data).program P settings r.moment)
      ⟨opened w r, r.moment.faults, false⟩ with ⟨e | response, d⟩
    · exact Or.inl ⟨rfl, session_error hend⟩
    · obtain ⟨e, hprogram, _, _, rfl⟩ := session_ok.mp hend
      obtain ⟨_, _, hrun, hdone⟩ := bind_ok.mp hprogram
      obtain ⟨_, rfl⟩ := pure_ok.mp hdone
      obtain ⟨document, points, hi, hb⟩ :=
        ends_ok (process_ends (m := r.moment) data.tenant_id data.document_id) hrun
      refine Or.inr ⟨document, rfl, ?_, hb.db⟩
      exact ingested_of_opened (hb.points ▸ hi)
  · cases hw

/-! ## The rows of documents -/

/-- Where a live document row comes from: one with the same face before the
step, which no run and no new version is about, an upload, a new version, or a
run on it. -/
inductive DocumentAfter (P : Providers) (settings : Settings) (w : World) (r : Request)
    (m' : KnowledgeDocumentModel) : Prop where
  | kept (m : KnowledgeDocumentModel) :
    m ∈ w.db.documents → m.deleted_at = none → m'.id = m.id → m'.status = m.status →
    m'.current_version_id = m.current_version_id →
    (∀ tenant_id, processed_document P settings w r ≠ some (tenant_id, m'.id)) →
    (∀ data, r.operation = .AddVersion data → duplicates.Accepted settings w r data →
      m'.id ≠ data.document_id) →
    DocumentAfter P settings w r m'
  | uploaded (data : UploadDocumentInput) :
    r.operation = .Upload data → m'.id = r.moment.ids.document → m'.status = .Uploaded →
    m'.current_version_id = some r.moment.ids.version → DocumentAfter P settings w r m'
  | pointed (data : AddDocumentVersionInput) (m : KnowledgeDocumentModel) :
    r.operation = .AddVersion data → duplicates.Accepted settings w r data →
    m ∈ w.db.documents → m.deleted_at = none → m.id = data.document_id → m'.id = m.id →
    m'.status = m.status → m'.current_version_id = some r.moment.ids.version →
    DocumentAfter P settings w r m'
  | processed (m : KnowledgeDocumentModel) :
    m ∈ w.db.documents → m.deleted_at = none → m'.id = m.id → m'.status = .Processed →
    m'.current_version_id = m.current_version_id →
    processed_document P settings w r = some (m.tenant_id, m.id) →
    version_read w.db m.tenant_id m.id = m.current_version_id →
    DocumentAfter P settings w r m'

/-- A row after a write of a document that was read: another one, or its own
with the written columns. -/
theorem row_of_update {db : Database} {issued : List UUID} (h : RowsSound db issued)
    {tenant_id : String} {document_id : UUID} {document : KnowledgeDocument} {db_now : DateTime}
    (changed : KnowledgeDocument)
    (hget : SqlAlchemyDocumentRepository.get db tenant_id document_id = some document)
    (hid : changed.id = document.id) (htenant : changed.tenant_id = document.tenant_id)
    {m' : KnowledgeDocumentModel}
    (hm' : m' ∈ (SqlAlchemyDocumentRepository.update db db_now changed).documents) :
    (m' ∈ db.documents ∧ m'.id ≠ document_id) ∨
      ∃ m ∈ db.documents, m.id = document_id ∧ m.tenant_id = tenant_id ∧ m.deleted_at = none ∧
        document = doc_to_entity m (SqlAlchemyDocumentRepository.load_version db
          m.current_version_id) ∧
        m'.id = m.id ∧ m'.status = changed.status ∧
        m'.current_version_id = changed.current_version_id ∧
        m'.deleted_at = changed.deleted_at := by
  obtain ⟨m, hm, hmid, hmtenant, hlive, rfl⟩ := SqlAlchemyDocumentRepository.get_row hget
  have hkey : changed.id = m.id := hid
  rcases mem_of_modify _ hm' with ⟨hm', hne⟩ | ⟨m0, hm0, hk, rfl⟩
  · exact Or.inl ⟨hm', fun he => hne (he.trans (hmid.symm.trans hkey.symm))⟩
  · obtain rfl := eq_of_key _ h.documents hm0 hm (hk.trans hkey)
    obtain ⟨u, hu⟩ := SqlAlchemyDocumentRepository.update_columns_eq db_now htenant.symm
    refine Or.inr ⟨m0, hm0, hmid, hmtenant, hlive, rfl, ?_, ?_, ?_, ?_⟩ <;> rw [hu]

/-- A row after a new version: another one, or its own with the new pointer. -/
theorem row_of_version {db : Database} {issued : List UUID} (h : RowsSound db issued)
    {data : AddDocumentVersionInput} {document : KnowledgeDocument} {extension : String}
    (hget : SqlAlchemyDocumentRepository.get db data.tenant_id data.document_id = some document)
    {m' : KnowledgeDocumentModel}
    (hm' : m' ∈ (duplicates.with_version P m db data document extension).documents) :
    (m' ∈ db.documents ∧ m'.id ≠ data.document_id) ∨
      ∃ m0 ∈ db.documents, m0.id = data.document_id ∧ m0.deleted_at = none ∧ m'.id = m0.id ∧
        m'.status = m0.status ∧ m'.current_version_id = some m.ids.version := by
  obtain ⟨row, hrow, hrowid, _, hlive, rfl⟩ := SqlAlchemyDocumentRepository.get_row hget
  rcases mem_of_modify _ hm' with ⟨hm', hne⟩ | ⟨m0, hm0, hk, heq⟩
  · exact Or.inl ⟨hm', fun he => hne (he.trans hrowid.symm)⟩
  · obtain rfl := eq_of_key _ h.documents hm0 hrow hk
    obtain ⟨u, hu⟩ := SqlAlchemyDocumentRepository.add_version_columns_eq m.db_now
      (AddDocumentVersionUseCase.pointed (doc_to_entity m0
        (SqlAlchemyDocumentRepository.load_version db m0.current_version_id)) m.ids.version) m0
    have hrow : m' = { m0 with current_version_id := some m.ids.version, updated_at := u } :=
      heq.trans hu
    rw [hrow]
    exact Or.inr ⟨m0, hm0, hrowid, hlive, rfl, rfl, rfl⟩

/-- A row after a run that has ended well: another one, or its own, PROCESSED. -/
theorem document_of_processed (h : RowsSound w.db w.issued)
    (hadd : ∀ data, r.operation ≠ .AddVersion data) {tenant_id : String}
    {document_id : UUID} {document : KnowledgeDocument} {points : List VectorPoint}
    {db_now : DateTime} (hi : Ingested P w tenant_id document_id document points)
    (hsome : processed_document P settings w r = some (tenant_id, document_id))
    {m' : KnowledgeDocumentModel}
    (hm' : m' ∈ (SqlAlchemyDocumentRepository.update w.db db_now
      (ProcessDocumentUseCase.processed document)).documents) (hlive : m'.deleted_at = none) :
    DocumentAfter P settings w r m' := by
  rcases row_of_update h (ProcessDocumentUseCase.processed document) hi.got rfl rfl hm' with
    ⟨hm, hne⟩ | ⟨m0, hm0, rfl, rfl, hlive0, rfl, hid, hstatus, hpointer, _⟩
  · refine .kept m' hm hlive rfl rfl rfl ?_ (fun data hop => absurd hop (hadd data))
    intro tenant_id' he
    rw [hsome, Option.some.injEq, Prod.mk.injEq] at he
    exact hne he.2.symm
  · obtain ⟨version, _, _, hactive, _⟩ := hi.indexed
    obtain ⟨hread, hcurrent⟩ := version_read_eq hi.got hactive
    exact .processed m0 hm0 hlive0 hid hstatus hpointer hsome (hread.trans hcurrent.symm)

/-- A row after a new version of some document, accepted or not. -/
theorem document_of_version (h : Sound P w) (hw : w.step P settings r = some w')
    {data : AddDocumentVersionInput} (hop : r.operation = .AddVersion data)
    {m' : KnowledgeDocumentModel} (hm' : m' ∈ w'.db.documents) (hlive : m'.deleted_at = none) :
    DocumentAfter P settings w r m' := by
  have hnone : processed_document P settings w r = none :=
    processed_document_of_other (by simp [hop]) (by simp [hop])
  rcases duplicates.add_version_step hop hw with
    ⟨document, extension, haccepted, hcheck, hdb⟩ | ⟨hnot, hdb⟩
  · rw [hdb] at hm'
    rcases row_of_version h.rows (AddDocumentVersionUseCase.check_ok hcheck).2 hm' with
      ⟨hm, hne⟩ | ⟨m0, hm0, hid, hlive0, hid', hstatus, hpointer⟩
    · refine .kept m' hm hlive rfl rfl rfl (by simp [hnone]) ?_
      intro data' hop' _
      rw [hop] at hop'
      cases hop'
      exact hne
    · exact .pointed data m0 hop haccepted hm0 hlive0 hid hid' hstatus hpointer
  · refine .kept m' (hdb ▸ hm') hlive rfl rfl rfl (by simp [hnone]) ?_
    intro data' hop' haccepted
    rw [hop] at hop'
    cases hop'
    exact absurd haccepted hnot

theorem document_after (h : Sound P w) (hw : w.step P settings r = some w')
    {m' : KnowledgeDocumentModel} (hm' : m' ∈ w'.db.documents) (hlive : m'.deleted_at = none) :
    DocumentAfter P settings w r m' := by
  by_cases hadd : ∃ data, r.operation = .AddVersion data
  · obtain ⟨data, hop⟩ := hadd
    exact document_of_version h hw hop hm' hlive
  have hnever : ∀ data, r.operation = .AddVersion data → duplicates.Accepted settings w r data →
      m'.id ≠ data.document_id := fun data hop _ => absurd ⟨data, hop⟩ hadd
  by_cases hprocess : ∃ data, r.operation = .Process data
  · obtain ⟨data, hop⟩ := hprocess
    rcases process_step hop hw with ⟨hnone, hdb⟩ | ⟨document, hsome, hi, hdb⟩
    · exact .kept m' (hdb ▸ hm') hlive rfl rfl rfl (by simp [hnone]) hnever
    · rw [hdb] at hm'
      exact document_of_processed h.rows (fun data he => hadd ⟨data, he⟩) hi hsome hm' hlive
  by_cases hhandle : ∃ message, r.operation = .Handle message
  · obtain ⟨message, hop⟩ := hhandle
    have hmap : processed_document P settings w r =
        (completed_job w w' message).map (fun job => (job.tenant_id, job.document_id)) := by
      unfold processed_document
      simp only [hop, (step_some.mp hw).2]
    cases handled_of_step hop hw with
    | unfinished hnone hd _ _ =>
      exact .kept m' (hd ▸ hm') hlive rfl rfl rfl (by simp [hmap, hnone]) hnever
    | finished job last document hsome _ _ _ _ hi hd _ =>
      rw [hd] at hm'
      exact document_of_processed h.rows (fun data he => hadd ⟨data, he⟩) hi
        (by rw [hmap, hsome]; rfl) hm' hlive
  have hnone : processed_document P settings w r = none :=
    processed_document_of_other (fun data he => hprocess ⟨data, he⟩)
      (fun message he => hhandle ⟨message, he⟩)
  have hkept : m' ∈ w.db.documents → DocumentAfter P settings w r m' :=
    fun hm => .kept m' hm hlive rfl rfl rfl (by simp [hnone]) hnever
  obtain ⟨_, _, hm⟩ := moved_of_step hw
  generalize hop : r.operation = operation at hm hadd hprocess hhandle
  cases hm with
  | still _ _ hb => exact hkept (hb.db ▸ hm')
  | saved _ _ tenant_id document_id extension at_ content _ hb => exact hkept (hb.db ▸ hm')
  | uploaded _ data extension version document job _ _ hv hd _ _ hb =>
    rw [hb.db] at hm'
    rcases List.mem_append.mp hm' with hm' | hm'
    · exact hkept hm'
    · rw [List.mem_singleton] at hm'
      rw [hm', hd, hv]
      exact .uploaded data hop rfl rfl rfl
  | version_added _ data => exact absurd ⟨data, rfl⟩ hadd
  | updated _ data document hget hb =>
    rw [hb.db] at hm'
    rcases row_of_update h.rows (UpdateDocumentMetadataUseCase.merged data document) hget rfl rfl
      hm' with ⟨hm, _⟩ | ⟨m0, hm0, hid, _, hlive0, rfl, hid', hstatus, hpointer, _⟩
    · exact hkept hm
    · exact .kept m0 hm0 hlive0 hid' hstatus hpointer (by simp [hnone]) hnever
  | deleted _ data document hget hb =>
    rw [hb.db] at hm'
    rcases row_of_update h.rows (DeleteDocumentUseCase.marked (r.moment.clock 0) document) hget rfl
      rfl hm' with ⟨hm, _⟩ | ⟨m0, _, _, _, _, _, _, _, _, hdeleted⟩
    · exact hkept hm
    · rw [hlive] at hdeleted
      cases hdeleted
  | indexed _ _ document_id document points _ hb => exact hkept (hb.db ▸ hm')
  | processed _ data => exact absurd ⟨data, rfl⟩ hprocess
  | handled _ message => exact absurd ⟨message, rfl⟩ hhandle
  | answered _ data conversation answer db _ hstored hb =>
    rw [← conversation_log.committed_written] at hstored
    rw [hb.db, (conversation_log.committed_ok hstored).2] at hm'
    exact hkept hm'

/-! ## The rows of versions -/

/-- A version row that a step brings: an upload or a new version has built it. -/
inductive Brought (settings : Settings) (w : World) (r : Request)
    (v : KnowledgeDocumentVersionModel) : Prop where
  | uploaded (data : UploadDocumentInput) :
    r.operation = .Upload data → v.id = r.moment.ids.version →
    v.document_id = r.moment.ids.document → Brought settings w r v
  | added (data : AddDocumentVersionInput) :
    r.operation = .AddVersion data → duplicates.Accepted settings w r data →
    v.id = r.moment.ids.version → v.document_id = data.document_id →
    v.version_number = AddDocumentVersionUseCase.next_number
      (SqlAlchemyDocumentRepository.list_versions w.db data.document_id) →
    Brought settings w r v

theorem versions_of_step (hw : w.step P settings r = some w') :
    w'.db.versions = w.db.versions ∨
      ∃ v, Brought settings w r v ∧ w'.db.versions = w.db.versions ++ [v] := by
  by_cases hadd : ∃ data, r.operation = .AddVersion data
  · obtain ⟨data, hop⟩ := hadd
    rcases duplicates.add_version_step hop hw with
      ⟨document, extension, haccepted, hcheck, hdb⟩ | ⟨_, hdb⟩
    · have hid := (document_id_of_get (AddDocumentVersionUseCase.check_ok hcheck).2).2.1
      refine Or.inr ⟨_, .added data hop haccepted ?_ ?_ ?_, by rw [hdb]; rfl⟩
      · rfl
      · exact hid
      · exact hid ▸ rfl
    · exact Or.inl (by rw [hdb])
  · obtain ⟨_, _, hm⟩ := moved_of_step hw
    generalize hop : r.operation = operation at hm hadd
    cases hm with
    | still _ _ hb => exact Or.inl (by rw [hb.db]; rfl)
    | saved _ _ tenant_id document_id extension at_ content _ hb =>
      exact Or.inl (by rw [hb.db]; rfl)
    | uploaded _ data extension version document job _ _ hversion _ _ _ hb =>
      refine Or.inr ⟨version_to_model r.moment.db_now version, .uploaded data hop ?_ ?_,
        by rw [hb.db]; rfl⟩
      · rw [hversion]
        rfl
      · rw [hversion]
        rfl
    | version_added _ data => exact absurd ⟨data, rfl⟩ hadd
    | updated _ data document _ hb => exact Or.inl (by rw [hb.db]; rfl)
    | deleted _ data document _ hb => exact Or.inl (by rw [hb.db]; rfl)
    | indexed _ _ document_id document points _ hb => exact Or.inl (by rw [hb.db]; rfl)
    | processed _ data document points _ hb => exact Or.inl (by rw [hb.db]; rfl)
    | handled _ message job _ he =>
      cases he with
      | refused job' events _ hb => exact Or.inl (by rw [hb.db]; rfl)
      | failed name text job1 job2 events more enqueued points _ _ _ hb =>
        exact Or.inl (by rw [hb.db]; rfl)
      | completed name job1 job2 events more enqueued document points _ _ _ hb =>
        exact Or.inl (by rw [hb.db]; rfl)
    | answered _ data conversation answer db _ hstored hb =>
      rw [← conversation_log.committed_written] at hstored
      rw [hb.db, (conversation_log.committed_ok hstored).2]
      exact Or.inl rfl

theorem version_after (hw : w.step P settings r = some w') {v : KnowledgeDocumentVersionModel}
    (hv : v ∈ w'.db.versions) : v ∈ w.db.versions ∨ Brought settings w r v := by
  rcases versions_of_step hw with hkept | ⟨v0, hbrought, hversions⟩
  · exact Or.inl (hkept ▸ hv)
  · rw [hversions] at hv
    rcases List.mem_append.mp hv with hv | hv
    · exact Or.inl hv
    · rw [List.mem_singleton] at hv
      exact Or.inr (hv ▸ hbrought)

theorem version_stays (hw : w.step P settings r = some w') {v : KnowledgeDocumentVersionModel}
    (hv : v ∈ w.db.versions) : v ∈ w'.db.versions := by
  rcases versions_of_step hw with hkept | ⟨v0, _, hversions⟩
  · exact hkept ▸ hv
  · rw [hversions]
    exact List.mem_append_left _ hv

/-! ## The rows of jobs -/

/-- The job row that an upload adds. -/
structure Created (r : Request) (data : UploadDocumentInput) (j : ProcessingJobModel) : Prop where
  id : j.id = r.moment.ids.job
  status : j.status = .Queued
  document_id : j.document_id = r.moment.ids.document
  tenant_id : j.tenant_id = data.tenant_id
  job_type : j.job_type = .DocumentIngestion
  version_id : j.version_id = some r.moment.ids.version

/-- Without a message the jobs stay, and an upload adds one. -/
theorem jobs_of_step (hop : ∀ message, r.operation ≠ .Handle message)
    (hw : w.step P settings r = some w') :
    w'.db.jobs = w.db.jobs ∨
      ∃ data j, r.operation = .Upload data ∧ Created r data j ∧ w'.db.jobs = w.db.jobs ++ [j] := by
  obtain ⟨_, _, hm⟩ := moved_of_step hw
  generalize r.operation = operation at hm hop
  cases hm with
  | still _ _ hb => exact Or.inl (by rw [hb.db]; rfl)
  | saved _ _ tenant_id document_id extension at_ content _ hb => exact Or.inl (by rw [hb.db]; rfl)
  | uploaded _ data extension version document job _ _ hv hd hj _ hb =>
    refine Or.inr ⟨data, to_model r.moment.db_now job, rfl, ?_, by rw [hb.db]; rfl⟩
    rw [hj, hd, hv]
    exact ⟨rfl, rfl, rfl, rfl, rfl, rfl⟩
  | version_added _ data extension document version _ _ _ _ hb => exact Or.inl (by rw [hb.db]; rfl)
  | updated _ data document _ hb => exact Or.inl (by rw [hb.db]; rfl)
  | deleted _ data document _ hb => exact Or.inl (by rw [hb.db]; rfl)
  | indexed _ _ document_id document points _ hb => exact Or.inl (by rw [hb.db]; rfl)
  | processed _ data document points _ hb => exact Or.inl (by rw [hb.db]; rfl)
  | handled _ message => exact absurd rfl (hop message)
  | answered _ data conversation answer db _ hstored hb =>
    rw [← conversation_log.committed_written] at hstored
    rw [hb.db, (conversation_log.committed_ok hstored).2]
    exact Or.inl rfl

/-- Where a job row comes from: it is as before, an upload has created it, or
an execution has written it, which has brought the job to its end or has not. -/
inductive JobAfter (w w' : World) (r : Request) (j' : ProcessingJobModel) : Prop where
  | kept : j' ∈ w.db.jobs → JobAfter w w' r j'
  | created (data : UploadDocumentInput) :
    r.operation = .Upload data → Created r data j' → JobAfter w w' r j'
  | unfinished (j : ProcessingJobModel) :
    j ∈ w.db.jobs → j'.origin = j.origin → j'.status ≠ .Completed → JobAfter w w' r j'
  | completed (message : Message) (j : ProcessingJobModel) :
    r.operation = .Handle message → completed_job w w' message = some (to_entity j) →
    j ∈ w.db.jobs → j'.origin = j.origin → j'.status = .Completed → JobAfter w w' r j'

theorem row_of_job {jobs : List ProcessingJobModel} (hk : Keyed ProcessingJobModel.id jobs)
    {tenant_id : String} {job_id : UUID} {job : ProcessingJob}
    (hget : SqlAlchemyProcessingJobRepository.get jobs tenant_id job_id = some job)
    {j : ProcessingJobModel} (hj : j ∈ jobs) (hid : j.id = job.id) : job = to_entity j := by
  obtain ⟨row, hrow, _, _, rfl⟩ := SqlAlchemyProcessingJobRepository.get_row hget
  rw [eq_of_key _ hk hj hrow hid]

theorem job_after (h : Sound P w) (hw : w.step P settings r = some w') {j' : ProcessingJobModel}
    (hj' : j' ∈ w'.db.jobs) : JobAfter w w' r j' := by
  by_cases hhandle : ∃ message, r.operation = .Handle message
  · obtain ⟨message, hop⟩ := hhandle
    cases handled_of_step hop hw with
    | unfinished _ _ _ hjobs =>
      rcases hjobs with hjobs | ⟨job, last, _, hlast, _, hwrote⟩
      · exact .kept (hjobs ▸ hj')
      · rcases hwrote.before j' hj' with ⟨hj, _⟩ | ⟨j, hj, _, horigin, hstatus⟩
        · exact .kept hj
        · exact .unfinished j hj horigin (hstatus ▸ hlast)
    | finished job last document hsome _ hlast hget hwrote _ _ _ =>
      rcases hwrote.before j' hj' with ⟨hj, _⟩ | ⟨j, hj, hid, horigin, hstatus⟩
      · exact .kept hj
      · obtain rfl := row_of_job h.rows.jobs hget hj hid
        exact .completed message j hop hsome hj horigin (hstatus.trans hlast)
  · rcases jobs_of_step (fun message he => hhandle ⟨message, he⟩) hw with
      hjobs | ⟨data, j, hop, hcreated, hjobs⟩
    · exact .kept (hjobs ▸ hj')
    · rw [hjobs] at hj'
      rcases List.mem_append.mp hj' with hj | hj
      · exact .kept hj
      · rw [List.mem_singleton] at hj
        exact .created data hop (hj ▸ hcreated)

/-- A COMPLETED row stays as it is. -/
theorem completed_stays (h : Sound P w) (hw : w.step P settings r = some w')
    {j : ProcessingJobModel} (hj : j ∈ w.db.jobs) (hcompleted : j.status = .Completed) :
    j ∈ w'.db.jobs := by
  by_cases hhandle : ∃ message, r.operation = .Handle message
  · obtain ⟨message, hop⟩ := hhandle
    have hother : ∀ {job last : ProcessingJob}, job.status ≠ .Completed →
        SqlAlchemyProcessingJobRepository.get w.db.jobs message.tenant_id message.job_id =
          some job → Wrote w.db.jobs w'.db.jobs job last → j ∈ w'.db.jobs := by
      intro job last hopen hget hwrote
      apply hwrote.kept j hj
      intro hid
      exact hopen (row_of_job h.rows.jobs hget hj hid ▸ hcompleted)
    cases handled_of_step hop hw with
    | unfinished _ _ _ hjobs =>
      rcases hjobs with hjobs | ⟨job, last, hopen, _, hget, hwrote⟩
      · exact hjobs ▸ hj
      · exact hother hopen hget hwrote
    | finished job last document _ hopen _ hget hwrote _ _ _ => exact hother hopen hget hwrote
  · rcases jobs_of_step (fun message he => hhandle ⟨message, he⟩) hw with
      hjobs | ⟨data, j', _, _, hjobs⟩
    · exact hjobs ▸ hj
    · rw [hjobs]
      exact List.mem_append_left _ hj

/-- The job that a message has brought to its end has a COMPLETED row. -/
theorem completed_row {message : Message} {job : ProcessingJob}
    (hop : r.operation = .Handle message) (hw : w.step P settings r = some w')
    (hcompleted : completed_job w w' message = some job) :
    ∃ j ∈ w.db.jobs, job = to_entity j ∧ j.status ≠ .Completed ∧
      ∃ j' ∈ w'.db.jobs, j'.origin = j.origin ∧ j'.status = .Completed := by
  cases handled_of_step hop hw with
  | unfinished hnone _ _ _ =>
    rw [hnone] at hcompleted
    cases hcompleted
  | finished job' last document hsome hopen hlast hget hwrote _ _ _ =>
    rw [hsome] at hcompleted
    cases hcompleted
    obtain ⟨j, hj, _, _, rfl⟩ := SqlAlchemyProcessingJobRepository.get_row hget
    obtain ⟨j', hj', horigin, hstatus⟩ := hwrote.written j hj rfl
    exact ⟨j, hj, rfl, hopen, j', hj', horigin, hstatus.trans hlast⟩

end cortex_rag.service
