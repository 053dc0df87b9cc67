-- The law of the events: each row that is committed has been announced, by an
-- event for each thing that it says and by a message for each run that it asks for.
-- An event is out before the commit, so what it announces may be rolled back.
import CortexRag.ServiceOutcomes
import CortexRag.ServiceSound
import CortexRag.StoreMoves

open keyed_rows labelled_runs state_programs

namespace cortex_rag.published_events

open service

/-! ## The law -/

/-- The number of runs of the job that have been announced. -/
def starts (events : List DomainEvent) (job_id : UUID) : Nat :=
  events.countP (fun event =>
    match event with
    | .ProcessingJobStarted id _ _ _ => id = job_id
    | _ => false)

/-- A version has the event of its upload, or of its addition. -/
def VersionAnnounced (db : Database) (events : List DomainEvent)
    (v : KnowledgeDocumentVersionModel) : Prop :=
  ∃ d ∈ db.documents, d.id = v.document_id ∧
    ((v.version_number = 1 ∧ .DocumentUploaded d.id d.tenant_id v.id 1 v.checksum_sha256 ∈ events) ∨
      (2 ≤ v.version_number ∧
        .DocumentVersionAdded d.id d.tenant_id v.id v.version_number v.checksum_sha256 ∈ events))

/-- Metadata and a deletion have their events. -/
structure DocumentAnnounced (events : List DomainEvent) (d : KnowledgeDocumentModel) : Prop where
  described : d.metadata = {} ∨ .DocumentMetadataUpdated d.id d.tenant_id d.metadata ∈ events
  deleted : d.deleted_at = none ∨ .DocumentDeleted d.id d.tenant_id ∈ events

/-- A job has a message for each of its runs, and an event for each start and
for its end. -/
structure JobAnnounced (events : List DomainEvent) (queue : List Message) (job : ProcessingJob) :
    Prop where
  created : .ProcessingJobCreated job.id job.document_id job.tenant_id job.job_type.str ∈ events
  enqueued : job.retry_count + 1 ≤ queue.count (WorkerExecutor.message job)
  started : job.retry_count + (if job.worker_name.isSome then 1 else 0) ≤ starts events job.id
  completed : job.status = .Completed → WorkerExecutor.completed_event job ∈ events
  failed : job.status = .Failed → WorkerExecutor.failed_event job ∈ events

structure Announced (db : Database) (events : List DomainEvent) (queue : List Message) : Prop where
  versions : ∀ v ∈ db.versions, VersionAnnounced db events v
  documents : ∀ d ∈ db.documents, DocumentAnnounced events d
  jobs : ∀ j ∈ db.jobs, JobAnnounced events queue (to_entity j)

theorem announced_init : Announced {} [] [] := by
  constructor <;> simp

/-! ## More events -/

section More

variable {db : Database} {events events' : List DomainEvent} {queue queue' : List Message}

theorem job_announced_mono {job : ProcessingJob} (hevents : events <+: events')
    (hqueue : queue <+: queue') (h : JobAnnounced events queue job) :
    JobAnnounced events' queue' job where
  created := hevents.subset h.created
  enqueued := Nat.le_trans h.enqueued (hqueue.sublist.count_le _)
  started := Nat.le_trans h.started hevents.sublist.countP_le
  completed := fun hstatus => hevents.subset (h.completed hstatus)
  failed := fun hstatus => hevents.subset (h.failed hstatus)

theorem version_announced_mono {v : KnowledgeDocumentVersionModel}
    (hevents : events <+: events') (h : VersionAnnounced db events v) :
    VersionAnnounced db events' v := by
  obtain ⟨d, hd, hid, ⟨hnumber, hevent⟩ | ⟨hnumber, hevent⟩⟩ := h
  · exact ⟨d, hd, hid, Or.inl ⟨hnumber, hevents.subset hevent⟩⟩
  · exact ⟨d, hd, hid, Or.inr ⟨hnumber, hevents.subset hevent⟩⟩

theorem document_announced_mono {d : KnowledgeDocumentModel} (hevents : events <+: events')
    (h : DocumentAnnounced events d) : DocumentAnnounced events' d :=
  ⟨h.described.imp_right (fun he => hevents.subset he),
    h.deleted.imp_right (fun he => hevents.subset he)⟩

theorem announced_mono (hevents : events <+: events') (hqueue : queue <+: queue')
    (h : Announced db events queue) : Announced db events' queue' where
  versions := fun v hv => version_announced_mono hevents (h.versions v hv)
  documents := fun d hd => document_announced_mono hevents (h.documents d hd)
  jobs := fun j hj => job_announced_mono hevents hqueue (h.jobs j hj)

end More

/-! ## The calls only add to the journal -/

/-- Events and messages come in, and none is taken back. -/
def Logs (c d : Call) : Prop :=
  c.world.events <+: d.world.events ∧ c.world.queue <+: d.world.queue

/-- No event and no message comes in. -/
def Silent (c d : Call) : Prop :=
  d.world.events = c.world.events ∧ d.world.queue = c.world.queue

instance : Std.Refl Logs := ⟨fun _ => ⟨List.prefix_refl _, List.prefix_refl _⟩⟩

instance : IsTrans Call Logs := ⟨fun _ _ _ h h' => ⟨h.1.trans h'.1, h.2.trans h'.2⟩⟩

instance : Std.Refl Silent := ⟨fun _ => ⟨rfl, rfl⟩⟩

instance : IsTrans Call Silent := ⟨fun _ _ _ h h' => ⟨h'.1.trans h.1, h'.2.trans h.2⟩⟩

section Programs

variable {P : Providers} {settings : Settings} {m : Moment}

theorem logs_allowed : Allows Logs where
  rows := fun _ _ _ _ => ⟨List.prefix_refl _, List.prefix_refl _⟩
  blobs := fun _ _ => ⟨List.prefix_refl _, List.prefix_refl _⟩
  points := fun _ _ => ⟨List.prefix_refl _, List.prefix_refl _⟩
  events := fun _ _ => ⟨List.prefix_append _ _, List.prefix_refl _⟩
  queue := fun _ _ => ⟨List.prefix_refl _, List.prefix_append _ _⟩

theorem process_silent (tenant_id : String) (document_id : UUID) :
    Moves Silent (ProcessDocumentUseCase.execute P m tenant_id document_id) :=
  process_moves (fun _ _ _ _ => ⟨rfl, rfl⟩) (fun _ _ => ⟨rfl, rfl⟩) tenant_id document_id

theorem program_logs (operation : Operation) :
    Moves Logs (operation.program P settings m) := by
  refine program_moves logs_allowed operation (fun data _ => ?_)
  exact answer_moves logs_allowed.rows
    (fun _ _ => ⟨List.prefix_refl _, List.prefix_refl _⟩) data

end Programs

/-! ## What the jobs announce -/

section Jobs

variable {events more : List DomainEvent} {queue : List Message} {job job' : ProcessingJob}

/-- Only some of the columns are announced. -/
theorem job_announced_congr (h : JobAnnounced events queue job) (horigin : job'.origin = job.origin)
    (hstatus : job'.status = job.status) (hretries : job'.retry_count = job.retry_count)
    (hworker : job'.worker_name = job.worker_name)
    (herror : job'.error_message = job.error_message) : JobAnnounced events queue job' := by
  simp only [ProcessingJob.origin, Prod.mk.injEq] at horigin
  obtain ⟨hid, hdocument, htenant, htype, _⟩ := horigin
  have hmessage : WorkerExecutor.message job' = WorkerExecutor.message job := by
    simp only [WorkerExecutor.message, htenant, hid]
  have hcompleted : WorkerExecutor.completed_event job' = WorkerExecutor.completed_event job := by
    simp only [WorkerExecutor.completed_event, hid, hdocument, htenant]
  have hfailed : WorkerExecutor.failed_event job' = WorkerExecutor.failed_event job := by
    simp only [WorkerExecutor.failed_event, hid, hdocument, htenant, herror, hretries]
  constructor
  · rw [hid, hdocument, htenant, htype]
    exact h.created
  · rw [hretries, hmessage]
    exact h.enqueued
  · rw [hretries, hworker, hid]
    exact h.started
  · rw [hstatus, hcompleted]
    exact h.completed
  · rw [hstatus, hfailed]
    exact h.failed

theorem starts_append (events more : List DomainEvent) (job_id : UUID) :
    starts (events ++ more) job_id = starts events job_id + starts more job_id :=
  List.countP_append

/-- A job that no worker takes ends with the event of its failure. -/
theorem refused_announced (h : JobAnnounced events queue job) {now : DateTime}
    (hrefused : WorkerExecutor.refused job now = .ok (job', more)) :
    JobAnnounced (events ++ more) queue job' := by
  have hmore := job_announced_mono (List.prefix_append events more)
    (List.prefix_refl queue) h
  unfold WorkerExecutor.refused ProcessingJob.fail at hrefused
  simp only [bind, Except.bind, pure, Except.pure] at hrefused
  split at hrefused
  · cases hrefused
  · rename_i failed hfail
    split at hfail
    · cases hfail
    · cases hfail
      cases hrefused
      refine ⟨hmore.created, hmore.enqueued, hmore.started, fun hstatus => ?_, fun _ => ?_⟩
      · cases hstatus
      · exact List.mem_append_right _ (List.mem_singleton_self _)

/-- A job that starts has one start more than its retries. -/
theorem started_announced (h : JobAnnounced events queue job) {name : String} {now : DateTime}
    (hstarted : WorkerExecutor.started name job now = .ok (job', more)) :
    JobAnnounced (events ++ more) queue job' ∧ job'.worker_name.isSome = true := by
  have hmore := job_announced_mono (List.prefix_append events more)
    (List.prefix_refl queue) h
  unfold WorkerExecutor.started ProcessingJob.start at hstarted
  simp only [bind, Except.bind, pure, Except.pure] at hstarted
  split at hstarted
  · cases hstarted
  · rename_i begun hstart
    split at hstart
    · cases hstart
    · cases hstart
      cases hstarted
      refine ⟨⟨hmore.created, hmore.enqueued, ?_, fun hstatus => ?_, fun hstatus => ?_⟩, rfl⟩
      · have hbefore := h.started
        rw [starts_append]
        simp only [starts, WorkerExecutor.started_event, List.countP_singleton, decide_true,
          Option.isSome_some, if_true] at hbefore ⊢
        omega
      · cases hstatus
      · cases hstatus

/-- A run that ends announces its end, or asks for one run more. -/
theorem finished_announced (h : JobAnnounced events queue job)
    (hworker : job.worker_name.isSome = true) {max_retries : Int} {outcome : Option String}
    {now : DateTime} {message : Option Message}
    (hfinished : WorkerExecutor.finished max_retries job outcome now = .ok (job', more, message)) :
    JobAnnounced (events ++ more) (queue ++ message.toList) job' := by
  have hmore := job_announced_mono (List.prefix_append events more)
    (List.prefix_append queue message.toList) h
  unfold WorkerExecutor.finished at hfinished
  rcases outcome with _ | text
  · simp only [bind, Except.bind, pure, Except.pure, ProcessingJob.complete] at hfinished
    split at hfinished
    · cases hfinished
    · rename_i completed hcomplete
      split at hcomplete
      · cases hcomplete
      · cases hcomplete
        cases hfinished
        refine ⟨hmore.created, hmore.enqueued, hmore.started, fun _ => ?_, fun hstatus => ?_⟩
        · exact List.mem_append_right _ (List.mem_singleton_self _)
        · cases hstatus
  · simp only [bind, Except.bind, pure, Except.pure, ProcessingJob.fail] at hfinished
    split at hfinished
    · cases hfinished
    · rename_i failed hfail
      split at hfail
      · cases hfail
      · cases hfail
        split at hfinished
        · -- one run more: the start that failed is counted as a retry
          simp only [ProcessingJob.retry, ne_eq, not_true_eq_false, if_false] at hfinished
          cases hfinished
          refine ⟨hmore.created, ?_, ?_, fun hstatus => ?_, fun hstatus => ?_⟩
          · have hbefore := h.enqueued
            simp only [Option.toList_some, List.count_append, WorkerExecutor.message,
              List.count_singleton_self] at hbefore ⊢
            omega
          · have hbefore := hmore.started
            rw [hworker, if_pos rfl] at hbefore
            exact hbefore
          · cases hstatus
          · cases hstatus
        · cases hfinished
          refine ⟨hmore.created, hmore.enqueued, hmore.started, fun hstatus => ?_, fun _ => ?_⟩
          · cases hstatus
          · exact List.mem_append_right _ (List.mem_singleton_self _)

end Jobs

/-! ## What the rows announce -/

section Rows

variable {db : Database} {events : List DomainEvent} {queue : List Message}

theorem announced_job_added (h : Announced db events queue) {now : DateTime} {job : ProcessingJob}
    (hjob : JobAnnounced events queue job) :
    Announced { db with jobs := SqlAlchemyProcessingJobRepository.add db.jobs now job } events
      queue :=
  { h with
    jobs := forall_append h.jobs (job_announced_congr hjob rfl rfl rfl rfl rfl) }

theorem announced_job_written (h : Announced db events queue) {now : DateTime}
    {job : ProcessingJob} (hjob : JobAnnounced events queue job)
    (horigin : ∀ j ∈ db.jobs, j.id = job.id → j.origin = job.origin) :
    Announced { db with jobs := SqlAlchemyProcessingJobRepository.update db.jobs now job } events
      queue := by
  refine { h with jobs := ?_ }
  intro j hj
  rcases SqlAlchemyProcessingJobRepository.mem_update hj with ⟨hj, _⟩ | ⟨j0, hj0, hid, rfl⟩
  · exact h.jobs j hj
  · have hsame := horigin j0 hj0 hid
    obtain ⟨u, hu⟩ := SqlAlchemyProcessingJobRepository.update_columns_eq now job j0
    rw [hu]
    exact job_announced_congr hjob hsame rfl rfl rfl rfl

/-- A new document with its one version. -/
theorem announced_inserted (h : Announced db events queue) {d : KnowledgeDocumentModel}
    {v : KnowledgeDocumentVersionModel} (hv : v.document_id = d.id) (hnumber : v.version_number = 1)
    (hevent : .DocumentUploaded d.id d.tenant_id v.id 1 v.checksum_sha256 ∈ events)
    (hmetadata : d.metadata = {}) (hlive : d.deleted_at = none) :
    Announced { db with versions := db.versions ++ [v], documents := db.documents ++ [d] } events
      queue where
  versions := by
    refine forall_append ?_ ?_
    · intro x hx
      obtain ⟨d', hd', hx'⟩ := h.versions x hx
      exact ⟨d', List.mem_append_left _ hd', hx'⟩
    · exact ⟨d, List.mem_append_right _ (List.mem_singleton_self d), hv.symm,
        Or.inl ⟨hnumber, hevent⟩⟩
  documents := forall_append h.documents ⟨Or.inl hmetadata, Or.inl hlive⟩
  jobs := h.jobs

/-- A change of one document that keeps its id and its tenant. -/
theorem announced_modified (h : Announced db events queue) {k : UUID}
    {f : KnowledgeDocumentModel → KnowledgeDocumentModel} (hid : ∀ d, (f d).id = d.id)
    (htenant : ∀ d, (f d).tenant_id = d.tenant_id)
    (hdocument : ∀ d ∈ db.documents, d.id = k → DocumentAnnounced events (f d)) :
    Announced { db with documents := modify KnowledgeDocumentModel.id k f db.documents } events
      queue where
  versions := by
    intro v hv
    obtain ⟨d, hd, howner, hevent⟩ := h.versions v hv
    by_cases hk : d.id = k
    · refine ⟨f d, (mem_modify _).mpr ⟨d, hd, if_pos hk⟩, (hid d).trans howner, ?_⟩
      rw [hid, htenant]
      exact hevent
    · exact ⟨d, (mem_modify _).mpr ⟨d, hd, if_neg hk⟩, howner, hevent⟩
  documents := by
    intro x hx
    rcases mem_of_modify _ hx with ⟨hx, _⟩ | ⟨d, hd, hk, rfl⟩
    · exact h.documents x hx
    · exact hdocument d hd hk
  jobs := h.jobs

/-- The pointer to a version is not announced with the document. -/
theorem document_announced_pointed {d : KnowledgeDocumentModel} {document : KnowledgeDocument}
    {now : DateTime} (h : DocumentAnnounced events d) : DocumentAnnounced events
      (SqlAlchemyDocumentRepository.add_version_columns now document d) := by
  obtain ⟨u, hu⟩ := SqlAlchemyDocumentRepository.add_version_columns_eq now document d
  rw [hu]
  exact ⟨h.described, h.deleted⟩

theorem announced_version_added (h : Announced db events queue) {d : KnowledgeDocumentModel}
    (hd : d ∈ db.documents) {v : KnowledgeDocumentVersionModel} (hv : v.document_id = d.id)
    (hnumber : 2 ≤ v.version_number)
    (hevent : .DocumentVersionAdded d.id d.tenant_id v.id v.version_number v.checksum_sha256 ∈
      events) : Announced { db with versions := db.versions ++ [v] } events queue where
  versions := forall_append h.versions ⟨d, hd, hv.symm, Or.inr ⟨hnumber, hevent⟩⟩
  documents := h.documents
  jobs := h.jobs

/-- The row of a document that `update` writes back as a copy of what `get` has read. -/
theorem announced_updated (h : Announced db events queue) {issued : List UUID}
    (hs : RowsSound db issued) {tenant_id : String} {document_id : UUID}
    {document : KnowledgeDocument} (changed : KnowledgeDocument)
    (hget : SqlAlchemyDocumentRepository.get db tenant_id document_id = some document)
    (hid : changed.id = document.id) (htenant : changed.tenant_id = document.tenant_id)
    (now : DateTime)
    (hdescribed : changed.metadata = document.metadata ∨
      .DocumentMetadataUpdated document.id document.tenant_id changed.metadata ∈ events)
    (hdeleted : changed.deleted_at = none ∨
      .DocumentDeleted document.id document.tenant_id ∈ events) :
    Announced (SqlAlchemyDocumentRepository.update db now changed) events queue := by
  refine announced_modified h (by simp) (by simp) ?_
  intro d hd hk
  obtain ⟨d', hd', hid', htenant', _, rfl⟩ := SqlAlchemyDocumentRepository.get_row hget
  obtain rfl := eq_of_key _ hs.documents hd hd' (hk.trans hid)
  obtain ⟨u, hu⟩ := SqlAlchemyDocumentRepository.update_columns_eq now htenant.symm
  rw [hu]
  refine ⟨?_, ?_⟩
  · rcases hdescribed with hsame | hevent
    · have hbefore := (h.documents d hd).described
      rw [hsame]
      exact hbefore
    · exact Or.inr hevent
  · exact hdeleted

end Rows

/-! ## The calls that end well -/

def Holds (w : World) : Prop := Announced w.db w.events w.queue

section Calls

variable {P : Providers} {settings : Settings} {m : Moment} {w : World} {issued : List UUID}

theorem create_job_announces (h : Holds w) (reading : Nat) (data : CreateProcessingJobInput) :
    Ends w (CreateProcessingJobUseCase.execute settings m reading data) (fun _ => Holds)
      (fun _ => True) := by
  unfold CreateProcessingJobUseCase.execute
  refine ends_query trivial ?_
  refine ends_of_except trivial (fun _ _ => ?_)
  refine ends_write trivial (fun db hdb => ?_)
  cases hdb
  refine ends_effect trivial ?_
  refine ends_effect trivial ?_
  refine ends_pure ?_
  refine announced_job_added
    (announced_mono (List.prefix_append _ _) (List.prefix_append _ _) h) ?_
  constructor
  · exact List.mem_append_right _ (List.mem_singleton_self _)
  · simp [CreateProcessingJobUseCase.new_job]
  · simp [CreateProcessingJobUseCase.new_job]
  · intro hstatus
    cases hstatus
  · intro hstatus
    cases hstatus

theorem upload_announces (h : Holds w) (data : UploadDocumentInput) :
    Ends w (UploadDocumentUseCase.execute P settings m data) (fun _ => Holds) (fun _ => True) := by
  unfold UploadDocumentUseCase.execute
  refine ends_of_domain trivial (fun extension _ => ?_)
  refine ends_query trivial ?_
  split
  · exact ends_raise trivial
  · refine ends_effect trivial ?_
    refine ends_write trivial (fun db hdb => ?_)
    obtain ⟨_, rfl⟩ := SqlAlchemyDocumentRepository.add_ok.mp hdb
    refine ends_effect trivial ?_
    refine ends_bind (create_job_announces ?_ _ _) (fun _ _ hdone => ends_pure hdone)
    exact announced_inserted (announced_mono (List.prefix_append _ _) (List.prefix_refl _) h)
      rfl rfl (List.mem_append_right _ (List.mem_singleton_self _)) rfl rfl

theorem add_version_announces (h : Holds w) (hs : RowsSound w.db issued)
    (data : AddDocumentVersionInput) :
    Ends w (AddDocumentVersionUseCase.execute P settings m data) (fun _ => Holds)
      (fun _ => True) := by
  unfold AddDocumentVersionUseCase.execute
  refine ends_query trivial ?_
  refine ends_of_except trivial ?_
  rintro ⟨document, extension⟩ hcheck
  obtain ⟨_, hget⟩ := AddDocumentVersionUseCase.check_ok hcheck
  obtain ⟨d, hd, _, _, _, rfl⟩ := SqlAlchemyDocumentRepository.get_row hget
  refine ends_query trivial ?_
  refine ends_effect trivial ?_
  refine ends_write trivial (fun db hdb => ?_)
  obtain ⟨_, rfl⟩ := SqlAlchemyDocumentRepository.add_version_ok.mp hdb
  refine ends_effect trivial ?_
  refine ends_pure ?_
  -- the document has a version already, so the number of the new one is above 1
  obtain ⟨v, hv, _, howner⟩ := hs.pointed d hd
  have hfirst : 1 ≤ v.version_number := by
    obtain ⟨_, _, _, ⟨hnumber, _⟩ | ⟨hnumber, _⟩⟩ := h.versions v hv <;> omega
  have hnext := AddDocumentVersionUseCase.lt_next_number hv howner
  refine announced_modified (announced_version_added
    (announced_mono (List.prefix_append _ _) (List.prefix_refl _) h) hd rfl ?_ ?_)
    (by simp) (by simp) ?_
  · exact Nat.lt_of_le_of_lt hfirst hnext
  · exact List.mem_append_right _ (List.mem_singleton_self _)
  · intro x hx _
    exact document_announced_mono (List.prefix_append _ _)
      (document_announced_pointed (h.documents x hx))

theorem update_metadata_announces (h : Holds w) (hs : RowsSound w.db issued)
    (data : UpdateDocumentMetadataInput) :
    Ends w (UpdateDocumentMetadataUseCase.execute m data) (fun _ => Holds) (fun _ => True) := by
  unfold UpdateDocumentMetadataUseCase.execute
  refine ends_query trivial ?_
  refine ends_of_except trivial (fun document hload => ?_)
  have hget := load_document_ok hload
  obtain ⟨d, _, _, _, hlive, rfl⟩ := SqlAlchemyDocumentRepository.get_row hget
  refine ends_write trivial (fun db hdb => ?_)
  cases hdb
  refine ends_effect trivial ?_
  refine ends_pure ?_
  refine announced_updated (announced_mono (List.prefix_append _ _) (List.prefix_refl _) h)
    hs (UpdateDocumentMetadataUseCase.merged data _) hget rfl rfl m.db_now (Or.inr ?_)
    (Or.inl hlive)
  exact List.mem_append_right _ (List.mem_singleton_self _)

theorem delete_announces (h : Holds w) (hs : RowsSound w.db issued) (data : GetDocumentInput) :
    Ends w (DeleteDocumentUseCase.execute m data) (fun _ => Holds) (fun _ => True) := by
  unfold DeleteDocumentUseCase.execute
  refine ends_query trivial ?_
  refine ends_of_except trivial (fun document hload => ?_)
  refine ends_write trivial (fun db hdb => ?_)
  cases hdb
  unfold publish
  rw [← bind_pure (effect _)]
  refine ends_effect trivial ?_
  refine ends_pure ?_
  refine announced_updated (announced_mono (List.prefix_append _ _) (List.prefix_refl _) h)
    hs (DeleteDocumentUseCase.marked (m.clock 0) document) (load_document_ok hload) rfl rfl m.db_now
    (Or.inl rfl) (Or.inr ?_)
  exact List.mem_append_right _ (List.mem_singleton_self _)

/-- What an ingestion run leaves: rows that are announced, and the jobs, the
events and the messages as they were. -/
structure Quietly (w w' : World) : Prop where
  holds : Holds w'
  jobs : w'.db.jobs = w.db.jobs
  events : w'.events = w.events
  queue : w'.queue = w.queue

theorem process_announces (h : Holds w) (hs : RowsSound w.db issued) (tenant_id : String)
    (document_id : UUID) :
    Ends w (ProcessDocumentUseCase.execute P m tenant_id document_id) (fun _ => Quietly w)
      (Quietly w) := by
  intro c hc
  have hends := process_ends (P := P) (m := m) (w := w) tenant_id document_id c hc
  obtain ⟨hevents, hqueue⟩ := process_silent (P := P) (m := m) tenant_id document_id c
  rw [hc] at hevents hqueue
  rcases hp : ProcessDocumentUseCase.execute P m tenant_id document_id c with ⟨e | a, d⟩
  · rw [hp] at hends hevents hqueue
    obtain ⟨points, _, hdone⟩ := hends
    refine ⟨?_, by rw [hdone.db], hevents, hqueue⟩
    unfold Holds
    rw [hevents, hqueue, hdone.db]
    exact h
  · rw [hp] at hends hevents hqueue
    obtain ⟨document, points, hingested, hdone⟩ := hends
    refine ⟨?_, by rw [hdone.db]; rfl, hevents, hqueue⟩
    obtain ⟨_, _, _, _, hlive, hdocument⟩ := SqlAlchemyDocumentRepository.get_row hingested.got
    unfold Holds
    rw [hevents, hqueue, hdone.db]
    refine announced_updated h hs (ProcessDocumentUseCase.processed document) hingested.got rfl rfl
      m.db_now (Or.inl rfl) (Or.inl ?_)
    rw [hdocument]
    exact hlive

theorem attempt_announces (h : Holds w) (hs : RowsSound w.db issued) (job : ProcessingJob) :
    Ends w (WorkerExecutor.attempted (IngestionWorker.run P m job)) (fun _ => Quietly w)
      (fun _ => True) := by
  refine ends_weaken (attempted_ends (process_announces h hs job.tenant_id job.document_id)) ?_
    (fun _ _ => trivial)
  rintro outcome w' (⟨_, hdone⟩ | ⟨_, _, hdone⟩) <;> exact hdone

theorem ends_publish_events {α : Type} (events : List DomainEvent) {f : Unit → Service α}
    {Q : α → World → Prop}
    (h : Ends { w with events := w.events ++ events } (f ()) Q (fun _ => True)) :
    Ends w (events.forM publish >>= f) Q (fun _ => True) := by
  induction events generalizing w with
  | nil =>
    rw [List.append_nil] at h
    exact h
  | cons event events ih =>
    have hfirst : ((event :: events).forM publish >>= f) =
        (publish event >>= fun _ => events.forM publish >>= f) := bind_assoc ..
    rw [hfirst]
    refine ends_effect trivial (ih ?_)
    rw [List.append_assoc]
    exact h

theorem ends_enqueue_message {α : Type} (message : Option Message) {f : Unit → Service α}
    {Q : α → World → Prop}
    (h : Ends { w with queue := w.queue ++ message.toList } (f ()) Q (fun _ => True)) :
    Ends w (message.forM enqueue >>= f) Q (fun _ => True) := by
  rcases message with _ | message
  · rw [Option.toList_none, List.append_nil] at h
    exact h
  · have hfirst : ((some message).forM enqueue >>= f) = (enqueue message >>= f) := rfl
    rw [hfirst]
    exact ends_effect trivial h

theorem execute_announces (h : Holds w) (hs : RowsSound w.db issued) {tenant_id : String}
    {job_id : UUID} {job : ProcessingJob}
    (hget : SqlAlchemyProcessingJobRepository.get w.db.jobs tenant_id job_id = some job) :
    Ends w (WorkerExecutor.execute P settings m job) (fun _ => Holds) (fun _ => True) := by
  obtain ⟨row, hrow, _, _, rfl⟩ := SqlAlchemyProcessingJobRepository.get_row hget
  have horigin : ∀ j ∈ w.db.jobs, j.id = row.id → j.origin = row.origin :=
    fun j hj hid => by rw [eq_of_key _ hs.jobs hj hrow hid]
  unfold WorkerExecutor.execute
  split
  · refine ends_of_domain trivial ?_
    rintro ⟨job', events⟩ hrefused
    obtain ⟨hsame, _⟩ := WorkerExecutor.refused_origin hrefused
    refine update_job_ends trivial ?_
    refine ends_publish_events events ?_
    refine ends_pure ?_
    refine announced_job_written
      (announced_mono (List.prefix_append _ _) (List.prefix_refl _) h)
      (refused_announced (h.jobs row hrow) hrefused) ?_
    intro j hj hid
    exact (horigin j hj (hid.trans (congrArg Prod.fst hsame))).trans hsame.symm
  · rename_i name _
    refine ends_of_domain trivial ?_
    rintro ⟨job1, events⟩ hstarted
    obtain ⟨hsame, _⟩ := WorkerExecutor.started_origin hstarted
    obtain ⟨hjob1, hworker⟩ := started_announced (h.jobs row hrow) hstarted
    refine update_job_ends trivial ?_
    refine ends_publish_events events ?_
    have h1 : Holds { w with
        db := { w.db with
          jobs := SqlAlchemyProcessingJobRepository.update w.db.jobs m.db_now job1 }
        events := w.events ++ events } := by
      refine announced_job_written
        (announced_mono (List.prefix_append _ _) (List.prefix_refl _) h) hjob1 ?_
      intro j hj hid
      exact (horigin j hj (hid.trans (congrArg Prod.fst hsame))).trans hsame.symm
    have hs1 := rows_sound_update_job hs m.db_now job1
    refine ends_bind (attempt_announces h1 hs1 job1) ?_
    intro outcome w' hdone
    refine ends_of_domain trivial ?_
    rintro ⟨job2, more, message⟩ hfinished
    obtain ⟨hsame2, _⟩ := WorkerExecutor.finished_cases hfinished
    have hbefore : JobAnnounced w'.events w'.queue job1 := by
      rw [hdone.events, hdone.queue]
      exact hjob1
    have hjob2 := finished_announced hbefore hworker hfinished
    refine update_job_ends trivial ?_
    refine ends_enqueue_message message ?_
    refine ends_publish_events more ?_
    refine ends_pure ?_
    refine announced_job_written
      (announced_mono (List.prefix_append _ _) (List.prefix_append _ _) hdone.holds)
      hjob2 ?_
    intro j hj hid
    rw [hdone.jobs] at hj
    have hj1 : j.origin = row.origin := by
      rcases SqlAlchemyProcessingJobRepository.mem_update hj with ⟨hj, hne⟩ | ⟨j0, hj0, hid0, rfl⟩
      · exact absurd (hid.trans (congrArg Prod.fst hsame2)) hne
      · rw [SqlAlchemyProcessingJobRepository.update_columns_origin]
        exact horigin j0 hj0 (hid0.trans (congrArg Prod.fst hsame))
    exact hj1.trans (hsame2.trans hsame).symm

theorem handle_announces (h : Holds w) (hs : RowsSound w.db issued) (message : Message) :
    Ends w (handle_message P settings m message) (fun _ => Holds) (fun _ => True) := by
  unfold handle_message
  refine ends_query trivial ?_
  split
  · exact ends_pure h
  · rename_i job hget
    split
    · exact ends_pure h
    · exact ends_bind (execute_announces h hs hget) (fun _ _ hdone => ends_pure hdone)

theorem answer_announces (h : Holds w) (data : AnswerQuestionInput) :
    Ends w (AnswerQuestionUseCase.execute P settings m data) (fun _ => Holds) (fun _ => True) := by
  unfold AnswerQuestionUseCase.execute
  refine ends_bind (retrieve_ends _ _ _ trivial) ?_
  rintro results w1 ⟨_, rfl⟩
  refine ends_bind (load_conversation_ends data trivial) ?_
  rintro conversation w1 ⟨_, rfl⟩
  unfold AnswerQuestionUseCase.complete
  rw [bind_assoc]
  refine ends_effect trivial ?_
  refine ends_of_except trivial (fun answer _ => ?_)
  refine ends_write trivial (fun db hdb => ?_)
  rw [← conversation_log.committed_written] at hdb
  obtain ⟨_, hdb⟩ := conversation_log.committed_ok hdb
  refine ends_pure ?_
  rw [hdb]
  exact ⟨h.versions, h.documents, h.jobs⟩

theorem program_announces (h : Holds w) (hs : RowsSound w.db issued) (operation : Operation) :
    Ends w (operation.program P settings m) (fun _ => Holds) (fun _ => True) := by
  have hread : ∀ {α : Type} {p : Service α}, Ends w p (fun _ w' => w' = w) (fun _ => True) →
      Ends w p (fun _ => Holds) (fun _ => True) :=
    fun hp => ends_weaken hp (fun _ _ hw => hw ▸ h) (fun _ _ => trivial)
  cases operation with
  | Upload data => exact ends_bind (upload_announces h data) (fun _ _ hdone => ends_pure hdone)
  | AddVersion data =>
    exact ends_bind (add_version_announces h hs data) (fun _ _ hdone => ends_pure hdone)
  | Get data =>
    refine hread (ends_bind (ends_query trivial (ends_of_except trivial (fun _ _ => ?_)))
      (fun _ _ hw => ends_pure hw))
    exact ends_pure rfl
  | List data =>
    exact hread (ends_bind (ends_query trivial (ends_pure rfl)) (fun _ _ hw => ends_pure hw))
  | ListVersions data =>
    refine hread (ends_bind (ends_query trivial (ends_of_except trivial (fun _ _ => ?_)))
      (fun _ _ hw => ends_pure hw))
    rw [← bind_pure (query _)]
    exact ends_query trivial (ends_pure rfl)
  | UpdateMetadata data =>
    exact ends_bind (update_metadata_announces h hs data) (fun _ _ hdone => ends_pure hdone)
  | Delete data => exact ends_bind (delete_announces h hs data) (fun _ _ hdone => ends_pure hdone)
  | Process data =>
    refine ends_bind (ends_weaken (process_announces h hs _ _) (fun _ _ hdone => hdone.holds)
      (fun _ _ => trivial)) (fun _ _ hdone => ends_pure hdone)
  | GetJob data =>
    refine hread (ends_bind (ends_query trivial ?_) (fun _ _ hw => ends_pure hw))
    split
    · exact ends_raise trivial
    · exact ends_pure rfl
  | ListJobs data =>
    exact hread (ends_bind (ends_query trivial (ends_pure rfl)) (fun _ _ hw => ends_pure hw))
  | Handle message =>
    exact ends_bind (handle_announces h hs message) (fun _ _ hdone => ends_pure hdone)
  | Search data =>
    refine hread (ends_bind (ends_bind (retrieve_ends _ _ _ trivial) ?_)
      (fun _ _ hw => ends_pure hw))
    rintro results w' ⟨_, hw⟩
    exact ends_pure hw
  | Answer data => exact ends_bind (answer_announces h data) (fun _ _ hdone => ends_pure hdone)

end Calls

/-! ## The law -/

variable {P : Providers} {settings : Settings} {w w' : World}

theorem holds_step {r : Request} (h : Holds w) (hs : Sound P w)
    (hw : w.step P settings r = some w') : Holds w' := by
  obtain ⟨_, rfl⟩ := step_some.mp hw
  rw [perform_eq]
  dsimp only
  have hopened : Holds (opened w r) := h
  have hleaves : Leaves (opened w r) (r.operation.program P settings r.moment) Holds := by
    intro c hc
    have hgood : Ends (opened w r) (r.operation.program P settings r.moment) (fun _ => Holds)
        (fun _ => True) := program_announces hopened hs.rows r.operation
    have hlogs : Moves Logs (r.operation.program P settings r.moment) := program_logs r.operation
    have hends := hgood c hc
    obtain ⟨hevents, hqueue⟩ := hlogs c
    rw [hc] at hevents hqueue
    rcases hp : r.operation.program P settings r.moment c with ⟨e | a, d⟩
    · rw [hp] at hevents hqueue
      exact announced_mono hevents hqueue hopened
    · rw [hp] at hends hevents hqueue
      exact ⟨hends, announced_mono hevents hqueue hopened⟩
  exact session_leaves hleaves r.moment.faults

/-- In every state that the service reaches, whatever calls to the outside have
failed on the way, each version, each metadata, each deletion and each job that
is committed has been announced. -/
theorem committed_rows_are_announced (h : Reachable (World.step P settings) {} w) :
    Announced w.db w.events w.queue := by
  obtain ⟨rs, hrun⟩ := h
  have hboth : Sound P w ∧ Holds w := by
    refine run_invariant (I := fun w => Sound P w ∧ Holds w) ?_ ⟨sound_init P, announced_init⟩ hrun
    intro s r t hs hstep
    exact ⟨sound_keeps hs.1 hstep, holds_step hs.2 hs.1 hstep⟩
  exact hboth.2

/-- The upload of a document, two runs of its job of which the first crashes
before it is committed, and the deletion of the document. -/
def a_run_that_crashes : List Request :=
  let message : Message := { tenant_id := "acme", job_id := (plain.ids 0).job }
  [plain.request 0 (plain.upload [65]),
    plain.crashing 8 (plain.request 1 (.Handle message)),
    plain.request 2 (.Handle message),
    plain.request 3 (.Delete { tenant_id := "acme", document_id := (plain.ids 0).document })]

theorem a_run_that_crashes_is_announced :
    ∃ w, run (World.step plain.providers {}) {} a_run_that_crashes = some w ∧
      w.events.length = 6 ∧ Announced w.db w.events w.queue := by
  have hends : (run (World.step plain.providers {}) {} a_run_that_crashes).map
      (fun w => decide (w.events.length = 6)) = some true := by
    decide +kernel
  obtain ⟨w, hw, hlength⟩ := Option.map_eq_some_iff.mp hends
  exact ⟨w, hw, of_decide_eq_true hlength, committed_rows_are_announced ⟨_, hw⟩⟩

end cortex_rag.published_events
