-- The law of one active job. The check for an active job and the insert of
-- the new one are two steps, and no index of the table refuses a second
-- active job of a document and type.
import CortexRag.JobProtocol

open keyed_rows labelled_runs

namespace cortex_rag.active_jobs

open job_protocol SqlAlchemyProcessingJobRepository

/-- No document has two active jobs of one type. -/
def AtMostOneActive (s : Protocol) : Prop :=
  ∀ document_id job_type, (s.jobs.filter (active_by_type document_id job_type)).length ≤ 1

/-- The row of another active job of the document and type. -/
def Rival (jobs : List ProcessingJobModel) (job : ProcessingJob) : Prop :=
  ∃ m ∈ jobs, m.id ≠ job.id ∧ active_by_type job.document_id job.job_type m = true

/-- The commit of a job that is QUEUED, while another active job of its document
and type has been committed by now: the insert of a request whose check would
fail by now, or the re-queue of a job that had already left the active ones. -/
def Crowded (s : Protocol) : Action → Prop
  | .CommitRequest r _ =>
    match s.creations r with
    | some (.Enqueued job _) => Rival s.jobs job
    | _ => False
  | .CommitExecution w _ =>
    match s.workers w with
    | some (.Finished _ job _ _ _) => job.status = .Queued ∧ Rival s.jobs job
    | _ => False
  | _ => False

/-! ## The copies and the rows -/

/-- A request inserts a QUEUED job, and the copy of a worker is about what its
row is about. -/
structure Filed (s : Protocol) : Prop where
  creations : ∀ r job envelope, s.creations r = some (.Enqueued job envelope) →
    job.status = .Queued
  copies : ∀ w handling job, s.workers w = some handling → handling.copy = some job →
    ∃ m ∈ s.jobs, m.origin = job.origin

theorem filed_init : Filed {} := by
  constructor <;> simp

theorem origin_kept {settings : ProcessingSettings} {s t : Protocol} {a : Action}
    (h : Moved settings s a t) {m : ProcessingJobModel} (hm : m ∈ s.jobs) :
    ∃ m' ∈ t.jobs, m'.origin = m.origin := by
  cases jobs_moved h with
  | kept _ ht _ => exact ⟨m, ht ▸ hm, rfl⟩
  | created r db_now job envelope hr _ ht _ _ _ =>
    exact ⟨m, by rw [ht]; exact List.mem_append_left _ hm, rfl⟩
  | committed w db_now envelope job since events enqueued hw ht _ _ _ =>
    refine ⟨if m.id = job.id then update_columns db_now job m else m, ?_, ?_⟩
    · rw [ht, update, mem_modify]
      exact ⟨m, hm, rfl⟩
    · by_cases hid : m.id = job.id <;> simp [hid]

/-- A request that has enqueued its message had done so before the step, or
does so now for a new job. -/
theorem creation_made {settings : ProcessingSettings} {s t : Protocol} {a : Action}
    (h : Moved settings s a t) {r : Nat} {job : ProcessingJob} {envelope : Envelope}
    (hr : t.creations r = some (.Enqueued job envelope)) :
    s.creations r = some (.Enqueued job envelope) ∨
      ∃ data id now, job = CreateProcessingJobUseCase.new_job settings data id now := by
  cases h with
  | enqueued r' id now data job' events hr' hid hjob =>
    simp only [set_creation_creations, publish_creations] at hr
    split at hr
    · cases hr
      exact Or.inr ⟨data, id, now, hjob⟩
    · exact Or.inl hr
  | checked r' order data hr' hcheck =>
    rw [set_creation_creations] at hr
    split at hr
    · cases hr
    · exact Or.inl hr
  | created r' db_now job' envelope' hr' =>
    simp only [set_creation_creations] at hr
    split at hr
    · cases hr
    · exact Or.inl hr
  | rolled_back r' =>
    rw [set_creation_creations] at hr
    split at hr
    · cases hr
    · exact Or.inl hr
  | _ => exact Or.inl hr

theorem filed_step {settings : ProcessingSettings} {s t : Protocol} {a : Action} (hs : Filed s)
    (h : Moved settings s a t) : Filed t := by
  constructor
  · intro r job envelope hr
    rcases creation_made h hr with hr | ⟨data, id, now, rfl⟩
    · exact hs.creations r job envelope hr
    · rfl
  · intro w handling job hw hjob
    -- a copy of the same origin had its row before the step
    have hsame : ∀ handling0 job0, s.workers w = some handling0 → handling0.copy = some job0 →
        job.origin = job0.origin → ∃ m ∈ t.jobs, m.origin = job.origin := by
      intro handling0 job0 hw0 hjob0 horigin
      obtain ⟨m, hm, hmo⟩ := hs.copies w handling0 job0 hw0 hjob0
      obtain ⟨m', hm', hmo'⟩ := origin_kept h hm
      exact ⟨m', hm', by rw [hmo', hmo, horigin]⟩
    cases handling_moved h hw with
    | kept _ hsw => exact hsame handling job hsw hjob rfl
    | taken envelope hin => cases hjob
    | skipped envelope hsw hget ht => cases hjob
    | loaded envelope _ hsw hget hstatus ht _ =>
      cases hjob
      obtain ⟨m, hm, _, _, rfl⟩ := get_row hget
      exact ⟨m, ht ▸ hm, rfl⟩
    | started envelope job0 job' since worker_name now events hsw hstarted =>
      cases hjob
      exact hsame _ job0 hsw rfl (WorkerExecutor.started_origin hstarted).1
    | unregistered envelope job0 job' since now events hsw hrefused =>
      cases hjob
      exact hsame _ job0 hsw rfl (WorkerExecutor.refused_origin hrefused).1
    | ended envelope job0 job' since outcome now events more hsw hfinished =>
      cases hjob
      exact hsame _ job0 hsw rfl (WorkerExecutor.finished_cases hfinished).1
    | requeued envelope job0 job' since outcome now events more message hsw hfinished =>
      cases hjob
      exact hsame _ job0 hsw rfl (WorkerExecutor.finished_cases hfinished).1
    | committed envelope job0 since events enqueued db_now hsw ht => cases hjob

/-! ## The law -/

/-- Two active rows of one document and type are one row. -/
theorem at_most_one_active_iff {s : Protocol} (hk : Keyed ProcessingJobModel.id s.jobs) :
    AtMostOneActive s ↔ ∀ document_id job_type, ∀ a ∈ s.jobs, ∀ b ∈ s.jobs,
      active_by_type document_id job_type a = true →
      active_by_type document_id job_type b = true → a.id = b.id := by
  unfold AtMostOneActive
  constructor
  · intro h document_id job_type
    exact (length_filter_le_one _ hk).mp (h document_id job_type)
  · intro h document_id job_type
    exact (length_filter_le_one _ hk).mpr (h document_id job_type)

/-- The row that a commit writes: a QUEUED job or a terminal one. -/
theorem active_of_written {job : ProcessingJob} {document_id : UUID} {job_type : JobType}
    {m : ProcessingJobModel} (horigin : m.origin = job.origin) (hstatus : m.status = job.status)
    (hactive : active_by_type document_id job_type m = true) :
    job.status ∈ ACTIVE_JOB_STATUSES ∧ document_id = job.document_id ∧ job_type = job.job_type := by
  simp only [ProcessingJobModel.origin, ProcessingJob.origin, to_entity, Prod.mk.injEq] at horigin
  simp only [active_by_type, decide_eq_true_eq] at hactive
  refine ⟨hstatus ▸ hactive.2.2, ?_, ?_⟩
  · rw [← hactive.1, horigin.2.1]
  · rw [← hactive.2.1, horigin.2.2.2.1]

/-- A row that stands next to the other rows: it and they are at most one
active job as long as it has no rival. -/
theorem one_active_with {jobs : List ProcessingJobModel} (job : ProcessingJob)
    (new : ProcessingJobModel)
    (hold : ∀ document_id job_type, ∀ a ∈ jobs, ∀ b ∈ jobs,
      active_by_type document_id job_type a = true →
      active_by_type document_id job_type b = true → a.id = b.id)
    (horigin : new.origin = job.origin) (hstatus : new.status = job.status)
    (hrival : job.status ∈ ACTIVE_JOB_STATUSES → ¬ Rival jobs job) {t : List ProcessingJobModel}
    (ht : ∀ m ∈ t, (m ∈ jobs ∧ m.id ≠ job.id) ∨ m = new) (document_id : UUID) (job_type : JobType)
    (a : ProcessingJobModel) (ha : a ∈ t) (b : ProcessingJobModel) (hb : b ∈ t)
    (hactive : active_by_type document_id job_type a = true)
    (hactive' : active_by_type document_id job_type b = true) : a.id = b.id := by
  have hnot : ∀ m ∈ jobs, m.id ≠ job.id → active_by_type document_id job_type m = true →
      active_by_type document_id job_type new = true → False := by
    intro m hm hne hm_active hnew
    obtain ⟨hq, hdocument, htype⟩ := active_of_written horigin hstatus hnew
    apply hrival hq
    exact ⟨m, hm, hne, hdocument ▸ htype ▸ hm_active⟩
  rcases ht a ha with ⟨ha, hne⟩ | rfl
  · rcases ht b hb with ⟨hb, _⟩ | rfl
    · exact hold document_id job_type a ha b hb hactive hactive'
    · exact (hnot a ha hne hactive hactive').elim
  · rcases ht b hb with ⟨hb, hne⟩ | rfl
    · exact (hnot b hb hne hactive' hactive).elim
    · rfl

theorem at_most_one_active_step {settings : ProcessingSettings} {s t : Protocol} {a : Action}
    (hn : Named s) (hfiled : Filed s) (hs : AtMostOneActive s) (hgood : ¬ Crowded s a)
    (h : Moved settings s a t) : AtMostOneActive t := by
  rw [at_most_one_active_iff (named_step hn h).keyed]
  rw [at_most_one_active_iff hn.keyed] at hs
  cases jobs_moved h with
  | kept _ ht _ =>
    rw [ht]
    exact hs
  | created r db_now job envelope hr _ ht _ _ _ =>
    simp only [Crowded, hr] at hgood
    apply one_active_with job (to_model db_now job) hs rfl rfl (fun _ => hgood)
    intro m hm
    rw [ht] at hm
    rcases List.mem_append.mp hm with hm | hm
    · exact Or.inl ⟨hm, (hn.creations r job envelope hr).2.2 m hm⟩
    · exact Or.inr (List.mem_singleton.mp hm)
  | committed w db_now envelope job since events enqueued hw ht _ _ _ =>
    obtain ⟨m0, hm0, horigin⟩ := hfiled.copies w _ job hw rfl
    have hid0 : m0.id = job.id := congrArg Prod.fst horigin
    have hqueued : job.status ∈ ACTIVE_JOB_STATUSES → job.status = .Queued := by
      intro hactive
      rcases hn.requeues w envelope job since events enqueued hw with ⟨hend, _⟩ | ⟨hq, _⟩
      · exact absurd hactive (ProcessingJob.terminal_not_active hend)
      · exact hq
    apply one_active_with job (update_columns db_now job m0) hs
    · rw [update_columns_origin, horigin]
    · rw [update_columns_status]
    · intro hactive hrival
      apply hgood
      simp only [Crowded, hw]
      exact ⟨hqueued hactive, hrival⟩
    · intro m hm
      rw [ht] at hm
      rcases mem_update hm with hm | ⟨m1, hm1, hid1, rfl⟩
      · exact Or.inl hm
      · rw [eq_of_key _ hn.keyed hm1 hm0 (hid1.trans hid0.symm)]
        exact Or.inr rfl

/-- A commit into a crowd gives a second active job. -/
theorem crowded_breaks {settings : ProcessingSettings} {s : Protocol} {a : Action}
    (hn : Named s) (hfiled : Filed s) (hbad : Crowded s a) :
    ∃ t, s.step settings a = some t ∧ ¬ AtMostOneActive t := by
  cases a with
  | CommitRequest r db_now =>
    simp only [Crowded] at hbad
    split at hbad
    · rename_i job envelope hr
      obtain ⟨m, hm, hne, hactive⟩ := hbad
      have hstep : s.step settings (.CommitRequest r db_now) =
          s.commit_request r db_now (.Enqueued job envelope) := by
        rw [Protocol.step, hr, Option.bind_some]
      refine ⟨_, hstep, ?_⟩
      rw [at_most_one_active_iff (named_keeps s _ _ hn hstep).keyed]
      intro hone
      apply hne
      apply hone job.document_id job.job_type m (List.mem_append_left _ hm)
        (to_model db_now job) (List.mem_append_right _ List.mem_cons_self) hactive
      simp [active_by_type, to_model, hfiled.creations r job envelope hr, ACTIVE_JOB_STATUSES]
    · exact absurd hbad id
  | CommitExecution w db_now =>
    simp only [Crowded] at hbad
    split at hbad
    · rename_i envelope job since events enqueued hw
      obtain ⟨hqueued, m, hm, hne, hactive⟩ := hbad
      have hstep : s.step settings (.CommitExecution w db_now) =
          s.commit_execution w db_now (.Finished envelope job since events enqueued) := by
        rw [Protocol.step, hw, Option.bind_some]
      refine ⟨_, hstep, ?_⟩
      rw [at_most_one_active_iff (named_keeps s _ _ hn hstep).keyed]
      obtain ⟨m0, hm0, horigin⟩ := hfiled.copies w _ job hw rfl
      simp only [ProcessingJobModel.origin, ProcessingJob.origin, to_entity, Prod.mk.injEq]
        at horigin
      have hin : m ∈ update s.jobs db_now job := by
        rw [update, mem_modify]
        exact ⟨m, hm, if_neg hne⟩
      have hin' : update_columns db_now job m0 ∈ update s.jobs db_now job := by
        rw [update, mem_modify]
        exact ⟨m0, hm0, if_pos horigin.1⟩
      intro hone
      apply hne
      have hid := hone job.document_id job.job_type m hin _ hin' hactive (by
        obtain ⟨u, hu⟩ := update_columns_eq db_now job m0
        rw [hu]
        simp [active_by_type, hqueued, ACTIVE_JOB_STATUSES, horigin])
      rw [hid, update_columns_id, horigin.1]
    · exact absurd hbad id
  | _ => exact absurd hbad (by simp [Crowded])

/-- A run keeps at most one active job of each document and type exactly when
it never commits a QUEUED job next to another active one. -/
theorem at_most_one_job_is_active_unless_crowded (settings : ProcessingSettings)
    (as : List Action) :
    Throughout (Protocol.step settings) AtMostOneActive {} as ↔
      Along (Protocol.step settings) (fun s a => ¬ Crowded s a) {} as := by
  refine throughout_iff_along (I := fun s => Named s ∧ Filed s) ?_ ?_ ?_
    ⟨named_init, filed_init⟩ (by simp [AtMostOneActive]) as
  · rintro s a t ⟨hn, hfiled⟩ _ _ ht
    have h := moved_of_step ht
    exact ⟨named_step hn h, filed_step hfiled h⟩
  · rintro s a t ⟨hn, hfiled⟩ hs hgood ht
    exact at_most_one_active_step hn hfiled hs hgood (moved_of_step ht)
  · rintro s a ⟨hn, hfiled⟩ _ hbad
    exact crowded_breaks hn hfiled (not_not.mp hbad)

/-- Two requests for one document, both checked before either commits. -/
def two_requests : List Action :=
  let data : CreateProcessingJobInput := {
    tenant_id := "acme", document_id := ⟨1⟩, job_type := .DocumentIngestion }
  [.Check 0 (fun _ => 0) data, .Check 1 (fun _ => 0) data, .Enqueue 0 ⟨2⟩ noon,
    .Enqueue 1 ⟨3⟩ noon, .CommitRequest 0 noon, .CommitRequest 1 noon]

theorem two_requests_give_two_active_jobs :
    ¬ Throughout (Protocol.step {}) AtMostOneActive {} two_requests := by
  intro h
  have hrun : (run (Protocol.step {}) {} two_requests).map (fun s =>
      (s.jobs.filter (active_by_type ⟨1⟩ .DocumentIngestion)).length) = some 2 := by
    decide +kernel
  obtain ⟨s, hs, heq⟩ := Option.map_eq_some_iff.mp hrun
  have hone := h two_requests [] s (List.append_nil _).symm hs ⟨1⟩ .DocumentIngestion
  omega

end cortex_rag.active_jobs
