-- The worker executor: what it makes of a job, the events it publishes and the
-- messages it enqueues. The calls of the state machine that raise end the
-- execution with their error.
import CortexRag.Jobs

namespace cortex_rag

/-- `build_worker_registry`: the name of the worker of a job type. -/
def build_worker_registry : JobType → Option String
  | .DocumentIngestion => some "IngestionWorker"
  | _ => none

namespace WorkerExecutor

/-- The error text of a job that no worker handles. -/
def no_worker (job : ProcessingJob) : String :=
  "No worker registered for job type '" ++ job.job_type.str ++ "'."

def message (job : ProcessingJob) : Message where
  tenant_id := job.tenant_id
  job_id := job.id

def started_event (job : ProcessingJob) (worker_name : String) : DomainEvent :=
  .ProcessingJobStarted job.id job.document_id job.tenant_id worker_name

def completed_event (job : ProcessingJob) : DomainEvent :=
  .ProcessingJobCompleted job.id job.document_id job.tenant_id

/-- `_publish_failed`. -/
def failed_event (job : ProcessingJob) : DomainEvent :=
  .ProcessingJobFailed job.id job.document_id job.tenant_id (job.error_message.getD "")
    job.retry_count

/-- A job without a worker fails. -/
def refused (job : ProcessingJob) (now : DateTime) :
    Except DomainError (ProcessingJob × List DomainEvent) := do
  let job ← job.fail (no_worker job) now
  return (job, [failed_event job])

/-- A job with a worker starts. -/
def started (worker_name : String) (job : ProcessingJob) (now : DateTime) :
    Except DomainError (ProcessingJob × List DomainEvent) := do
  let job ← job.start worker_name now
  return (job, [started_event job worker_name])

/-- The end of a run: completed, failed for good, or queued once more with a
new message. `outcome` is the text of the exception that the worker raised. -/
def finished (max_retries : Int) (job : ProcessingJob) (outcome : Option String) (now : DateTime) :
    Except DomainError (ProcessingJob × List DomainEvent × Option Message) :=
  match outcome with
  | none => do
    let job ← job.complete now
    return (job, [completed_event job], none)
  | some text => do
    let job ← job.fail text now
    if job.can_retry max_retries then
      let job ← job.retry
      return (job, [], some (message job))
    else return (job, [failed_event job], none)

/-! ## What a call gives -/

theorem refused_ok {job job' : ProcessingJob} {now : DateTime} {events : List DomainEvent}
    (h : refused job now = .ok (job', events)) :
    job'.id = job.id ∧ job'.tenant_id = job.tenant_id ∧ job'.status = .Failed ∧
      events = [failed_event job'] := by
  unfold refused ProcessingJob.fail at h
  simp only [bind, Except.bind, pure, Except.pure] at h
  split at h
  · cases h
  · rename_i failed hf
    split at hf
    · cases hf
    · cases hf
      cases h
      exact ⟨rfl, rfl, rfl, rfl⟩

theorem started_ok {worker_name : String} {job job' : ProcessingJob} {now : DateTime}
    {events : List DomainEvent} (h : started worker_name job now = .ok (job', events)) :
    job.status = .Queued ∧ job'.id = job.id ∧ job'.tenant_id = job.tenant_id ∧
      job'.status = .Running ∧ events = [started_event job' worker_name] := by
  unfold started ProcessingJob.start at h
  simp only [bind, Except.bind, pure, Except.pure] at h
  split at h
  · cases h
  · rename_i begun hb
    split at hb
    · cases hb
    · rename_i hq
      cases hb
      cases h
      exact ⟨not_not.mp hq, rfl, rfl, rfl, rfl⟩

theorem started_document_id {worker_name : String} {job job' : ProcessingJob} {now : DateTime}
    {events : List DomainEvent} (h : started worker_name job now = .ok (job', events)) :
    job'.document_id = job.document_id := by
  unfold started ProcessingJob.start at h
  simp only [bind, Except.bind, pure, Except.pure] at h
  split at h
  · cases h
  · rename_i begun hb
    split at hb
    · cases hb
    · cases hb
      cases h
      rfl

/-- A run ends COMPLETED or FAILED without a message, or QUEUED with one. -/
theorem finished_ok {max_retries : Int} {job job' : ProcessingJob} {outcome : Option String}
    {now : DateTime} {events : List DomainEvent} {enqueued : Option Message}
    (h : finished max_retries job outcome now = .ok (job', events, enqueued)) :
    job'.id = job.id ∧ job'.tenant_id = job.tenant_id ∧
      ((job'.is_terminal = true ∧ enqueued = none) ∨
        (job'.status = .Queued ∧ enqueued = some (message job'))) := by
  unfold finished at h
  cases outcome with
  | none =>
    simp only [bind, Except.bind, pure, Except.pure, ProcessingJob.complete] at h
    split at h
    · cases h
    · rename_i completed hc
      split at hc
      · cases hc
      · cases hc
        cases h
        exact ⟨rfl, rfl, Or.inl ⟨rfl, rfl⟩⟩
  | some text =>
    simp only [bind, Except.bind, pure, Except.pure, ProcessingJob.fail] at h
    split at h
    · cases h
    · rename_i failed hf
      split at hf
      · cases hf
      · cases hf
        split at h
        · simp only [ProcessingJob.retry, ne_eq, not_true_eq_false, if_false] at h
          cases h
          exact ⟨rfl, rfl, Or.inr ⟨rfl, rfl⟩⟩
        · cases h
          exact ⟨rfl, rfl, Or.inl ⟨rfl, rfl⟩⟩

theorem refused_origin {job job' : ProcessingJob} {now : DateTime} {events : List DomainEvent}
    (h : refused job now = .ok (job', events)) :
    job'.origin = job.origin ∧ job'.retry_count = job.retry_count := by
  unfold refused at h
  simp only [bind, Except.bind, pure, Except.pure] at h
  split at h
  · cases h
  · rename_i failed hf
    cases h
    obtain ⟨_, horigin, hcount⟩ := ProcessingJob.fail_ok hf
    exact ⟨horigin, hcount⟩

theorem started_origin {worker_name : String} {job job' : ProcessingJob} {now : DateTime}
    {events : List DomainEvent} (h : started worker_name job now = .ok (job', events)) :
    job'.origin = job.origin ∧ job'.retry_count = job.retry_count := by
  unfold started at h
  simp only [bind, Except.bind, pure, Except.pure] at h
  split at h
  · cases h
  · rename_i begun hb
    cases h
    obtain ⟨_, _, horigin, hcount⟩ := ProcessingJob.start_ok hb
    exact ⟨horigin, hcount⟩

/-- A run that ends COMPLETED or FAILED keeps the number of retries, and one
that ends QUEUED counts one retry more. Only a run that raised ends otherwise
than COMPLETED. -/
theorem finished_cases {max_retries : Int} {job job' : ProcessingJob} {outcome : Option String}
    {now : DateTime} {events : List DomainEvent} {enqueued : Option Message}
    (h : finished max_retries job outcome now = .ok (job', events, enqueued)) :
    job'.origin = job.origin ∧
      ((job'.status = .Completed ∧ job'.retry_count = job.retry_count ∧ outcome = none) ∨
        (job'.status = .Failed ∧ job'.retry_count = job.retry_count ∧ outcome ≠ none ∧
          max_retries ≤ job.retry_count) ∨
        (job'.status = .Queued ∧ job'.retry_count = job.retry_count + 1 ∧ outcome ≠ none ∧
          (job.retry_count : Int) < max_retries)) := by
  unfold finished at h
  cases outcome with
  | none =>
    simp only [bind, Except.bind, pure, Except.pure] at h
    split at h
    · cases h
    · rename_i completed hc
      cases h
      obtain ⟨hstatus, horigin, hcount⟩ := ProcessingJob.complete_ok hc
      exact ⟨horigin, Or.inl ⟨hstatus, hcount, rfl⟩⟩
  | some text =>
    simp only [bind, Except.bind, pure, Except.pure] at h
    split at h
    · cases h
    · rename_i failed hf
      obtain ⟨hstatus, horigin, hcount⟩ := ProcessingJob.fail_ok hf
      split at h
      · rename_i hcan
        simp only [ProcessingJob.can_retry, decide_eq_true_eq] at hcan
        split at h
        · cases h
        · rename_i queued hq
          cases h
          obtain ⟨hstatus', horigin', hcount'⟩ := ProcessingJob.retry_ok hq
          refine ⟨horigin'.trans horigin, Or.inr (Or.inr ⟨hstatus', ?_, by simp, ?_⟩)⟩
          · rw [hcount', hcount]
          · rw [← hcount]
            exact hcan.2
      · rename_i hcan
        cases h
        simp only [ProcessingJob.can_retry, hstatus, true_and, decide_eq_true_eq] at hcan
        refine ⟨horigin, Or.inr (Or.inl ⟨hstatus, hcount, by simp, ?_⟩)⟩
        omega

/-- The events of the end of a run are about its job. -/
theorem finished_events {max_retries : Int} {job job' : ProcessingJob} {outcome : Option String}
    {now : DateTime} {events : List DomainEvent} {enqueued : Option Message}
    (h : finished max_retries job outcome now = .ok (job', events, enqueued)) :
    ∀ event ∈ events, event.job_id = some job'.id := by
  unfold finished at h
  cases outcome with
  | none =>
    simp only [bind, Except.bind, pure, Except.pure] at h
    split at h
    · cases h
    · cases h
      simp [completed_event, DomainEvent.job_id]
  | some text =>
    simp only [bind, Except.bind, pure, Except.pure] at h
    split at h
    · cases h
    · split at h
      · split at h
        · cases h
        · cases h
          simp
      · cases h
        simp [failed_event, DomainEvent.job_id]

end WorkerExecutor

end cortex_rag
