-- The processing job and its state machine. Each transition gives the job
-- after the call, or the error that the call raises; a call that raises
-- leaves the job as it was.
import CortexRag.Domain

namespace cortex_rag

inductive ProcessingJobStatus where
  | Queued | Running | Parsing | Rendering | Normalizing | Chunking | Embedding | Indexing
  | Completed | Failed | Cancelled
deriving DecidableEq

/-- `str(status)`. -/
def ProcessingJobStatus.str : ProcessingJobStatus → String
  | .Queued => "queued"
  | .Running => "running"
  | .Parsing => "parsing"
  | .Rendering => "rendering"
  | .Normalizing => "normalizing"
  | .Chunking => "chunking"
  | .Embedding => "embedding"
  | .Indexing => "indexing"
  | .Completed => "completed"
  | .Failed => "failed"
  | .Cancelled => "cancelled"

def ACTIVE_JOB_STATUSES : List ProcessingJobStatus :=
  [.Queued, .Running, .Parsing, .Rendering, .Normalizing, .Chunking, .Embedding, .Indexing]

def TERMINAL_JOB_STATUSES : List ProcessingJobStatus := [.Completed, .Failed, .Cancelled]

/-- `_PHASE_STATUSES`. -/
def PHASE_STATUSES : List ProcessingJobStatus :=
  [.Parsing, .Rendering, .Normalizing, .Chunking, .Embedding, .Indexing]

structure ProcessingJob where
  id : UUID
  document_id : UUID
  tenant_id : String
  job_type : JobType
  status : ProcessingJobStatus := .Queued
  version_id : Option UUID := none
  priority : Int := 0
  retry_count : Nat := 0
  progress : Int := 0
  worker_name : Option String := none
  error_message : Option String := none
  started_at : Option DateTime := none
  finished_at : Option DateTime := none
  created_at : Option DateTime := none
  updated_at : Option DateTime := none
deriving DecidableEq

namespace ProcessingJob

def is_terminal (job : ProcessingJob) : Bool := decide (job.status ∈ TERMINAL_JOB_STATUSES)

/-- What a job is about. No transition changes it. -/
def origin (job : ProcessingJob) : UUID × UUID × String × JobType × Option UUID :=
  (job.id, job.document_id, job.tenant_id, job.job_type, job.version_id)

/-- The error of a transition out of a terminal status. -/
def already_terminal (job : ProcessingJob) : DomainError :=
  .ValidationError ("Job already terminal ('" ++ job.status.str ++ "').")

/-- QUEUED -> RUNNING. -/
def start (job : ProcessingJob) (worker_name : String) (now : DateTime) :
    Except DomainError ProcessingJob :=
  if job.status ≠ .Queued then
    .error (.ValidationError
      ("Cannot start job in status '" ++ job.status.str ++ "'; expected QUEUED."))
  else
    .ok { job with
      status := .Running, worker_name := some worker_name, started_at := some now,
      progress := 0, error_message := none }

/-- RUNNING or a phase -> a phase, with the progress clamped to 0..100. -/
def advance (job : ProcessingJob) (phase : ProcessingJobStatus) (progress : Int) :
    Except DomainError ProcessingJob :=
  if phase ∉ PHASE_STATUSES then
    .error (.ValidationError ("'" ++ phase.str ++ "' is not a valid processing phase."))
  else if job.status ∉ ProcessingJobStatus.Running :: PHASE_STATUSES then
    .error (.ValidationError ("Cannot advance job in status '" ++ job.status.str ++ "'."))
  else
    .ok { job with status := phase, progress := max 0 (min 100 progress) }

/-- -> COMPLETED. -/
def complete (job : ProcessingJob) (now : DateTime) : Except DomainError ProcessingJob :=
  if job.is_terminal then .error job.already_terminal
  else
    .ok { job with
      status := .Completed, progress := 100, finished_at := some now, error_message := none }

/-- -> FAILED. -/
def fail (job : ProcessingJob) (error_message : String) (now : DateTime) :
    Except DomainError ProcessingJob :=
  if job.is_terminal then .error job.already_terminal
  else
    .ok { job with
      status := .Failed, finished_at := some now, error_message := some error_message }

/-- -> CANCELLED. -/
def cancel (job : ProcessingJob) (now : DateTime) : Except DomainError ProcessingJob :=
  if job.is_terminal then .error job.already_terminal
  else .ok { job with status := .Cancelled, finished_at := some now }

/-- Whether a failed job may be retried. -/
def can_retry (job : ProcessingJob) (max_retries : Int) : Bool :=
  decide (job.status = .Failed ∧ (job.retry_count : Int) < max_retries)

/-- FAILED -> QUEUED, with one retry more. -/
def retry (job : ProcessingJob) : Except DomainError ProcessingJob :=
  if job.status ≠ .Failed then
    .error (.ValidationError
      ("Only failed jobs can be retried (status '" ++ job.status.str ++ "')."))
  else
    .ok { job with
      status := .Queued, retry_count := job.retry_count + 1, progress := 0,
      worker_name := none, started_at := none, finished_at := none, error_message := none }

theorem terminal_not_active {job : ProcessingJob} (h : job.is_terminal = true) :
    job.status ∉ ACTIVE_JOB_STATUSES := by
  simp only [is_terminal, decide_eq_true_eq] at h
  revert h
  cases job.status <;> decide

/-! ## What a call gives -/

theorem start_ok {job job' : ProcessingJob} {worker_name : String} {now : DateTime}
    (h : job.start worker_name now = .ok job') :
    job.status = .Queued ∧ job'.status = .Running ∧ job'.origin = job.origin ∧
      job'.retry_count = job.retry_count := by
  unfold start at h
  split at h
  · cases h
  · rename_i hq
    cases h
    exact ⟨not_not.mp hq, rfl, rfl, rfl⟩

theorem complete_ok {job job' : ProcessingJob} {now : DateTime} (h : job.complete now = .ok job') :
    job'.status = .Completed ∧ job'.origin = job.origin ∧
      job'.retry_count = job.retry_count := by
  unfold complete at h
  split at h
  · cases h
  · cases h
    exact ⟨rfl, rfl, rfl⟩

theorem fail_ok {job job' : ProcessingJob} {error_message : String} {now : DateTime}
    (h : job.fail error_message now = .ok job') :
    job'.status = .Failed ∧ job'.origin = job.origin ∧
      job'.retry_count = job.retry_count := by
  unfold fail at h
  split at h
  · cases h
  · cases h
    exact ⟨rfl, rfl, rfl⟩

theorem open_of_fail {job job' : ProcessingJob} {error_message : String} {now : DateTime}
    (h : job.fail error_message now = .ok job') : job.is_terminal = false := by
  unfold fail at h
  split at h
  · cases h
  · rename_i hopen
    simpa using hopen

theorem retry_ok {job job' : ProcessingJob} (h : job.retry = .ok job') :
    job'.status = .Queued ∧ job'.origin = job.origin ∧
      job'.retry_count = job.retry_count + 1 := by
  unfold retry at h
  split at h
  · cases h
  · cases h
    exact ⟨rfl, rfl, rfl⟩

end ProcessingJob

end cortex_rag
