-- The laws of the job's state machine. The six transitions are programs that
-- assign one field after another; a job keeps the invariant `Consistent` after
-- every call, whatever the calls before it were and whether they raised.
import CortexRag.Jobs
import CortexRag.Programs

open state_programs

namespace cortex_rag.job_state_machine

/-! ## The methods -/

/-- A method of `ProcessingJob`. It may raise between two assignments. -/
abbrev Method := Program ProcessingJob DomainError Unit

def assign (f : ProcessingJob → ProcessingJob) : Method := change f

def start (worker_name : String) (now : DateTime) : Method := do
  let self ← look .ok
  if self.status ≠ .Queued then
    raise (.ValidationError
      ("Cannot start job in status '" ++ self.status.str ++ "'; expected QUEUED."))
  assign (fun self => { self with status := .Running })
  assign (fun self => { self with worker_name := some worker_name })
  assign (fun self => { self with started_at := some now })
  assign (fun self => { self with progress := 0 })
  assign (fun self => { self with error_message := none })

def advance (phase : ProcessingJobStatus) (progress : Int) : Method := do
  let self ← look .ok
  if phase ∉ PHASE_STATUSES then
    raise (.ValidationError ("'" ++ phase.str ++ "' is not a valid processing phase."))
  if self.status ∉ ProcessingJobStatus.Running :: PHASE_STATUSES then
    raise (.ValidationError ("Cannot advance job in status '" ++ self.status.str ++ "'."))
  assign (fun self => { self with status := phase })
  assign (fun self => { self with progress := max 0 (min 100 progress) })

def complete (now : DateTime) : Method := do
  let self ← look .ok
  if self.is_terminal then raise self.already_terminal
  assign (fun self => { self with status := .Completed })
  assign (fun self => { self with progress := 100 })
  assign (fun self => { self with finished_at := some now })
  assign (fun self => { self with error_message := none })

def fail (error_message : String) (now : DateTime) : Method := do
  let self ← look .ok
  if self.is_terminal then raise self.already_terminal
  assign (fun self => { self with status := .Failed })
  assign (fun self => { self with finished_at := some now })
  assign (fun self => { self with error_message := some error_message })

def cancel (now : DateTime) : Method := do
  let self ← look .ok
  if self.is_terminal then raise self.already_terminal
  assign (fun self => { self with status := .Cancelled })
  assign (fun self => { self with finished_at := some now })

def retry : Method := do
  let self ← look .ok
  if self.status ≠ .Failed then
    raise (.ValidationError
      ("Only failed jobs can be retried (status '" ++ self.status.str ++ "')."))
  assign (fun self => { self with status := .Queued })
  assign (fun self => { self with retry_count := self.retry_count + 1 })
  assign (fun self => { self with progress := 0 })
  assign (fun self => { self with worker_name := none })
  assign (fun self => { self with started_at := none })
  assign (fun self => { self with finished_at := none })
  assign (fun self => { self with error_message := none })

/-! ## The methods as transitions -/

/-- The call as a transition has it: the new job, or the error and the job as it
was. -/
def of_transition (f : ProcessingJob → Except DomainError ProcessingJob) : Method := fun job =>
  match f job with
  | .ok job' => (.ok (), job')
  | .error e => (.error e, job)

theorem look_then {f : ProcessingJob → Method} (job : ProcessingJob) :
    (look .ok >>= f) job = f job job := rfl

/-- A method that looks at the job, raises or goes on to its assignments. -/
theorem guarded {c : ProcessingJob → Prop} [DecidablePred c] {e : ProcessingJob → DomainError}
    {body : Method} {f : ProcessingJob → ProcessingJob}
    (hbody : ∀ job, body job = (.ok (), f job)) :
    (do
      let self ← look .ok
      if c self then raise (e self)
      body : Method) =
      of_transition (fun job => if c job then .error (e job) else .ok (f job)) := by
  funext job
  unfold of_transition
  by_cases h : c job
  · simp only [look_then, if_pos h]
    rfl
  · simp only [look_then, if_neg h]
    exact hbody job

theorem start_eq (worker_name : String) (now : DateTime) :
    start worker_name now = of_transition (fun job => job.start worker_name now) :=
  guarded (fun _ => rfl)

theorem advance_eq (phase : ProcessingJobStatus) (progress : Int) :
    advance phase progress = of_transition (fun job => job.advance phase progress) := by
  funext job
  unfold advance of_transition ProcessingJob.advance
  by_cases hphase : phase ∉ PHASE_STATUSES
  · simp only [look_then, if_pos hphase]
    rfl
  · by_cases h : job.status ∉ ProcessingJobStatus.Running :: PHASE_STATUSES
    · simp only [look_then, if_neg hphase, if_pos h]
      rfl
    · simp only [look_then, if_neg hphase, if_neg h]
      rfl

theorem complete_eq (now : DateTime) :
    complete now = of_transition (fun job => job.complete now) := guarded (fun _ => rfl)

theorem fail_eq (error_message : String) (now : DateTime) :
    fail error_message now = of_transition (fun job => job.fail error_message now) :=
  guarded (fun _ => rfl)

theorem cancel_eq (now : DateTime) : cancel now = of_transition (fun job => job.cancel now) :=
  guarded (fun _ => rfl)

theorem retry_eq : retry = of_transition ProcessingJob.retry := guarded (fun _ => rfl)

/-! ## Calls -/

inductive Call where
  | Start (worker_name : String) (now : DateTime)
  | Advance (phase : ProcessingJobStatus) (progress : Int)
  | Complete (now : DateTime)
  | Fail (error_message : String) (now : DateTime)
  | Cancel (now : DateTime)
  | Retry
deriving DecidableEq

def Call.method : Call → Method
  | .Start worker_name now => start worker_name now
  | .Advance phase progress => advance phase progress
  | .Complete now => complete now
  | .Fail error_message now => fail error_message now
  | .Cancel now => cancel now
  | .Retry => retry

def Call.transition (job : ProcessingJob) : Call → Except DomainError ProcessingJob
  | .Start worker_name now => job.start worker_name now
  | .Advance phase progress => job.advance phase progress
  | .Complete now => job.complete now
  | .Fail error_message now => job.fail error_message now
  | .Cancel now => job.cancel now
  | .Retry => job.retry

theorem method_eq (call : Call) : call.method = of_transition call.transition := by
  cases call with
  | Start worker_name now => exact start_eq worker_name now
  | Advance phase progress => exact advance_eq phase progress
  | Complete now => exact complete_eq now
  | Fail error_message now => exact fail_eq error_message now
  | Cancel now => exact cancel_eq now
  | Retry => exact retry_eq

variable {job job' : ProcessingJob} {call : Call}

/-- A call that raises leaves every field as it was. -/
theorem unchanged_of_raise {e : DomainError} (h : call.method job = (.error e, job')) :
    job' = job := by
  rw [method_eq] at h
  unfold of_transition at h
  split at h
  · cases h
  · exact (Prod.mk.inj h).2.symm

/-- The calls that do not raise. -/
inductive Moved (job : ProcessingJob) : Call → ProcessingJob → Prop where
  | started (worker_name : String) (now : DateTime) :
    job.status = .Queued →
    Moved job (.Start worker_name now) { job with
      status := .Running, worker_name := some worker_name, started_at := some now,
      progress := 0, error_message := none }
  | advanced (phase : ProcessingJobStatus) (progress : Int) :
    phase ∈ PHASE_STATUSES →
    job.status ∈ ProcessingJobStatus.Running :: PHASE_STATUSES →
    Moved job (.Advance phase progress)
      { job with status := phase, progress := max 0 (min 100 progress) }
  | completed (now : DateTime) :
    job.is_terminal = false →
    Moved job (.Complete now) { job with
      status := .Completed, progress := 100, finished_at := some now, error_message := none }
  | failed (error_message : String) (now : DateTime) :
    job.is_terminal = false →
    Moved job (.Fail error_message now) { job with
      status := .Failed, finished_at := some now, error_message := some error_message }
  | cancelled (now : DateTime) :
    job.is_terminal = false →
    Moved job (.Cancel now) { job with status := .Cancelled, finished_at := some now }
  | retried :
    job.status = .Failed →
    Moved job .Retry { job with
      status := .Queued, retry_count := job.retry_count + 1, progress := 0,
      worker_name := none, started_at := none, finished_at := none, error_message := none }

theorem moved_of_transition (h : call.transition job = .ok job') : Moved job call job' := by
  cases call with
  | Start worker_name now =>
    simp only [Call.transition, ProcessingJob.start] at h
    split at h
    · cases h
    · rename_i hstatus
      cases h
      exact .started worker_name now (not_not.mp hstatus)
  | Advance phase progress =>
    simp only [Call.transition, ProcessingJob.advance] at h
    split at h
    · cases h
    · rename_i hphase
      split at h
      · cases h
      · rename_i hstatus
        cases h
        exact .advanced phase progress (not_not.mp hphase) (not_not.mp hstatus)
  | Complete now =>
    simp only [Call.transition, ProcessingJob.complete] at h
    split at h
    · cases h
    · rename_i hopen
      cases h
      exact .completed now (by simpa using hopen)
  | Fail error_message now =>
    simp only [Call.transition, ProcessingJob.fail] at h
    split at h
    · cases h
    · rename_i hopen
      cases h
      exact .failed error_message now (by simpa using hopen)
  | Cancel now =>
    simp only [Call.transition, ProcessingJob.cancel] at h
    split at h
    · cases h
    · rename_i hopen
      cases h
      exact .cancelled now (by simpa using hopen)
  | Retry =>
    simp only [Call.transition, ProcessingJob.retry] at h
    split at h
    · cases h
    · rename_i hstatus
      cases h
      exact .retried (not_not.mp hstatus)

theorem moved_of_call {u : Unit} (h : call.method job = (.ok u, job')) : Moved job call job' := by
  rw [method_eq] at h
  unfold of_transition at h
  split at h
  · rename_i job'' hjob
    cases h
    exact moved_of_transition hjob
  · cases h

/-! ## The invariant -/

/-- What the fields of a job say about each other. -/
structure Consistent (job : ProcessingJob) : Prop where
  progress : 0 ≤ job.progress ∧ job.progress ≤ 100
  completed : job.status = .Completed → job.progress = 100
  queued : job.status = .Queued →
    job.progress = 0 ∧ job.worker_name = none ∧ job.started_at = none ∧
      job.finished_at = none ∧ job.error_message = none
  running : job.status ∈ ProcessingJobStatus.Running :: PHASE_STATUSES →
    job.worker_name ≠ none ∧ job.started_at ≠ none ∧ job.finished_at = none ∧
      job.error_message = none
  finished : job.finished_at ≠ none ↔ job.status ∈ TERMINAL_JOB_STATUSES
  failed : job.error_message ≠ none ↔ job.status = .Failed
  started : job.worker_name ≠ none ↔ job.started_at ≠ none

/-- A phase is neither the first status of a job nor one of its last. -/
theorem phase_between {status : ProcessingJobStatus} (h : status ∈ PHASE_STATUSES) :
    status ≠ .Queued ∧ status ≠ .Failed ∧ status ≠ .Completed ∧
      status ∉ TERMINAL_JOB_STATUSES := by
  revert h
  cases status <;> decide

/-- A job that is open has neither an end nor an error. -/
theorem Consistent.open_job (h : Consistent job) (hopen : job.is_terminal = false) :
    job.finished_at = none ∧ job.error_message = none := by
  simp only [ProcessingJob.is_terminal, decide_eq_false_iff_not] at hopen
  constructor
  · exact not_not.mp (fun hset => hopen (h.finished.mp hset))
  · refine not_not.mp (fun hset => hopen ?_)
    rw [h.failed.mp hset]
    decide

theorem consistent_of_moved (h : Consistent job) (hm : Moved job call job') : Consistent job' := by
  have hstarted := not_iff_not.mp h.started
  cases hm with
  | started worker_name now hstatus =>
    obtain ⟨_, _, _, hfinished, _⟩ := h.queued hstatus
    constructor <;> simp [hfinished, TERMINAL_JOB_STATUSES]
  | advanced phase progress hphase hstatus =>
    obtain ⟨hworker, hset, hfinished, herror⟩ := h.running hstatus
    obtain ⟨hqueued, hfailed, hcompleted, hterminal⟩ := phase_between hphase
    constructor
    · simp only
      omega
    all_goals simp [hqueued, hfailed, hcompleted, hterminal, hworker, hset, hfinished, herror]
  | completed now hopen =>
    constructor <;> simp [hstarted, TERMINAL_JOB_STATUSES, PHASE_STATUSES]
  | failed error_message now hopen =>
    constructor <;> simp [hstarted, h.progress, TERMINAL_JOB_STATUSES, PHASE_STATUSES]
  | cancelled now hopen =>
    obtain ⟨_, herror⟩ := h.open_job hopen
    constructor <;> simp [hstarted, herror, h.progress, TERMINAL_JOB_STATUSES, PHASE_STATUSES]
  | retried hstatus =>
    constructor <;> simp [TERMINAL_JOB_STATUSES, PHASE_STATUSES]

/-- A terminal status is left by `retry` alone, and from FAILED. -/
theorem left_by_retry (hterminal : job.is_terminal = true) (hm : Moved job call job') :
    call = .Retry ∧ job.status = .Failed := by
  have hstatus := hterminal
  simp only [ProcessingJob.is_terminal, decide_eq_true_eq] at hstatus
  cases hm with
  | started worker_name now hqueued =>
    rw [hqueued] at hstatus
    exact absurd hstatus (by decide)
  | advanced phase progress _ hrunning =>
    rcases List.mem_cons.mp hrunning with h | h
    · rw [h] at hstatus
      exact absurd hstatus (by decide)
    · exact absurd hstatus (phase_between h).2.2.2
  | completed now hopen => exact absurd (hopen.symm.trans hterminal) Bool.false_ne_true
  | failed error_message now hopen => exact absurd (hopen.symm.trans hterminal) Bool.false_ne_true
  | cancelled now hopen => exact absurd (hopen.symm.trans hterminal) Bool.false_ne_true
  | retried hfailed => exact ⟨rfl, hfailed⟩

/-! ## Runs -/

/-- The job as its constructor makes it: each field of the state machine has its
default. -/
def created (job : ProcessingJob) : ProcessingJob where
  id := job.id
  document_id := job.document_id
  tenant_id := job.tenant_id
  job_type := job.job_type
  version_id := job.version_id
  priority := job.priority
  created_at := job.created_at
  updated_at := job.updated_at

/-- The job after the calls, whether they raised or not. -/
def after (job : ProcessingJob) (calls : List Call) : ProcessingJob :=
  calls.foldl (fun job call => (call.method job).2) job

/-- How many of the calls are a `retry` that does not raise. -/
def retries : ProcessingJob → List Call → Nat
  | _, [] => 0
  | job, call :: calls =>
    (if call = .Retry ∧ (call.method job).1.isOk then 1 else 0) + retries (call.method job).2 calls

theorem consistent_created (job : ProcessingJob) : Consistent (created job) := by
  constructor <;> simp [created, TERMINAL_JOB_STATUSES, PHASE_STATUSES]

theorem created_of_moved (hm : Moved job call job') : created job' = created job := by
  cases hm <;> rfl

theorem retry_count_of_moved (hm : Moved job call job') :
    job'.retry_count = job.retry_count + if call = .Retry then 1 else 0 := by
  cases hm <;> rfl

/-- A call raises and changes nothing, or it moves the job. -/
theorem call_cases (job : ProcessingJob) (call : Call) :
    (∃ e, call.method job = (.error e, job)) ∨
      ∃ job', call.method job = (.ok (), job') ∧ Moved job call job' := by
  rcases hcall : call.method job with ⟨e | u, job'⟩
  · rw [unchanged_of_raise hcall]
    exact Or.inl ⟨e, rfl⟩
  · exact Or.inr ⟨job', rfl, moved_of_call hcall⟩

/-- What a run keeps, from a job of the invariant. -/
theorem run_law (h : Consistent job) (calls : List Call) :
    Consistent (after job calls) ∧ created (after job calls) = created job ∧
      (after job calls).retry_count = job.retry_count + retries job calls := by
  induction calls generalizing job with
  | nil => exact ⟨h, rfl, rfl⟩
  | cons call calls ih =>
    rcases call_cases job call with ⟨e, he⟩ | ⟨job', hjob', hm⟩
    · have := ih h
      simp only [after, List.foldl_cons, retries, he]
      simpa [after, Except.isOk, Except.toBool] using this
    · obtain ⟨hconsistent, hcreated, hcount⟩ := ih (consistent_of_moved h hm)
      simp only [after, List.foldl_cons, retries, hjob']
      refine ⟨hconsistent, hcreated.trans (created_of_moved hm), hcount.trans ?_⟩
      rw [retry_count_of_moved hm]
      simp only [Except.isOk, Except.toBool, and_true]
      omega

/-- A queued job is the created one, but for the retries that it counts. -/
theorem Consistent.queued_job (h : Consistent job) (hstatus : job.status = .Queued) :
    job = { created job with retry_count := job.retry_count } := by
  obtain ⟨hprogress, hworker, hstarted, hfinished, herror⟩ := h.queued hstatus
  unfold created
  rcases job with ⟨⟩
  simp_all

/-! ## The law -/

/-- What holds after the calls, and of whatever call comes next. -/
structure Lawful (job : ProcessingJob) (calls : List Call) : Prop where
  consistent : Consistent (after job calls)
  counted : (after job calls).retry_count = retries job calls
  raised : ∀ (call : Call) e job', call.method (after job calls) = (.error e, job') →
    job' = after job calls
  retried : ∀ job', Call.Retry.method (after job calls) = (.ok (), job') →
    job' = { job with retry_count := retries job calls + 1 }
  left : (after job calls).is_terminal = true →
    ∀ (call : Call) job', call.method (after job calls) = (.ok (), job') →
      call = .Retry ∧ (after job calls).status = .Failed

/-- Every sequence of calls on a fresh job is lawful. -/
theorem every_sequence_of_calls_is_lawful {job : ProcessingJob} (hfresh : job = created job)
    (calls : List Call) : Lawful job calls := by
  have hcreated : Consistent job := hfresh ▸ consistent_created job
  obtain ⟨hconsistent, hsame, hcount⟩ := run_law hcreated calls
  have hzero : job.retry_count = 0 := by
    rw [hfresh]
    rfl
  rw [hzero, Nat.zero_add] at hcount
  refine ⟨hconsistent, hcount, fun _ _ _ => unchanged_of_raise, ?_, ?_⟩
  · intro job' hretry
    have hm := moved_of_call hretry
    have hstatus : job'.status = .Queued := by
      cases hm
      rfl
    have hretries : job'.retry_count = retries job calls + 1 := by
      rw [retry_count_of_moved hm, hcount]
      rfl
    rw [(consistent_of_moved hconsistent hm).queued_job hstatus, created_of_moved hm, hsame,
      ← hfresh, hretries]
  · intro hterminal call job' hcall
    exact left_by_retry hterminal (moved_of_call hcall)

/-- A job that fails on its first attempt and is cancelled in its second one. -/
theorem calls_on_a_job_are_lawful :
    Lawful { id := ⟨1⟩, document_id := ⟨2⟩, tenant_id := "acme", job_type := .Ocr }
      [.Start "worker" noon, .Advance .Parsing 130, .Fail "timeout" noon, .Complete noon, .Retry,
        .Start "worker" noon, .Cancel noon, .Retry] :=
  every_sequence_of_calls_is_lawful rfl _

end cortex_rag.job_state_machine
