-- The job protocol: the requests that create jobs, the workers that handle
-- their messages, and the broker between them. A message is there from the
-- moment it is published, before the transaction behind it commits.
import CortexRag.Runs
import CortexRag.DocumentUseCases
import CortexRag.Workers

open keyed_rows labelled_runs

namespace cortex_rag.job_protocol

/-- A published message, with a tag of its own. -/
structure Envelope where
  tag : Nat
  message : Message
deriving DecidableEq

/-- A transaction of `CreateProcessingJobUseCase.execute`: after its check, and
after it has inserted the job, published the event and enqueued the message. -/
inductive Creation where
  | Checked (data : CreateProcessingJobInput)
  | Enqueued (job : ProcessingJob) (envelope : Envelope)

/-- How far `_handle_message` has come with a message. The copy of the job is
its own until the commit; `since` is the number of executions that were
committed when it read the row. -/
inductive Handling where
  | Taken (envelope : Envelope)
  | Loaded (envelope : Envelope) (job : ProcessingJob) (since : Nat)
  | Started (envelope : Envelope) (job : ProcessingJob) (since : Nat) (events : List DomainEvent)
  | Finished (envelope : Envelope) (job : ProcessingJob) (since : Nat)
      (events : List DomainEvent) (enqueued : Option Envelope)
  | Settled (envelope : Envelope)

/-- A committed execution: the job that it wrote, the events that it has
published, and the row as it left it. -/
structure Execution where
  job : ProcessingJob
  events : List DomainEvent
  row : Option ProcessingJobModel

/-- The committed jobs, the messages that are not acknowledged yet, the open
creations, the workers, and what has been committed and published so far. -/
structure Protocol where
  jobs : List ProcessingJobModel := []
  queue : List Envelope := []
  creations : Nat → Option Creation := fun _ => none
  workers : Nat → Option Handling := fun _ => none
  executions : List Execution := []
  published : List DomainEvent := []
  issued : List UUID := []
  next_tag : Nat := 0

/-- A step of a request or of a worker. `GiveBack` is an exception or a crash:
the transaction is rolled back and the message stays. -/
inductive Action where
  | Check (request : Nat) (order : RowOrder) (data : CreateProcessingJobInput)
  | Enqueue (request : Nat) (id : UUID) (now : DateTime)
  | CommitRequest (request : Nat) (db_now : DateTime)
  | Rollback (request : Nat)
  | Take (worker : Nat) (envelope : Envelope)
  | Load (worker : Nat)
  | Start (worker : Nat) (now : DateTime)
  | Finish (worker : Nat) (outcome : Option String) (now : DateTime)
  | CommitExecution (worker : Nat) (db_now : DateTime)
  | Acknowledge (worker : Nat)
  | GiveBack (worker : Nat)

namespace Protocol

def set_creation (s : Protocol) (r : Nat) (creation : Option Creation) : Protocol :=
  { s with creations := fun k => if k = r then creation else s.creations k }

def set_worker (s : Protocol) (w : Nat) (handling : Option Handling) : Protocol :=
  { s with workers := fun k => if k = w then handling else s.workers k }

/-- The message of a job as the next one that the broker gets. -/
def next_envelope (s : Protocol) (message : Message) : Envelope where
  tag := s.next_tag
  message := message

/-- The broker gets the message and hands it out from now on. -/
def publish (s : Protocol) (message : Message) : Protocol :=
  { s with queue := s.queue ++ [s.next_envelope message], next_tag := s.next_tag + 1 }

/-- `CreateProcessingJobUseCase.execute` after its check. -/
def enqueue (settings : ProcessingSettings) (s : Protocol) (r : Nat) (id : UUID) (now : DateTime) :
    Creation → Option Protocol
  | .Checked data =>
    if id ∈ s.issued then none
    else
      let job := CreateProcessingJobUseCase.new_job settings data id now
      let message := WorkerExecutor.message job
      some { (s.publish message).set_creation r
          (some (.Enqueued job (s.next_envelope message))) with
        published := s.published ++
          [.ProcessingJobCreated job.id job.document_id job.tenant_id job.job_type.str]
        issued := id :: s.issued }
  | .Enqueued _ _ => none

/-- The commit of a request. -/
def commit_request (s : Protocol) (r : Nat) (db_now : DateTime) : Creation → Option Protocol
  | .Checked _ => none
  | .Enqueued job _ =>
    some { s.set_creation r none with
      jobs := SqlAlchemyProcessingJobRepository.add s.jobs db_now job }

/-- The read of the job row. A job that is not there, or is not QUEUED, is
skipped: the message will be acknowledged. -/
def load (s : Protocol) (w : Nat) : Handling → Option Protocol
  | .Taken envelope =>
    match SqlAlchemyProcessingJobRepository.get s.jobs envelope.message.tenant_id
        envelope.message.job_id with
    | none => some (s.set_worker w (some (.Settled envelope)))
    | some job =>
      if job.status ≠ .Queued then some (s.set_worker w (some (.Settled envelope)))
      else some (s.set_worker w (some (.Loaded envelope job s.executions.length)))
  | _ => none

/-- The start of the execution: a job without a worker is finished at once. -/
def start (s : Protocol) (w : Nat) (now : DateTime) : Handling → Option Protocol
  | .Loaded envelope job since =>
    match build_worker_registry job.job_type with
    | none =>
      match WorkerExecutor.refused job now with
      | .error _ => some (s.set_worker w none)
      | .ok (job, events) =>
        some { s.set_worker w (some (.Finished envelope job since events none)) with
          published := s.published ++ events }
    | some worker_name =>
      match WorkerExecutor.started worker_name job now with
      | .error _ => some (s.set_worker w none)
      | .ok (job, events) =>
        some { s.set_worker w (some (.Started envelope job since events)) with
          published := s.published ++ events }
  | _ => none

/-- The end of the execution, with the message of a retry. -/
def finish (settings : ProcessingSettings) (s : Protocol) (w : Nat) (outcome : Option String)
    (now : DateTime) : Handling → Option Protocol
  | .Started envelope job since events =>
    match WorkerExecutor.finished settings.max_retries job outcome now with
    | .error _ => some (s.set_worker w none)
    | .ok (job, more, none) =>
      some { s.set_worker w (some (.Finished envelope job since (events ++ more) none)) with
        published := s.published ++ more }
    | .ok (job, more, some message) =>
      some { (s.publish message).set_worker w (some (.Finished envelope job since (events ++ more)
          (some (s.next_envelope message)))) with
        published := s.published ++ more }
  | _ => none

/-- The commit of an execution: the row takes the copy of the worker. -/
def commit_execution (s : Protocol) (w : Nat) (db_now : DateTime) : Handling → Option Protocol
  | .Finished envelope job _ events _ =>
    let jobs := SqlAlchemyProcessingJobRepository.update s.jobs db_now job
    let row := find ProcessingJobModel.id job.id jobs
    some { s.set_worker w (some (.Settled envelope)) with
      jobs
      executions := s.executions ++ [{ job, events, row }] }
  | _ => none

/-- The broker forgets an acknowledged message. -/
def acknowledge (s : Protocol) (w : Nat) : Handling → Option Protocol
  | .Settled envelope =>
    some { s.set_worker w none with queue := s.queue.filter (fun e => e ≠ envelope) }
  | _ => none

def step (settings : ProcessingSettings) (s : Protocol) : Action → Option Protocol
  | .Check r order data =>
    match s.creations r with
    | some _ => none
    | none =>
      match CreateProcessingJobUseCase.check order s.jobs data with
      | .error _ => some s
      | .ok _ => some (s.set_creation r (some (.Checked data)))
  | .Enqueue r id now => (s.creations r).bind (s.enqueue settings r id now)
  | .CommitRequest r db_now => (s.creations r).bind (s.commit_request r db_now)
  | .Rollback r => (s.creations r).map (fun _ => s.set_creation r none)
  | .Take w envelope =>
    match s.workers w with
    | some _ => none
    | none =>
      if envelope ∈ s.queue then some (s.set_worker w (some (.Taken envelope))) else none
  | .Load w => (s.workers w).bind (s.load w)
  | .Start w now => (s.workers w).bind (s.start w now)
  | .Finish w outcome now => (s.workers w).bind (s.finish settings w outcome now)
  | .CommitExecution w db_now => (s.workers w).bind (s.commit_execution w db_now)
  | .Acknowledge w => (s.workers w).bind (s.acknowledge w)
  | .GiveBack w => (s.workers w).map (fun _ => s.set_worker w none)

end Protocol

/-! ## What a step can do -/

/-- The steps, with what their checks have found. -/
inductive Moved (settings : ProcessingSettings) (s : Protocol) : Action → Protocol → Prop where
  | refused (r : Nat) (order : RowOrder) (data : CreateProcessingJobInput) :
    Moved settings s (.Check r order data) s
  | checked (r : Nat) (order : RowOrder) (data : CreateProcessingJobInput) :
    s.creations r = none → CreateProcessingJobUseCase.check order s.jobs data = .ok () →
    Moved settings s (.Check r order data) (s.set_creation r (some (.Checked data)))
  | enqueued (r : Nat) (id : UUID) (now : DateTime) (data : CreateProcessingJobInput)
      (job : ProcessingJob) (events : List DomainEvent) :
    s.creations r = some (.Checked data) → id ∉ s.issued →
    job = CreateProcessingJobUseCase.new_job settings data id now →
    Moved settings s (.Enqueue r id now)
      { (s.publish (WorkerExecutor.message job)).set_creation r
          (some (.Enqueued job (s.next_envelope (WorkerExecutor.message job)))) with
        published := s.published ++ events
        issued := id :: s.issued }
  | created (r : Nat) (db_now : DateTime) (job : ProcessingJob) (envelope : Envelope) :
    s.creations r = some (.Enqueued job envelope) →
    Moved settings s (.CommitRequest r db_now)
      { s.set_creation r none with
        jobs := SqlAlchemyProcessingJobRepository.add s.jobs db_now job }
  | rolled_back (r : Nat) : Moved settings s (.Rollback r) (s.set_creation r none)
  | taken (w : Nat) (envelope : Envelope) :
    s.workers w = none → envelope ∈ s.queue →
    Moved settings s (.Take w envelope) (s.set_worker w (some (.Taken envelope)))
  | skipped (w : Nat) (envelope : Envelope) :
    s.workers w = some (.Taken envelope) →
    (∀ job, SqlAlchemyProcessingJobRepository.get s.jobs envelope.message.tenant_id
      envelope.message.job_id = some job → job.status ≠ .Queued) →
    Moved settings s (.Load w) (s.set_worker w (some (.Settled envelope)))
  | loaded (w : Nat) (envelope : Envelope) (job : ProcessingJob) :
    s.workers w = some (.Taken envelope) →
    SqlAlchemyProcessingJobRepository.get s.jobs envelope.message.tenant_id
      envelope.message.job_id = some job → job.status = .Queued →
    Moved settings s (.Load w)
      (s.set_worker w (some (.Loaded envelope job s.executions.length)))
  | started (w : Nat) (now : DateTime) (envelope : Envelope) (job job' : ProcessingJob)
      (since : Nat) (worker_name : String) (events : List DomainEvent) :
    s.workers w = some (.Loaded envelope job since) →
    WorkerExecutor.started worker_name job now = .ok (job', events) →
    build_worker_registry job.job_type = some worker_name →
    Moved settings s (.Start w now)
      { s.set_worker w (some (.Started envelope job' since events)) with
        published := s.published ++ events }
  | unregistered (w : Nat) (now : DateTime) (envelope : Envelope) (job job' : ProcessingJob)
      (since : Nat) (events : List DomainEvent) :
    s.workers w = some (.Loaded envelope job since) →
    WorkerExecutor.refused job now = .ok (job', events) →
    build_worker_registry job.job_type = none →
    Moved settings s (.Start w now)
      { s.set_worker w (some (.Finished envelope job' since events none)) with
        published := s.published ++ events }
  | ended (w : Nat) (outcome : Option String) (now : DateTime) (envelope : Envelope)
      (job job' : ProcessingJob) (since : Nat) (events more : List DomainEvent) :
    s.workers w = some (.Started envelope job since events) →
    WorkerExecutor.finished settings.max_retries job outcome now = .ok (job', more, none) →
    Moved settings s (.Finish w outcome now)
      { s.set_worker w (some (.Finished envelope job' since (events ++ more) none)) with
        published := s.published ++ more }
  | requeued (w : Nat) (outcome : Option String) (now : DateTime) (envelope : Envelope)
      (job job' : ProcessingJob) (since : Nat) (events more : List DomainEvent)
      (message : Message) :
    s.workers w = some (.Started envelope job since events) →
    WorkerExecutor.finished settings.max_retries job outcome now =
      .ok (job', more, some message) →
    Moved settings s (.Finish w outcome now)
      { (s.publish message).set_worker w (some (.Finished envelope job' since (events ++ more)
          (some (s.next_envelope message)))) with
        published := s.published ++ more }
  | committed (w : Nat) (db_now : DateTime) (envelope : Envelope) (job : ProcessingJob)
      (since : Nat) (events : List DomainEvent) (enqueued : Option Envelope) :
    s.workers w = some (.Finished envelope job since events enqueued) →
    Moved settings s (.CommitExecution w db_now)
      { s.set_worker w (some (.Settled envelope)) with
        jobs := SqlAlchemyProcessingJobRepository.update s.jobs db_now job
        executions := s.executions ++ [⟨job, events, find ProcessingJobModel.id job.id
          (SqlAlchemyProcessingJobRepository.update s.jobs db_now job)⟩] }
  | acknowledged (w : Nat) (envelope : Envelope) :
    s.workers w = some (.Settled envelope) →
    Moved settings s (.Acknowledge w)
      { s.set_worker w none with queue := s.queue.filter (fun e => e ≠ envelope) }
  | given_back (a : Action) (w : Nat) (handling : Handling) :
    s.workers w = some handling → Moved settings s a (s.set_worker w none)

theorem load_some {settings : ProcessingSettings} {s t : Protocol} {w : Nat} {handling : Handling}
    (hw : s.workers w = some handling) (h : s.load w handling = some t) :
    Moved settings s (.Load w) t := by
  cases handling with
  | Taken envelope =>
    simp only [Protocol.load] at h
    split at h
    · rename_i hget
      cases h
      exact .skipped w envelope hw (fun job hjob => by rw [hget] at hjob; cases hjob)
    · rename_i job hget
      split at h
      · rename_i hstatus
        cases h
        refine .skipped w envelope hw ?_
        intro job' hjob'
        rw [hget] at hjob'
        cases hjob'
        exact hstatus
      · rename_i hstatus
        cases h
        exact .loaded w envelope job hw hget (not_not.mp hstatus)
  | _ => cases h

theorem start_some {settings : ProcessingSettings} {s t : Protocol} {w : Nat} {now : DateTime}
    {handling : Handling} (hw : s.workers w = some handling)
    (h : s.start w now handling = some t) : Moved settings s (.Start w now) t := by
  cases handling with
  | Loaded envelope job since =>
    simp only [Protocol.start] at h
    split at h
    · rename_i hnone
      split at h
      · cases h
        exact .given_back _ w _ hw
      · rename_i job' events hrefused
        cases h
        exact .unregistered w now envelope job job' since events hw hrefused hnone
    · rename_i worker_name hsome
      split at h
      · cases h
        exact .given_back _ w _ hw
      · rename_i job' events hstarted
        cases h
        exact .started w now envelope job job' since worker_name events hw hstarted hsome
  | _ => cases h

theorem finish_some {settings : ProcessingSettings} {s t : Protocol} {w : Nat}
    {outcome : Option String} {now : DateTime} {handling : Handling}
    (hw : s.workers w = some handling) (h : s.finish settings w outcome now handling = some t) :
    Moved settings s (.Finish w outcome now) t := by
  cases handling with
  | Started envelope job since events =>
    simp only [Protocol.finish] at h
    split at h
    · cases h
      exact .given_back _ w _ hw
    · rename_i job' more hfinished
      cases h
      exact .ended w outcome now envelope job job' since events more hw hfinished
    · rename_i job' more message hfinished
      cases h
      exact .requeued w outcome now envelope job job' since events more message hw hfinished
  | _ => cases h

theorem moved_of_step {settings : ProcessingSettings} {s t : Protocol} {a : Action}
    (h : s.step settings a = some t) : Moved settings s a t := by
  cases a with
  | Check r order data =>
    simp only [Protocol.step] at h
    split at h
    · cases h
    · rename_i hr
      split at h
      · cases h
        exact .refused r order data
      · rename_i hcheck
        cases h
        exact .checked r order data hr hcheck
  | Enqueue r id now =>
    simp only [Protocol.step, Option.bind_eq_some_iff] at h
    obtain ⟨creation, hr, h⟩ := h
    cases creation with
    | Checked data =>
      simp only [Protocol.enqueue] at h
      split at h
      · cases h
      · rename_i hid
        cases h
        exact .enqueued r id now data _ _ hr hid rfl
    | Enqueued job envelope => cases h
  | CommitRequest r db_now =>
    simp only [Protocol.step, Option.bind_eq_some_iff] at h
    obtain ⟨creation, hr, h⟩ := h
    cases creation with
    | Checked data => cases h
    | Enqueued job envelope =>
      cases h
      exact .created r db_now job envelope hr
  | Rollback r =>
    simp only [Protocol.step, Option.map_eq_some_iff] at h
    obtain ⟨creation, hr, rfl⟩ := h
    exact .rolled_back r
  | Take w envelope =>
    simp only [Protocol.step] at h
    split at h
    · cases h
    · rename_i hw
      split at h
      · rename_i hin
        cases h
        exact .taken w envelope hw hin
      · cases h
  | Load w =>
    simp only [Protocol.step, Option.bind_eq_some_iff] at h
    obtain ⟨handling, hw, h⟩ := h
    exact load_some hw h
  | Start w now =>
    simp only [Protocol.step, Option.bind_eq_some_iff] at h
    obtain ⟨handling, hw, h⟩ := h
    exact start_some hw h
  | Finish w outcome now =>
    simp only [Protocol.step, Option.bind_eq_some_iff] at h
    obtain ⟨handling, hw, h⟩ := h
    exact finish_some hw h
  | CommitExecution w db_now =>
    simp only [Protocol.step, Option.bind_eq_some_iff] at h
    obtain ⟨handling, hw, h⟩ := h
    cases handling with
    | Finished envelope job since events enqueued =>
      cases h
      exact .committed w db_now envelope job since events enqueued hw
    | _ => cases h
  | Acknowledge w =>
    simp only [Protocol.step, Option.bind_eq_some_iff] at h
    obtain ⟨handling, hw, h⟩ := h
    cases handling with
    | Settled envelope =>
      cases h
      exact .acknowledged w envelope hw
    | _ => cases h
  | GiveBack w =>
    simp only [Protocol.step, Option.map_eq_some_iff] at h
    obtain ⟨handling, hw, rfl⟩ := h
    exact .given_back _ w handling hw

/-! ## The workers after a step -/

@[simp] theorem set_worker_workers (s : Protocol) (w k : Nat) (handling : Option Handling) :
    (s.set_worker w handling).workers k = if k = w then handling else s.workers k := rfl

@[simp] theorem set_creation_workers (s : Protocol) (r k : Nat) (creation : Option Creation) :
    (s.set_creation r creation).workers k = s.workers k := rfl

@[simp] theorem set_creation_creations (s : Protocol) (r k : Nat) (creation : Option Creation) :
    (s.set_creation r creation).creations k = if k = r then creation else s.creations k := rfl

@[simp] theorem set_worker_creations (s : Protocol) (w k : Nat) (handling : Option Handling) :
    (s.set_worker w handling).creations k = s.creations k := rfl

@[simp] theorem publish_workers (s : Protocol) (message : Message) (k : Nat) :
    (s.publish message).workers k = s.workers k := rfl

@[simp] theorem publish_creations (s : Protocol) (message : Message) (k : Nat) :
    (s.publish message).creations k = s.creations k := rfl

/-- What a worker holds after a step: the same as before, or the next phase. -/
inductive HandlingMoved (settings : ProcessingSettings) (s t : Protocol) (w : Nat) :
    Handling → Prop where
  | kept (handling : Handling) :
    s.workers w = some handling → HandlingMoved settings s t w handling
  | taken (envelope : Envelope) :
    envelope ∈ s.queue → HandlingMoved settings s t w (.Taken envelope)
  | skipped (envelope : Envelope) :
    s.workers w = some (.Taken envelope) →
    (∀ job, SqlAlchemyProcessingJobRepository.get s.jobs envelope.message.tenant_id
      envelope.message.job_id = some job → job.status ≠ .Queued) → t.jobs = s.jobs →
    HandlingMoved settings s t w (.Settled envelope)
  | loaded (envelope : Envelope) (job : ProcessingJob) :
    s.workers w = some (.Taken envelope) →
    SqlAlchemyProcessingJobRepository.get s.jobs envelope.message.tenant_id
      envelope.message.job_id = some job → job.status = .Queued →
    t.jobs = s.jobs → t.executions = s.executions →
    HandlingMoved settings s t w (.Loaded envelope job s.executions.length)
  | started (envelope : Envelope) (job job' : ProcessingJob) (since : Nat) (worker_name : String)
      (now : DateTime) (events : List DomainEvent) :
    s.workers w = some (.Loaded envelope job since) →
    WorkerExecutor.started worker_name job now = .ok (job', events) →
    build_worker_registry job.job_type = some worker_name →
    HandlingMoved settings s t w (.Started envelope job' since events)
  | unregistered (envelope : Envelope) (job job' : ProcessingJob) (since : Nat) (now : DateTime)
      (events : List DomainEvent) :
    s.workers w = some (.Loaded envelope job since) →
    WorkerExecutor.refused job now = .ok (job', events) →
    build_worker_registry job.job_type = none →
    HandlingMoved settings s t w (.Finished envelope job' since events none)
  | ended (envelope : Envelope) (job job' : ProcessingJob) (since : Nat)
      (outcome : Option String) (now : DateTime) (events more : List DomainEvent) :
    s.workers w = some (.Started envelope job since events) →
    WorkerExecutor.finished settings.max_retries job outcome now = .ok (job', more, none) →
    HandlingMoved settings s t w (.Finished envelope job' since (events ++ more) none)
  | requeued (envelope : Envelope) (job job' : ProcessingJob) (since : Nat)
      (outcome : Option String) (now : DateTime) (events more : List DomainEvent)
      (message : Message) :
    s.workers w = some (.Started envelope job since events) →
    WorkerExecutor.finished settings.max_retries job outcome now =
      .ok (job', more, some message) → t.next_tag = s.next_tag + 1 →
    HandlingMoved settings s t w (.Finished envelope job' since (events ++ more)
      (some (s.next_envelope message)))
  | committed (envelope : Envelope) (job : ProcessingJob) (since : Nat)
      (events : List DomainEvent) (enqueued : Option Envelope) (db_now : DateTime) :
    s.workers w = some (.Finished envelope job since events enqueued) →
    t.jobs = SqlAlchemyProcessingJobRepository.update s.jobs db_now job →
    HandlingMoved settings s t w (.Settled envelope)

theorem handling_moved {settings : ProcessingSettings} {s t : Protocol} {a : Action}
    (h : Moved settings s a t) {w : Nat} {handling : Handling}
    (hw : t.workers w = some handling) : HandlingMoved settings s t w handling := by
  cases h with
  | refused r order data => exact .kept _ hw
  | checked r order data hr hcheck => exact .kept _ hw
  | enqueued r id now data job events hr hid hjob => exact .kept _ hw
  | created r db_now job envelope hr => exact .kept _ hw
  | rolled_back r => exact .kept _ hw
  | taken k envelope hk hin =>
    rw [set_worker_workers] at hw
    split at hw
    · cases hw
      exact .taken envelope hin
    · exact .kept _ hw
  | skipped k envelope hk hget =>
    rw [set_worker_workers] at hw
    split at hw
    · rename_i he
      cases hw
      exact .skipped envelope (he ▸ hk) hget rfl
    · exact .kept _ hw
  | loaded k envelope job hk hget hstatus =>
    rw [set_worker_workers] at hw
    split at hw
    · rename_i he
      cases hw
      exact .loaded envelope job (he ▸ hk) hget hstatus rfl rfl
    · exact .kept _ hw
  | started k now envelope job job' since worker_name events hk hstarted hsome =>
    simp only [set_worker_workers] at hw
    split at hw
    · rename_i he
      cases hw
      exact .started envelope job job' since worker_name now events (he ▸ hk) hstarted hsome
    · exact .kept _ hw
  | unregistered k now envelope job job' since events hk hrefused hnone =>
    simp only [set_worker_workers] at hw
    split at hw
    · rename_i he
      cases hw
      exact .unregistered envelope job job' since now events (he ▸ hk) hrefused hnone
    · exact .kept _ hw
  | ended k outcome now envelope job job' since events more hk hfinished =>
    simp only [set_worker_workers] at hw
    split at hw
    · rename_i he
      cases hw
      exact .ended envelope job job' since outcome now events more (he ▸ hk) hfinished
    · exact .kept _ hw
  | requeued k outcome now envelope job job' since events more message hk hfinished =>
    simp only [set_worker_workers, publish_workers] at hw
    split at hw
    · rename_i he
      cases hw
      exact .requeued envelope job job' since outcome now events more message (he ▸ hk) hfinished
        rfl
    · exact .kept _ hw
  | committed k db_now envelope job since events enqueued hk =>
    simp only [set_worker_workers] at hw
    split at hw
    · rename_i he
      cases hw
      exact .committed envelope job since events enqueued db_now (he ▸ hk) rfl
    · exact .kept _ hw
  | acknowledged k envelope hk =>
    simp only [set_worker_workers] at hw
    split at hw
    · cases hw
    · exact .kept _ hw
  | given_back _ k handling' hk =>
    rw [set_worker_workers] at hw
    split at hw
    · cases hw
    · exact .kept _ hw

/-! ## The table of jobs after a step -/

/-- What a step does to the table of jobs: nothing, the insert of a new job, or
the write of an execution. -/
inductive JobsMoved (s t : Protocol) : Action → Prop where
  | kept (a : Action) : t.jobs = s.jobs → t.executions = s.executions → JobsMoved s t a
  | created (r : Nat) (db_now : DateTime) (job : ProcessingJob) (envelope : Envelope) :
    s.creations r = some (.Enqueued job envelope) → t.creations r = none →
    t.jobs = s.jobs ++ [to_model db_now job] → t.executions = s.executions →
    t.queue = s.queue → (∀ w, t.workers w = s.workers w) →
    JobsMoved s t (.CommitRequest r db_now)
  | committed (w : Nat) (db_now : DateTime) (envelope : Envelope) (job : ProcessingJob)
      (since : Nat) (events : List DomainEvent) (enqueued : Option Envelope) :
    s.workers w = some (.Finished envelope job since events enqueued) →
    t.jobs = SqlAlchemyProcessingJobRepository.update s.jobs db_now job →
    t.executions = s.executions ++ [⟨job, events, find ProcessingJobModel.id job.id t.jobs⟩] →
    t.queue = s.queue →
    (∀ k, t.workers k = if k = w then some (.Settled envelope) else s.workers k) →
    JobsMoved s t (.CommitExecution w db_now)

theorem jobs_moved {settings : ProcessingSettings} {s t : Protocol} {a : Action}
    (h : Moved settings s a t) : JobsMoved s t a := by
  cases h with
  | created r db_now job envelope hr =>
    exact .created r db_now job envelope hr (by simp) rfl rfl rfl (fun _ => rfl)
  | committed w db_now envelope job since events enqueued hw =>
    exact .committed w db_now envelope job since events enqueued hw rfl rfl rfl (fun _ => rfl)
  | _ => exact .kept _ rfl rfl

/-! ## The messages and the copies -/

def Handling.envelope : Handling → Envelope
  | .Taken envelope => envelope
  | .Loaded envelope _ _ => envelope
  | .Started envelope _ _ _ => envelope
  | .Finished envelope _ _ _ _ => envelope
  | .Settled envelope => envelope

/-- The copy of the job that a worker holds. -/
def Handling.copy : Handling → Option ProcessingJob
  | .Loaded _ job _ => some job
  | .Started _ job _ _ => some job
  | .Finished _ job _ _ _ => some job
  | _ => none

/-- A row with the id and the tenant of the job. -/
def HasRow (s : Protocol) (job : ProcessingJob) : Prop :=
  ∃ m ∈ s.jobs, m.id = job.id ∧ m.tenant_id = job.tenant_id

/-- Ids stand on one row, a message names the job that it was published for,
and the copy of a worker is the job that its message names. -/
structure Named (s : Protocol) : Prop where
  keyed : Keyed ProcessingJobModel.id s.jobs
  issued : ∀ m ∈ s.jobs, m.id ∈ s.issued
  creations : ∀ r job envelope, s.creations r = some (.Enqueued job envelope) →
    envelope.message = WorkerExecutor.message job ∧ job.id ∈ s.issued ∧
      ∀ m ∈ s.jobs, m.id ≠ job.id
  apart : ∀ r r' job job' envelope envelope', s.creations r = some (.Enqueued job envelope) →
    s.creations r' = some (.Enqueued job' envelope') → job.id = job'.id → r = r'
  copies : ∀ w handling job, s.workers w = some handling → handling.copy = some job →
    handling.envelope.message = WorkerExecutor.message job ∧ HasRow s job
  requeues : ∀ w envelope job since events enqueued,
    s.workers w = some (.Finished envelope job since events enqueued) →
    (job.is_terminal = true ∧ enqueued = none) ∨
      (job.status = .Queued ∧ ∃ n, enqueued = some n ∧ n.message = WorkerExecutor.message job ∧
        n ≠ envelope)
  queue_tags : ∀ e ∈ s.queue, e.tag < s.next_tag
  worker_tags : ∀ w handling, s.workers w = some handling → handling.envelope.tag < s.next_tag

theorem named_init : Named {} := by
  constructor <;> simp [Keyed]

/-- A row stays, with its id and its tenant. -/
theorem has_row_step {settings : ProcessingSettings} {s t : Protocol} {a : Action}
    (h : Moved settings s a t) {job : ProcessingJob} (hjob : HasRow s job) : HasRow t job := by
  obtain ⟨m, hm, hid, htenant⟩ := hjob
  cases jobs_moved h with
  | kept _ ht _ => exact ⟨m, ht ▸ hm, hid, htenant⟩
  | created r db_now job' envelope hr _ ht _ _ _ =>
    exact ⟨m, by rw [ht]; exact List.mem_append_left _ hm, hid, htenant⟩
  | committed w db_now envelope job' since events enqueued hw ht _ _ _ =>
    refine ⟨if m.id = job'.id then SqlAlchemyProcessingJobRepository.update_columns db_now job' m
      else m, ?_, ?_⟩
    · rw [ht, SqlAlchemyProcessingJobRepository.update, mem_modify]
      exact ⟨m, hm, rfl⟩
    · split
      · simp [hid, htenant]
      · exact ⟨hid, htenant⟩

/-- The next phase of a worker keeps its message and the identity of its copy. -/
theorem copies_step {settings : ProcessingSettings} {s t : Protocol} {a : Action} (hs : Named s)
    (h : Moved settings s a t) {w : Nat} {handling : Handling} {job : ProcessingJob}
    (hw : t.workers w = some handling) (hjob : handling.copy = some job) :
    handling.envelope.message = WorkerExecutor.message job ∧ HasRow t job := by
  -- an earlier copy with the same id and tenant has the same message and the same row
  have hsame : ∀ handling0 job0, s.workers w = some handling0 → handling0.copy = some job0 →
      handling0.envelope = handling.envelope → job.id = job0.id → job.tenant_id = job0.tenant_id →
      handling.envelope.message = WorkerExecutor.message job ∧ HasRow t job := by
    intro handling0 job0 hw0 hjob0 henv hid htenant
    obtain ⟨hmessage, hrow⟩ := hs.copies w handling0 job0 hw0 hjob0
    refine ⟨?_, ?_⟩
    · rw [← henv, hmessage, WorkerExecutor.message, WorkerExecutor.message, hid, htenant]
    · obtain ⟨m, hm, hid', htenant'⟩ := has_row_step h hrow
      exact ⟨m, hm, hid'.trans hid.symm, htenant'.trans htenant.symm⟩
  cases handling_moved h hw with
  | kept _ hsw => exact hsame handling job hsw hjob rfl rfl rfl
  | taken envelope hin => cases hjob
  | skipped envelope hsw hget ht => cases hjob
  | loaded envelope _ hsw hget hstatus ht _ =>
    cases hjob
    obtain ⟨m, hm, hid, htenant, rfl⟩ := SqlAlchemyProcessingJobRepository.get_row hget
    refine ⟨?_, m, ht ▸ hm, rfl, rfl⟩
    change envelope.message = ⟨m.tenant_id, m.id⟩
    rw [hid, htenant]
  | started envelope job0 job' since worker_name now events hsw hstarted =>
    cases hjob
    obtain ⟨_, hid, htenant, _, _⟩ := WorkerExecutor.started_ok hstarted
    exact hsame _ job0 hsw rfl rfl hid htenant
  | unregistered envelope job0 job' since now events hsw hrefused =>
    cases hjob
    obtain ⟨hid, htenant, _, _⟩ := WorkerExecutor.refused_ok hrefused
    exact hsame _ job0 hsw rfl rfl hid htenant
  | ended envelope job0 job' since outcome now events more hsw hfinished =>
    cases hjob
    obtain ⟨hid, htenant, _⟩ := WorkerExecutor.finished_ok hfinished
    exact hsame _ job0 hsw rfl rfl hid htenant
  | requeued envelope job0 job' since outcome now events more message hsw hfinished =>
    cases hjob
    obtain ⟨hid, htenant, _⟩ := WorkerExecutor.finished_ok hfinished
    exact hsame _ job0 hsw rfl rfl hid htenant
  | committed envelope job0 since events enqueued db_now hsw ht => cases hjob

theorem requeues_step {settings : ProcessingSettings} {s t : Protocol} {a : Action} (hs : Named s)
    (h : Moved settings s a t) {w : Nat} {envelope : Envelope} {job : ProcessingJob} {since : Nat}
    {events : List DomainEvent} {enqueued : Option Envelope}
    (hw : t.workers w = some (.Finished envelope job since events enqueued)) :
    (job.is_terminal = true ∧ enqueued = none) ∨
      (job.status = .Queued ∧ ∃ n, enqueued = some n ∧ n.message = WorkerExecutor.message job ∧
        n ≠ envelope) := by
  cases handling_moved h hw with
  | kept _ hsw => exact hs.requeues w envelope job since events enqueued hsw
  | unregistered _ job0 _ _ now _ hsw hrefused =>
    obtain ⟨_, _, hstatus, _⟩ := WorkerExecutor.refused_ok hrefused
    exact Or.inl ⟨by simp [ProcessingJob.is_terminal, TERMINAL_JOB_STATUSES, hstatus], rfl⟩
  | ended _ job0 _ _ outcome now _ more hsw hfinished =>
    obtain ⟨_, _, hend | ⟨_, hnone⟩⟩ := WorkerExecutor.finished_ok hfinished
    · exact Or.inl ⟨hend.1, rfl⟩
    · cases hnone
  | requeued _ job0 _ _ outcome now _ more message hsw hfinished =>
    obtain ⟨_, _, ⟨_, hnone⟩ | ⟨hstatus, hmessage⟩⟩ := WorkerExecutor.finished_ok hfinished
    · cases hnone
    · cases hmessage
      refine Or.inr ⟨hstatus, _, rfl, rfl, ?_⟩
      -- the new message has a tag that no held message has
      intro heq
      have htag := hs.worker_tags w _ hsw
      rw [Handling.envelope, ← heq] at htag
      exact absurd htag (Nat.lt_irrefl _)

/-- A request that has enqueued its message had done so before the step, or
does so now under a new id. -/
theorem creation_cases {settings : ProcessingSettings} {s t : Protocol} {a : Action}
    (h : Moved settings s a t) {r : Nat} {job : ProcessingJob} {envelope : Envelope}
    (hr : t.creations r = some (.Enqueued job envelope)) :
    s.creations r = some (.Enqueued job envelope) ∨
      (envelope.message = WorkerExecutor.message job ∧ job.id ∉ s.issued ∧ job.id ∈ t.issued ∧
        t.jobs = s.jobs ∧ ∀ k, k ≠ r → t.creations k = s.creations k) := by
  cases h with
  | checked r' order data hr' hcheck =>
    rw [set_creation_creations] at hr
    split at hr
    · cases hr
    · exact Or.inl hr
  | enqueued r' id now data job' events hr' hid hjob =>
    simp only [set_creation_creations, publish_creations] at hr
    split at hr
    · rename_i he
      cases hr
      refine Or.inr ⟨rfl, ?_, ?_, rfl, ?_⟩
      · rw [hjob]
        exact hid
      · rw [hjob]
        exact List.mem_cons_self
      · intro k hk
        exact if_neg (fun hkr => hk (hkr.trans he.symm))
    · exact Or.inl hr
  | created r' db_now job' envelope' hr' =>
    simp only [set_creation_creations] at hr
    split at hr
    · cases hr
    · exact Or.inl hr
  | rolled_back r' =>
    rw [set_creation_creations] at hr
    split at hr
    · cases hr
    · exact Or.inl hr
  | _ => exact Or.inl hr

theorem issued_mono {settings : ProcessingSettings} {s t : Protocol} {a : Action}
    (h : Moved settings s a t) {id : UUID} (hid : id ∈ s.issued) : id ∈ t.issued := by
  cases h with
  | enqueued r id' now data job events hr hnew hjob => exact List.mem_cons_of_mem _ hid
  | _ => exact hid

/-- The ids of the jobs after a step: those before it, and one more after the
commit of a request. -/
theorem job_ids {settings : ProcessingSettings} {s t : Protocol} {a : Action}
    (h : Moved settings s a t) :
    t.jobs.map ProcessingJobModel.id = s.jobs.map ProcessingJobModel.id ∨
      ∃ r job envelope, s.creations r = some (.Enqueued job envelope) ∧ t.creations r = none ∧
        t.jobs.map ProcessingJobModel.id = s.jobs.map ProcessingJobModel.id ++ [job.id] := by
  cases jobs_moved h with
  | kept _ ht _ => exact Or.inl (by rw [ht])
  | created r db_now job envelope hr htr ht _ _ _ =>
    exact Or.inr ⟨r, job, envelope, hr, htr, by rw [ht]; simp [to_model]⟩
  | committed w db_now envelope job since events enqueued hw ht _ _ _ =>
    rw [ht]
    exact Or.inl (map_key_modify _ (fun m hm => by simp [hm]) _)

theorem queue_step {settings : ProcessingSettings} {s t : Protocol} {a : Action}
    (h : Moved settings s a t) :
    s.next_tag ≤ t.next_tag ∧
      ∀ e ∈ t.queue, e ∈ s.queue ∨ (e.tag = s.next_tag ∧ t.next_tag = s.next_tag + 1) := by
  cases h with
  | enqueued r id now data job events hr hid hjob =>
    refine ⟨Nat.le_succ _, ?_⟩
    intro e he
    rcases List.mem_append.mp he with he | he
    · exact Or.inl he
    · rw [List.mem_singleton] at he
      exact Or.inr ⟨by rw [he]; rfl, rfl⟩
  | requeued w outcome now envelope job job' since events more message hw hfinished =>
    refine ⟨Nat.le_succ _, ?_⟩
    intro e he
    rcases List.mem_append.mp he with he | he
    · exact Or.inl he
    · rw [List.mem_singleton] at he
      exact Or.inr ⟨by rw [he]; rfl, rfl⟩
  | acknowledged w envelope hw =>
    exact ⟨Nat.le_refl _, fun e he => Or.inl (List.mem_of_mem_filter he)⟩
  | _ => exact ⟨Nat.le_refl _, fun e he => Or.inl he⟩

section Named

variable {settings : ProcessingSettings} {s t : Protocol} {a : Action}

/-- A row that stands after a step stood before it, or is that of a request which the
step has closed. -/
theorem job_id_before (h : Moved settings s a t) {k : UUID}
    (hk : k ∈ t.jobs.map ProcessingJobModel.id) :
    k ∈ s.jobs.map ProcessingJobModel.id ∨ ∃ r job envelope,
      s.creations r = some (.Enqueued job envelope) ∧ t.creations r = none ∧ k = job.id := by
  rcases job_ids h with he | ⟨r, job, envelope, hr, htr, he⟩
  · exact Or.inl (he ▸ hk)
  · rw [he] at hk
    rcases List.mem_append.mp hk with hk | hk
    · exact Or.inl hk
    · exact Or.inr ⟨r, job, envelope, hr, htr, by simpa using hk⟩

theorem jobs_keyed_step (hs : Named s) (h : Moved settings s a t) :
    Keyed ProcessingJobModel.id t.jobs := by
  rcases job_ids h with he | ⟨r, job, envelope, hr, htr, he⟩
  · exact keyed_of_keys _ hs.keyed he
  · refine keyed_of_keys_append _ hs.keyed ?_ he
    intro hmem
    obtain ⟨m, hm, hid⟩ := List.mem_map.mp hmem
    exact (hs.creations r job envelope hr).2.2 m hm hid

theorem jobs_issued_step (hs : Named s) (h : Moved settings s a t) {m : ProcessingJobModel}
    (hm : m ∈ t.jobs) : m.id ∈ t.issued := by
  rcases job_id_before h (List.mem_map_of_mem hm) with hk | ⟨r, job, envelope, hr, _, hk⟩
  · obtain ⟨m', hm', hk⟩ := List.mem_map.mp hk
    exact issued_mono h (hk ▸ hs.issued m' hm')
  · rw [hk]
    exact issued_mono h (hs.creations r job envelope hr).2.1

theorem creations_step (hs : Named s) (h : Moved settings s a t) {r : Nat} {job : ProcessingJob}
    {envelope : Envelope} (hr : t.creations r = some (.Enqueued job envelope)) :
    envelope.message = WorkerExecutor.message job ∧ job.id ∈ t.issued ∧
      ∀ m ∈ t.jobs, m.id ≠ job.id := by
  rcases creation_cases h hr with hsr | ⟨hmessage, hnew, hissued, ht, _⟩
  · obtain ⟨hmessage, hissued, hfree⟩ := hs.creations r job envelope hsr
    refine ⟨hmessage, issued_mono h hissued, ?_⟩
    intro m hm heq
    rcases job_id_before h (List.mem_map_of_mem hm) with hk | ⟨r', job', envelope', hr', htr', hk⟩
    · obtain ⟨m', hm', hk⟩ := List.mem_map.mp hk
      exact hfree m' hm' (hk.trans heq)
    · -- the step has closed the only request of this id
      have hrr := hs.apart r r' job job' envelope envelope' hsr hr' (heq.symm.trans hk)
      rw [← hrr, hr] at htr'
      cases htr'
  · refine ⟨hmessage, hissued, ?_⟩
    intro m hm heq
    rw [ht] at hm
    exact hnew (heq ▸ hs.issued m hm)

theorem apart_step (hs : Named s) (h : Moved settings s a t) {r r' : Nat}
    {job job' : ProcessingJob} {envelope envelope' : Envelope}
    (hr : t.creations r = some (.Enqueued job envelope))
    (hr' : t.creations r' = some (.Enqueued job' envelope')) (heq : job.id = job'.id) :
    r = r' := by
  rcases creation_cases h hr with hsr | ⟨_, hnew, _, _, hrest⟩
  · rcases creation_cases h hr' with hsr' | ⟨_, hnew, _, _, _⟩
    · exact hs.apart r r' job job' envelope envelope' hsr hsr' heq
    · exact absurd (heq ▸ (hs.creations r job envelope hsr).2.1) hnew
  · by_contra hrr
    rw [hrest r' (fun he => hrr he.symm)] at hr'
    exact hnew (heq ▸ (hs.creations r' job' envelope' hr').2.1)

theorem queue_tags_step (hs : Named s) (h : Moved settings s a t) {e : Envelope}
    (he : e ∈ t.queue) : e.tag < t.next_tag := by
  obtain ⟨hle, hq⟩ := queue_step h
  rcases hq e he with he | ⟨htag, hnext⟩
  · exact Nat.lt_of_lt_of_le (hs.queue_tags e he) hle
  · omega

theorem worker_tags_step (hs : Named s) (h : Moved settings s a t) {w : Nat}
    {handling : Handling} (hw : t.workers w = some handling) :
    handling.envelope.tag < t.next_tag := by
  refine Nat.lt_of_lt_of_le ?_ (queue_step h).1
  have hheld : ∀ handling0, s.workers w = some handling0 →
      handling0.envelope = handling.envelope → handling.envelope.tag < s.next_tag := by
    intro handling0 hw0 henv
    exact henv ▸ hs.worker_tags w handling0 hw0
  cases handling_moved h hw with
  | kept _ hsw => exact hheld _ hsw rfl
  | taken envelope hin => exact hs.queue_tags envelope hin
  | skipped envelope hsw => exact hheld _ hsw rfl
  | loaded envelope job hsw => exact hheld _ hsw rfl
  | started envelope job job' since worker_name now events hsw => exact hheld _ hsw rfl
  | unregistered envelope job job' since now events hsw => exact hheld _ hsw rfl
  | ended envelope job job' since outcome now events more hsw => exact hheld _ hsw rfl
  | requeued envelope job job' since outcome now events more message hsw =>
    exact hheld _ hsw rfl
  | committed envelope job since events enqueued db_now hsw => exact hheld _ hsw rfl

theorem named_step (hs : Named s) (h : Moved settings s a t) : Named t where
  keyed := jobs_keyed_step hs h
  issued := fun _ => jobs_issued_step hs h
  creations := fun _ _ _ => creations_step hs h
  apart := fun _ _ _ _ _ _ => apart_step hs h
  copies := fun _ _ _ => copies_step hs h
  requeues := fun _ _ _ _ _ _ => requeues_step hs h
  queue_tags := fun _ => queue_tags_step hs h
  worker_tags := fun _ _ => worker_tags_step hs h

end Named

theorem named_keeps {settings : ProcessingSettings} (s : Protocol) (a : Action) (t : Protocol)
    (hs : Named s) (h : s.step settings a = some t) : Named t := named_step hs (moved_of_step h)

end cortex_rag.job_protocol
