-- The law of the retry loop: a worker may do what it likes with its job, and yet
-- the loop stops within the retries that are left, with one start for each
-- execution, one message for each retry and one event at the end.
import CortexRag.Runs
import CortexRag.ServiceOutcomes

open keyed_rows labelled_runs state_programs

namespace cortex_rag.retry_loop

open service

/-! ## Workers -/

/-- A worker: its name and its run, which gives the job as the run has left it
and the text of the exception that the run raises. -/
structure Worker where
  name : String
  run : ProcessingJob → Service (ProcessingJob × Option String)

abbrev WorkerRegistry := JobType → Option Worker

/-- `WorkerExecutor.execute` with the workers of a registry. -/
def execute (registry : WorkerRegistry) (max_retries : Int) (m : Moment) (job : ProcessingJob) :
    Service ProcessingJob := do
  match registry job.job_type with
  | none =>
    let (job, events) ← of_domain (WorkerExecutor.refused job (m.clock 0))
    update_job m job
    events.forM publish
    return job
  | some worker =>
    let (job, events) ← of_domain (WorkerExecutor.started worker.name job (m.clock 0))
    update_job m job
    events.forM publish
    let (job, outcome) ← worker.run job
    let (job, events, message) ← of_domain (WorkerExecutor.finished max_retries job outcome
      (m.clock 1))
    update_job m job
    message.forM enqueue
    events.forM publish
    return job

/-- The registry of the service. Its worker does not advance the job. -/
def ingestion_registry (P : Providers) (m : Moment) : WorkerRegistry := fun job_type =>
  (build_worker_registry job_type).map (fun name => {
    name
    run := fun job => do
      let outcome ← WorkerExecutor.attempted (IngestionWorker.run P m job)
      return (job, outcome) })

/-- The executor of the service is the one with the registry of the service. -/
theorem execute_eq {P : Providers} {settings : Settings} {m : Moment} {job : ProcessingJob} :
    WorkerExecutor.execute P settings m job =
      execute (ingestion_registry P m) settings.processing.max_retries m job := by
  unfold WorkerExecutor.execute execute ingestion_registry
  cases build_worker_registry job.job_type with
  | none => rfl
  | some name => simp only [Option.map_some, bind_assoc, pure_bind]

/-! ## The loop -/

/-- What a worker does in one execution: the calls of `advance`, in order, and
the exception that it raises after them, if any. The execution gets the job that
is in memory, or one that is reloaded from its row. -/
structure Attempt where
  moment : Moment
  advances : List (ProcessingJobStatus × Int) := []
  raised : Option PyException := none
  reloaded : Bool := false

/-- The run of a worker. A call of `advance` that raises ends it. -/
def advanced (raised : Option PyException) :
    List (ProcessingJobStatus × Int) → ProcessingJob → ProcessingJob × Option String
  | [], job => (job, raised.map PyException.str)
  | (phase, progress) :: advances, job =>
    match job.advance phase progress with
    | .ok job => advanced raised advances job
    | .error e => (job, some (PyException.Domain e).str)

/-- The workers of an attempt: those of the names, and each does what the attempt
says. -/
def Attempt.registry (names : JobType → Option String) (a : Attempt) : WorkerRegistry :=
  fun job_type => (names job_type).map (fun name => {
    name
    run := fun job => return advanced a.raised a.advances job })

/-- The text of the error of an attempt, if it does not return: that of the first
call with a status that is no phase, or that of the exception after the calls. -/
def Attempt.error (a : Attempt) : Option String :=
  (a.advances.find? (fun call => call.1 ∉ PHASE_STATUSES)).elim (a.raised.map PyException.str)
    (fun call => some ("'" ++ call.1.str ++ "' is not a valid processing phase."))

/-- The state of the loop: the job in memory, the number of executions that are
due, and the exception of an execution that has raised one. -/
structure Loop where
  world : World
  job : ProcessingJob
  due : Nat := 1
  raised : Option Interruption := none

/-- The job that an execution gets: the one in memory, or the one that is read
back from its row. -/
def Loop.current (s : Loop) (a : Attempt) : ProcessingJob :=
  if a.reloaded then
    (SqlAlchemyProcessingJobRepository.get s.world.db.jobs s.job.tenant_id s.job.id).getD s.job
  else s.job

/-- One execution, if one is due. Each message that it enqueues makes one more
due. -/
def Loop.step (names : JobType → Option String) (max_retries : Int) (s : Loop) (a : Attempt) :
    Option Loop :=
  if s.due = 0 then none
  else
    match execute (a.registry names) max_retries a.moment (s.current a) ⟨s.world, [], false⟩ with
    | (.ok job, c) => some {
        world := c.world
        job
        due := s.due - 1 + (c.world.queue.length - s.world.queue.length) }
    | (.error e, c) => some { world := c.world, job := s.job, due := 0, raised := some e }

/-- Two jobs that agree on every field except `updated_at`. -/
def agrees (a b : ProcessingJob) : Prop := { a with updated_at := b.updated_at } = b

/-- The stored row of the job, read back, agrees with the job in memory. -/
def Loop.persisted (s : Loop) : Prop :=
  ∃ stored, SqlAlchemyProcessingJobRepository.get s.world.db.jobs s.job.tenant_id s.job.id =
    some stored ∧ agrees stored s.job

/-- The event at the end of the loop. -/
def terminal_event (job : ProcessingJob) : DomainEvent :=
  if job.status = .Completed then WorkerExecutor.completed_event job
  else WorkerExecutor.failed_event job

variable {names : JobType → Option String} {max_retries : Int} {m : Moment} {a : Attempt}
  {w : World} {job job' : ProcessingJob} {name : String}

/-! ## One attempt -/

/-- A job that runs may be advanced to any phase, and a call raises only for a
status that is none. -/
theorem advanced_of_running (m : Moment) (raised : Option PyException)
    (advances : List (ProcessingJobStatus × Int))
    (h : job.status ∈ ProcessingJobStatus.Running :: PHASE_STATUSES) :
    (∃ status progress, status ∈ ProcessingJobStatus.Running :: PHASE_STATUSES ∧
      (advanced raised advances job).1 = { job with status, progress }) ∧
    (advanced raised advances job).2 = Attempt.error ⟨m, advances, raised, false⟩ := by
  induction advances generalizing job with
  | nil => exact ⟨⟨job.status, job.progress, h, rfl⟩, rfl⟩
  | cons call advances ih =>
    obtain ⟨phase, progress⟩ := call
    by_cases hphase : phase ∈ PHASE_STATUSES
    · have hadvance : job.advance phase progress =
          .ok { job with status := phase, progress := max 0 (min 100 progress) } := by
        unfold ProcessingJob.advance
        rw [if_neg (not_not.mpr hphase), if_neg (not_not.mpr h)]
      obtain ⟨⟨status, progress', hstatus, heq⟩, herror⟩ :=
        ih (List.mem_cons_of_mem _ hphase : ({ job with
          status := phase, progress := max 0 (min 100 progress) } : ProcessingJob).status ∈ _)
      simp only [advanced, hadvance]
      refine ⟨⟨status, progress', hstatus, heq⟩, ?_⟩
      rw [herror]
      simp [Attempt.error, hphase]
    · have hadvance : job.advance phase progress = .error (.ValidationError
          ("'" ++ phase.str ++ "' is not a valid processing phase.")) := by
        unfold ProcessingJob.advance
        rw [if_pos hphase]
      simp only [advanced, hadvance]
      refine ⟨⟨job.status, job.progress, h, rfl⟩, ?_⟩
      simp [Attempt.error, hphase, PyException.str, DomainError.message]

/-! ## The stored row -/

/-- The fields of a job that no update writes to its row. -/
def unwritten (job : ProcessingJob) :
    (UUID × UUID × String × JobType × Option UUID) × Option DateTime := (job.origin, job.created_at)

/-- An update makes the row agree with a job that differs from it only in the
columns that the update writes. -/
theorem agrees_update {model : ProcessingJobModel} {db_now : DateTime}
    (h : agrees (to_entity model) job) (hsame : unwritten job' = unwritten job) :
    agrees (to_entity (SqlAlchemyProcessingJobRepository.update_columns db_now job' model))
      job' := by
  obtain ⟨updated_at, hcolumns⟩ :=
    SqlAlchemyProcessingJobRepository.update_columns_eq db_now job' model
  have hrow : unwritten (to_entity model) = unwritten job' := by
    rw [hsame, ← h]
    rfl
  rw [hcolumns]
  unfold agrees
  simp only [unwritten, ProcessingJob.origin, to_entity, Prod.mk.injEq] at hrow
  obtain ⟨⟨hid, hdocument, htenant, htype, hversion⟩, hcreated⟩ := hrow
  simp only [to_entity, hid, hdocument, htenant, htype, hversion, hcreated]

theorem get_update {jobs : List ProcessingJobModel} (db_now : DateTime) {stored : ProcessingJob}
    {tenant_id : String}
    (h : SqlAlchemyProcessingJobRepository.get jobs tenant_id job.id = some stored) :
    ∃ model, stored = to_entity model ∧
      SqlAlchemyProcessingJobRepository.get
        (SqlAlchemyProcessingJobRepository.update jobs db_now job) tenant_id job.id =
      some (to_entity (SqlAlchemyProcessingJobRepository.update_columns db_now job model)) := by
  unfold SqlAlchemyProcessingJobRepository.get at h ⊢
  obtain ⟨model, hfind, rfl⟩ := Option.map_eq_some_iff.mp h
  refine ⟨model, rfl, ?_⟩
  have hid : model.id = job.id := by
    have := List.find?_some hfind
    simp only [decide_eq_true_eq] at this
    exact this.1
  unfold SqlAlchemyProcessingJobRepository.update keyed_rows.modify
  rw [List.find?_map]
  have hsame : ((fun m : ProcessingJobModel => decide (m.id = job.id ∧ m.tenant_id = tenant_id)) ∘
      fun r => if r.id = job.id then
        SqlAlchemyProcessingJobRepository.update_columns db_now job r else r) =
      fun m => decide (m.id = job.id ∧ m.tenant_id = tenant_id) := by
    funext r
    simp only [Function.comp_apply]
    split <;> simp
  rw [hsame, hfind]
  simp [hid]

/-- What is read back after an update agrees with the job that was written. -/
theorem read_back_update {jobs : List ProcessingJobModel} (db_now : DateTime)
    (h : ∃ stored, SqlAlchemyProcessingJobRepository.get jobs job.tenant_id job.id = some stored ∧
      agrees stored job) (hsame : unwritten job' = unwritten job) :
    ∃ stored, SqlAlchemyProcessingJobRepository.get
        (SqlAlchemyProcessingJobRepository.update jobs db_now job') job'.tenant_id job'.id =
      some stored ∧ agrees stored job' := by
  obtain ⟨stored, hget, hagrees⟩ := h
  have hfields := hsame
  simp only [unwritten, ProcessingJob.origin, Prod.mk.injEq] at hfields
  obtain ⟨⟨hid, _, htenant, _⟩, _⟩ := hfields
  rw [← hid, ← htenant] at hget
  obtain ⟨model, rfl, hupdated⟩ := get_update db_now hget
  exact ⟨_, hupdated, agrees_update hagrees hsame⟩

/-! ## One execution -/

/-- How an execution of `job` may end, with its last events and its messages. -/
inductive Outcome (max_retries : Int) (error : Option String) (job ended : ProcessingJob) :
    List DomainEvent → List Message → Prop where
  | completed (returned : error = none) (status : ended.status = .Completed)
      (progress : ended.progress = 100) (retries : ended.retry_count = job.retry_count) :
      Outcome max_retries error job ended [WorkerExecutor.completed_event ended] []
  | failed (text : String) (raised : error = some text)
      (spent : max_retries ≤ job.retry_count) (status : ended.status = .Failed)
      (message : ended.error_message = some text) (retries : ended.retry_count = job.retry_count) :
      Outcome max_retries error job ended [WorkerExecutor.failed_event ended] []
  | queued (text : String) (raised : error = some text)
      (left : (job.retry_count : Int) < max_retries) (status : ended.status = .Queued)
      (retries : ended.retry_count = job.retry_count + 1) :
      Outcome max_retries error job ended [] [WorkerExecutor.message ended]

/-- The end of the run of an open job raises nothing. -/
theorem finished_of_open (max_retries : Int) (hopen : job.is_terminal = false)
    (error : Option String) (now : DateTime) :
    ∃ ended events message,
      WorkerExecutor.finished max_retries job error now = .ok (ended, events, message) ∧
      unwritten ended = unwritten job ∧
      Outcome max_retries error job ended events message.toList := by
  cases error with
  | none =>
    have hcomplete : job.complete now = .ok { job with
        status := .Completed, progress := 100, finished_at := some now,
        error_message := none } := by
      simp [ProcessingJob.complete, hopen]
    refine ⟨{ job with
      status := .Completed, progress := 100, finished_at := some now, error_message := none },
      _, none, ?_, rfl, .completed rfl rfl rfl rfl⟩
    simp only [WorkerExecutor.finished, hcomplete]
    rfl
  | some text =>
    have hfail : job.fail text now = .ok { job with
        status := .Failed, finished_at := some now, error_message := some text } := by
      simp [ProcessingJob.fail, hopen]
    by_cases hleft : (job.retry_count : Int) < max_retries
    · refine ⟨{ job with
        status := .Queued, retry_count := job.retry_count + 1, progress := 0,
        worker_name := none, started_at := none, finished_at := none, error_message := none },
        [], some (WorkerExecutor.message job), ?_, rfl, .queued text rfl hleft rfl rfl⟩
      simp only [WorkerExecutor.finished, hfail, bind, Except.bind, ProcessingJob.can_retry,
        hleft, ProcessingJob.retry]
      rfl
    · refine ⟨{ job with
        status := .Failed, finished_at := some now, error_message := some text }, _, none, ?_,
        rfl, .failed text rfl (by omega) rfl rfl rfl⟩
      simp only [WorkerExecutor.finished, hfail, bind, Except.bind, ProcessingJob.can_retry,
        hleft, and_false, decide_false, Bool.false_eq_true, if_false]
      rfl

section Calm

/-! ### Calls that do not fail -/

variable {α β : Type} {f : Unit → Service β}

theorem of_domain_then {x : Except DomainError α} {value : α} {f : α → Service β} {c : Call}
    (h : x = .ok value) : (of_domain x >>= f) c = f value c := by
  rw [h]
  rfl

theorem update_job_then : (update_job m job >>= f) ⟨w, [], false⟩ = f () ⟨{ w with
    db := { w.db with
      jobs := SqlAlchemyProcessingJobRepository.update w.db.jobs m.db_now job } },
    [], false⟩ := rfl

theorem publish_then {events : List DomainEvent} :
    (events.forM publish >>= f) ⟨w, [], false⟩ =
      f () ⟨{ w with events := w.events ++ events }, [], false⟩ := by
  induction events generalizing w with
  | nil =>
    rw [List.append_nil]
    rfl
  | cons event events ih =>
    have hfirst : ((event :: events).forM publish >>= f) ⟨w, [], false⟩ =
        (events.forM publish >>= f) ⟨{ w with events := w.events ++ [event] }, [], false⟩ := rfl
    rw [hfirst, ih, List.append_assoc, List.singleton_append]

theorem enqueue_then {message : Option Message} :
    (message.forM enqueue >>= f) ⟨w, [], false⟩ =
      f () ⟨{ w with queue := w.queue ++ message.toList }, [], false⟩ := by
  cases message with
  | none =>
    rw [Option.toList_none, List.append_nil]
    rfl
  | some message => rfl

end Calm

/-- The execution of a queued job with a worker. It writes two versions of the
row, publishes the start and what its outcome asks for, and does not raise. -/
theorem execute_queued (max_retries : Int) (a : Attempt) (w : World)
    (hqueued : job.status = .Queued) (hworker : names job.job_type = some name) :
    ∃ begun ended events messages,
      execute (a.registry names) max_retries a.moment job ⟨w, [], false⟩ = (.ok ended, ⟨{ w with
        db := { w.db with
          jobs := SqlAlchemyProcessingJobRepository.update
            (SqlAlchemyProcessingJobRepository.update w.db.jobs a.moment.db_now begun)
            a.moment.db_now ended }
        queue := w.queue ++ messages
        events := w.events ++ WorkerExecutor.started_event job name :: events }, [], false⟩) ∧
      unwritten begun = unwritten job ∧ unwritten ended = unwritten job ∧
      Outcome max_retries a.error job ended events messages := by
  have hstart : job.start name (a.moment.clock 0) = .ok { job with
      status := .Running, worker_name := some name, started_at := some (a.moment.clock 0),
      progress := 0, error_message := none } := by
    simp [ProcessingJob.start, hqueued]
  generalize hbegun : { job with
    status := .Running, worker_name := some name, started_at := some (a.moment.clock 0),
    progress := 0, error_message := none : ProcessingJob } = begun at hstart
  have hrunning : begun.status ∈ ProcessingJobStatus.Running :: PHASE_STATUSES := by
    rw [← hbegun]
    exact List.mem_cons_self
  obtain ⟨⟨status, progress, hstatus, hleft⟩, herror⟩ :=
    advanced_of_running a.moment a.raised a.advances hrunning
  have herror : (advanced a.raised a.advances begun).2 = a.error := herror
  have hopen : (advanced a.raised a.advances begun).1.is_terminal = false := by
    rw [hleft]
    simp only [ProcessingJob.is_terminal, decide_eq_false_iff_not]
    revert hstatus
    cases status <;> decide
  obtain ⟨ended, events, message, hfinished, hsame, houtcome⟩ :=
    finished_of_open max_retries hopen a.error (a.moment.clock 1)
  refine ⟨begun, ended, events, message.toList, ?_, by rw [← hbegun]; rfl, ?_, ?_⟩
  · have hstarted : WorkerExecutor.started name job (a.moment.clock 0) =
        .ok (begun, [WorkerExecutor.started_event job name]) := by
      rw [WorkerExecutor.started, hstart, ← hbegun]
      rfl
    unfold execute
    simp only [Attempt.registry, hworker, Option.map_some]
    refine (of_domain_then hstarted).trans ?_
    refine update_job_then.trans ?_
    refine publish_then.trans ?_
    rw [pure_bind]
    refine (of_domain_then (by rw [herror]; exact hfinished)).trans ?_
    refine update_job_then.trans ?_
    refine enqueue_then.trans ?_
    refine publish_then.trans ?_
    simp [pure]
  · rw [hsame, hleft, ← hbegun]
    rfl
  · have hretries : (advanced a.raised a.advances begun).1.retry_count = job.retry_count := by
      rw [hleft, ← hbegun]
    generalize message.toList = messages at houtcome ⊢
    cases houtcome with
    | completed returned status progress retries =>
      exact .completed returned status progress (retries.trans hretries)
    | failed text raised spent status message retries =>
      exact .failed text raised (hretries ▸ spent) status message (retries.trans hretries)
    | queued text raised left status retries =>
      exact .queued text raised (hretries ▸ left) status (by rw [retries, hretries])

/-! ## The loop -/

theorem agrees_refl : agrees job job := rfl

theorem of_agrees (h : agrees job job') :
    unwritten job = unwritten job' ∧ job.status = job'.status ∧
      job.retry_count = job'.retry_count := by
  rw [← h]
  exact ⟨rfl, rfl, rfl⟩

theorem events_of_unwritten (name : String) (h : unwritten job' = unwritten job) :
    WorkerExecutor.started_event job' name = WorkerExecutor.started_event job name ∧
      WorkerExecutor.message job' = WorkerExecutor.message job := by
  simp only [unwritten, ProcessingJob.origin, Prod.mk.injEq] at h
  obtain ⟨⟨hid, hdocument, htenant, _⟩, _⟩ := h
  simp only [WorkerExecutor.started_event, WorkerExecutor.message, hid, hdocument, htenant,
    and_self]

/-- The job that an execution gets agrees with the one in memory and with its
row. -/
theorem agrees_current {s : Loop} (h : s.persisted) (a : Attempt) :
    agrees (s.current a) s.job ∧
      ∃ stored, SqlAlchemyProcessingJobRepository.get s.world.db.jobs (s.current a).tenant_id
        (s.current a).id = some stored ∧ agrees stored (s.current a) := by
  obtain ⟨stored, hget, hagrees⟩ := h
  unfold Loop.current
  split
  · rw [hget, Option.getD_some]
    refine ⟨hagrees, stored, ?_, agrees_refl⟩
    have hsame := (of_agrees hagrees).1
    simp only [unwritten, ProcessingJob.origin, Prod.mk.injEq] at hsame
    obtain ⟨⟨hid, _, htenant, _⟩, _⟩ := hsame
    rw [hid, htenant]
    exact hget
  · exact ⟨agrees_refl, stored, hget, hagrees⟩

/-- The loop of `job` after `n` executions, with one more due. -/
structure Going (w : World) (job : ProcessingJob) (name : String) (n : Nat) (s : Loop) : Prop where
  due : s.due = 1
  raised : s.raised = none
  status : s.job.status = .Queued
  same : unwritten s.job = unwritten job
  retries : s.job.retry_count = job.retry_count + n
  events : s.world.events =
    w.events ++ List.replicate n (WorkerExecutor.started_event job name)
  queue : s.world.queue = w.queue ++ List.replicate n (WorkerExecutor.message job)
  persisted : s.persisted

/-- The end of the loop of `job` with its execution number `n`, the attempt `a`. -/
structure Done (w : World) (job : ProcessingJob) (name : String) (n : Nat) (a : Attempt)
    (s : Loop) : Prop where
  due : s.due = 0
  raised : s.raised = none
  returned : a.error = none → s.job.status = .Completed ∧ s.job.progress = 100
  failed : ∀ text, a.error = some text →
    s.job.status = .Failed ∧ s.job.error_message = some text
  retries : s.job.retry_count = job.retry_count + (n - 1)
  events : s.world.events = w.events ++
    List.replicate n (WorkerExecutor.started_event job name) ++ [terminal_event s.job]
  queue : s.world.queue = w.queue ++ List.replicate (n - 1) (WorkerExecutor.message job)
  persisted : s.persisted

/-- An execution ends the loop, or leaves one retry less. -/
theorem loop_step (hworker : names job.job_type = some name) {n : Nat} {s : Loop}
    (h : Going w job name n s) (a : Attempt) :
    ∃ t, s.step names max_retries a = some t ∧ (Done w job name (n + 1) a t ∨
      (n < (max_retries - job.retry_count).toNat ∧ Going w job name (n + 1) t)) := by
  obtain ⟨hcurrent, hstored⟩ := agrees_current h.persisted a
  obtain ⟨hunwritten, hstatus, hcount⟩ := of_agrees hcurrent
  have hsame : unwritten (s.current a) = unwritten job := hunwritten.trans h.same
  have hretries : (s.current a).retry_count = job.retry_count + n := hcount.trans h.retries
  have hnamed : names (s.current a).job_type = some name := by
    have htype := hsame
    simp only [unwritten, ProcessingJob.origin, Prod.mk.injEq] at htype
    rw [htype.1.2.2.2.1]
    exact hworker
  obtain ⟨begun, ended, events, messages, hexecute, hbegun, hended, houtcome⟩ :=
    execute_queued max_retries a s.world (hstatus.trans h.status) hnamed
  have hstart := (events_of_unwritten name hsame).1
  have hmessage := (events_of_unwritten name (hended.trans hsame)).2
  have hpersisted := read_back_update a.moment.db_now
    (read_back_update a.moment.db_now hstored hbegun) (hended.trans hbegun.symm)
  have hstep : ∃ t, s.step names max_retries a = some t ∧ t.job = ended ∧ t.raised = none ∧
      t.due = messages.length ∧ t.world.queue = s.world.queue ++ messages ∧
      t.world.events = s.world.events ++ WorkerExecutor.started_event job name :: events ∧
      t.persisted := by
    unfold Loop.step
    rw [h.due, if_neg Nat.one_ne_zero, hexecute]
    refine ⟨_, rfl, rfl, rfl, ?_, rfl, ?_, hpersisted⟩
    · simp
    · rw [hstart]
  obtain ⟨t, ht, rfl, hraised, hdue, hqueue, hevents, hpersisted⟩ := hstep
  have hstarts : ∀ events', t.world.events = s.world.events ++
        WorkerExecutor.started_event job name :: events' →
      t.world.events = w.events ++
        List.replicate (n + 1) (WorkerExecutor.started_event job name) ++ events' := by
    intro events' he
    rw [he, h.events, List.replicate_succ']
    simp
  refine ⟨t, ht, ?_⟩
  cases houtcome with
  | completed returned status progress retries =>
    refine Or.inl ⟨hdue, hraised, fun _ => ⟨status, progress⟩, ?_, ?_, ?_, ?_, hpersisted⟩
    · intro text htext
      rw [returned] at htext
      cases htext
    · rw [retries, hretries, Nat.add_sub_cancel]
    · rw [hstarts _ hevents, terminal_event, if_pos status]
    · rw [hqueue, h.queue, List.append_nil, Nat.add_sub_cancel]
  | failed text raised spent status message retries =>
    refine Or.inl ⟨hdue, hraised, ?_, ?_, ?_, ?_, ?_, hpersisted⟩
    · intro hreturned
      rw [hreturned] at raised
      cases raised
    · intro text' htext
      rw [raised] at htext
      cases htext
      exact ⟨status, message⟩
    · rw [retries, hretries, Nat.add_sub_cancel]
    · rw [hstarts _ hevents, terminal_event, if_neg (by rw [status]; decide)]
    · rw [hqueue, h.queue, List.append_nil, Nat.add_sub_cancel]
  | queued text raised left status retries =>
    refine Or.inr ⟨by omega, hdue, hraised, status, hended.trans hsame, ?_, ?_, ?_, hpersisted⟩
    · rw [retries, hretries, Nat.add_assoc]
    · rw [hstarts _ hevents, List.append_nil]
    · rw [hqueue, h.queue, hmessage, List.replicate_succ', List.append_assoc]

/-- However its attempts end, the loop of a stored job in the queue stops, within
the retries that are left. -/
theorem the_retry_loop_ends_with_an_exact_trace (names : JobType → Option String)
    (max_retries : Int) {stored : ProcessingJob}
    (hstored : SqlAlchemyProcessingJobRepository.get w.db.jobs job.tenant_id job.id = some stored)
    (hagrees : agrees stored job) (hqueued : job.status = .Queued)
    (hworker : names job.job_type = some name) (attempts : Nat → Attempt) :
    ∃ (k : Nat) (s : Loop), 1 ≤ k ∧ (k : Int) ≤ max 1 (max_retries - job.retry_count + 1) ∧
      run (Loop.step names max_retries) { world := w, job } ((List.range k).map attempts) =
        some s ∧ s.due = 0 ∧
      Throughout (Loop.step names max_retries) (fun t => t.raised = none ∧ t.persisted)
        { world := w, job } ((List.range k).map attempts) ∧
      ((attempts (k - 1)).error = none → s.job.status = .Completed ∧ s.job.progress = 100) ∧
      (∀ text, (attempts (k - 1)).error = some text →
        s.job.status = .Failed ∧ s.job.error_message = some text) ∧
      s.world.events = w.events ++
        List.replicate k (WorkerExecutor.started_event job name) ++ [terminal_event s.job] ∧
      s.world.queue = w.queue ++ List.replicate (k - 1) (WorkerExecutor.message job) ∧
      s.job.retry_count = job.retry_count + (k - 1) := by
  have hstart : Going w job name 0 { world := w, job } := by
    refine ⟨rfl, rfl, hqueued, rfl, rfl, ?_, ?_, stored, hstored, hagrees⟩
    · simp
    · simp
  obtain ⟨k, s, hk, hrun, hdone⟩ := run_ends
    (G := Going w job name) (fun n t a h => loop_step hworker h a) hstart attempts
  refine ⟨k + 1, s, by omega, by omega, hrun, hdone.due, ?_, hdone.returned, hdone.failed,
    hdone.events, hdone.queue, hdone.retries⟩
  intro pre post t _ hpre
  have hinvariant : (∃ n, Going w job name n t) ∨ ∃ n a, Done w job name n a t := by
    refine run_invariant (I := fun t => (∃ n, Going w job name n t) ∨
      ∃ n a, Done w job name n a t) ?_ (Or.inl ⟨0, hstart⟩) hpre
    rintro t a t' (⟨n, hgoes⟩ | ⟨n, a', hends⟩) ht'
    · obtain ⟨t'', ht'', hends | ⟨_, hgoes⟩⟩ := loop_step hworker hgoes a
      · rw [ht''] at ht'
        exact Or.inr ⟨_, _, Option.some.inj ht' ▸ hends⟩
      · rw [ht''] at ht'
        exact Or.inl ⟨_, Option.some.inj ht' ▸ hgoes⟩
    · unfold Loop.step at ht'
      rw [hends.due, if_pos rfl] at ht'
      cases ht'
  rcases hinvariant with ⟨n, hgoes⟩ | ⟨n, a, hends⟩
  · exact ⟨hgoes.raised, hgoes.persisted⟩
  · exact ⟨hends.raised, hends.persisted⟩

/-- A stored job in the queue. -/
def waiting : ProcessingJobModel := to_model noon {
  id := (plain.ids 0).job
  document_id := (plain.ids 0).document
  tenant_id := "acme"
  job_type := .DocumentIngestion }

/-- An attempt that reports progress and then raises. -/
def kaboom (n : Nat) : Attempt where
  moment := plain.moment n
  advances := [(.Parsing, 120)]
  raised := some (.Other "kaboom")
  reloaded := true

/-- With one retry a worker that always raises has the job fail after two
executions at the latest. -/
theorem a_worker_that_always_raises_is_given_up :
    ∃ (k : Nat) (s : Loop), k ≤ 2 ∧
      run (Loop.step (fun _ => some "Worker") 1)
        { world := { db := { jobs := [waiting] } }, job := to_entity waiting }
        ((List.range k).map kaboom) = some s ∧
      s.due = 0 ∧ s.job.status = .Failed ∧ s.job.error_message = some "kaboom" := by
  have hstored : SqlAlchemyProcessingJobRepository.get [waiting] (to_entity waiting).tenant_id
      (to_entity waiting).id = some (to_entity waiting) := by
    decide +kernel
  obtain ⟨k, s, _, hk, hrun, hdue, _, _, hfailed, _⟩ :=
    the_retry_loop_ends_with_an_exact_trace (fun _ => some "Worker") 1
      (w := { db := { jobs := [waiting] } }) hstored agrees_refl rfl rfl kaboom
  exact ⟨k, s, Int.ofNat_le.mp hk, hrun, hdue, hfailed "kaboom" rfl⟩

end cortex_rag.retry_loop
