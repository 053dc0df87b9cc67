-- The laws of the terminal statuses under redelivery. The check for QUEUED is
-- made on a row that no lock holds, so a worker that has read the row before
-- another one has finished the job may still commit its own copy.
import CortexRag.JobProtocol

open keyed_rows labelled_runs

namespace cortex_rag.terminal_jobs

open job_protocol

/-- After an execution has committed a terminal status, the row stays as it
left it, and a later execution has published no event of that job. -/
structure Finality (s : Protocol) : Prop where
  unchanged : ∀ e ∈ s.executions, e.job.is_terminal = true →
    find ProcessingJobModel.id e.job.id s.jobs = e.row
  silent : s.executions.Pairwise (fun e later => e.job.is_terminal = true →
    ∀ event ∈ later.events, event.job_id ≠ some e.job.id)

/-- The commit of an execution whose job has got a terminal status since the
worker has read its row. -/
def Overtaken (s : Protocol) : Action → Prop
  | .CommitExecution w _ =>
    match s.workers w with
    | some (.Finished _ job since _ _) =>
      ∃ e ∈ s.executions.drop since, e.job.id = job.id ∧ e.job.is_terminal = true
    | _ => False
  | _ => False

/-! ## The events of an execution -/

/-- The events that a worker has published for its copy so far. -/
def events_of : Handling → Option (ProcessingJob × List DomainEvent)
  | .Started _ job _ events => some (job, events)
  | .Finished _ job _ events _ => some (job, events)
  | _ => none

/-- At least one event, and all of them about the job. -/
def About (job : ProcessingJob) (events : List DomainEvent) : Prop :=
  events ≠ [] ∧ ∀ event ∈ events, event.job_id = some job.id

/-- The events are about the job of their execution, and the row of a committed
execution has its status. -/
structure Told (s : Protocol) : Prop where
  workers : ∀ w handling job events, s.workers w = some handling →
    events_of handling = some (job, events) → About job events
  executions : ∀ e ∈ s.executions, About e.job e.events ∧
    ∃ m, e.row = some m ∧ m.status = e.job.status

theorem told_init : Told {} := by
  constructor <;> simp

theorem about_refused {job job' : ProcessingJob} {now : DateTime} {events : List DomainEvent}
    (h : WorkerExecutor.refused job now = .ok (job', events)) : About job' events := by
  obtain ⟨_, _, _, rfl⟩ := WorkerExecutor.refused_ok h
  refine ⟨by simp, ?_⟩
  intro event he
  rw [List.mem_singleton] at he
  rw [he]
  rfl

theorem about_started {worker_name : String} {job job' : ProcessingJob} {now : DateTime}
    {events : List DomainEvent}
    (h : WorkerExecutor.started worker_name job now = .ok (job', events)) : About job' events := by
  obtain ⟨_, _, _, _, rfl⟩ := WorkerExecutor.started_ok h
  refine ⟨by simp, ?_⟩
  intro event he
  rw [List.mem_singleton] at he
  rw [he]
  rfl

theorem about_finished {max_retries : Int} {job job' : ProcessingJob} {outcome : Option String}
    {now : DateTime} {events more : List DomainEvent} {enqueued : Option Message}
    (hevents : About job events)
    (h : WorkerExecutor.finished max_retries job outcome now = .ok (job', more, enqueued)) :
    About job' (events ++ more) := by
  obtain ⟨hid, _, _⟩ := WorkerExecutor.finished_ok h
  refine ⟨by simp [hevents.1], ?_⟩
  intro event he
  rcases List.mem_append.mp he with he | he
  · rw [hid]
    exact hevents.2 event he
  · exact WorkerExecutor.finished_events h event he

theorem told_step {settings : ProcessingSettings} {s t : Protocol} {a : Action} (hn : Named s)
    (hs : Told s) (h : Moved settings s a t) : Told t := by
  constructor
  · intro w handling job events hw hevents
    cases handling_moved h hw with
    | kept _ hsw => exact hs.workers w handling job events hsw hevents
    | taken envelope hin => cases hevents
    | skipped envelope hsw hget ht => cases hevents
    | loaded envelope job hsw hget hstatus ht ht' => cases hevents
    | started envelope job0 _ since worker_name now _ hsw hstarted =>
      cases hevents
      exact about_started hstarted
    | unregistered envelope job0 _ since now _ hsw hrefused =>
      cases hevents
      exact about_refused hrefused
    | ended envelope job0 _ since outcome now events0 more hsw hfinished =>
      cases hevents
      exact about_finished (hs.workers w _ job0 events0 hsw rfl) hfinished
    | requeued envelope job0 _ since outcome now events0 more message hsw hfinished =>
      cases hevents
      exact about_finished (hs.workers w _ job0 events0 hsw rfl) hfinished
    | committed envelope job0 since events0 enqueued db_now hsw ht => cases hevents
  · intro e he
    cases jobs_moved h with
    | kept _ _ ht => exact hs.executions e (ht ▸ he)
    | created r db_now job envelope hr _ _ ht _ _ => exact hs.executions e (ht ▸ he)
    | committed w db_now envelope job since events enqueued hw ht hexec _ _ =>
      rw [hexec] at he
      rcases List.mem_append.mp he with he | he
      · exact hs.executions e he
      · rw [List.mem_singleton] at he
        subst he
        refine ⟨hs.workers w _ job events hw rfl, ?_⟩
        obtain ⟨m, hm, hid, _⟩ := (hn.copies w _ job hw rfl).2
        have hfind : find ProcessingJobModel.id job.id s.jobs = some m :=
          hid ▸ find_of_mem _ hn.keyed hm
        refine ⟨SqlAlchemyProcessingJobRepository.update_columns db_now job m, ?_, by simp⟩
        change find ProcessingJobModel.id job.id t.jobs = _
        rw [ht, SqlAlchemyProcessingJobRepository.update,
          find_modify_self _ (fun m hm => by simp [hm]), hfind]
        rfl

/-! ## The read of a row that is not terminal -/

def Handling.since : Handling → Option (ProcessingJob × Nat)
  | .Loaded _ job since => some (job, since)
  | .Started _ job since _ => some (job, since)
  | .Finished _ job since _ _ => some (job, since)
  | _ => none

/-- When a worker has read its row, the job had no terminal status yet. -/
def ReadOpen (s : Protocol) : Prop :=
  ∀ w handling job since, s.workers w = some handling →
    Handling.since handling = some (job, since) →
    since ≤ s.executions.length ∧
      ∀ e ∈ s.executions.take since, e.job.id = job.id → e.job.is_terminal = false

theorem executions_grow {settings : ProcessingSettings} {s t : Protocol} {a : Action}
    (h : Moved settings s a t) : ∃ more, t.executions = s.executions ++ more := by
  cases jobs_moved h with
  | kept _ _ ht => exact ⟨[], by simp [ht]⟩
  | created r db_now job envelope hr _ _ ht _ _ => exact ⟨[], by simp [ht]⟩
  | committed w db_now envelope job since events enqueued hw _ hexec _ _ => exact ⟨_, hexec⟩

theorem read_open_step {settings : ProcessingSettings} {s t : Protocol} {a : Action}
    (hn : Named s) (htold : Told s) (hfinal : Finality s) (hs : ReadOpen s)
    (h : Moved settings s a t) : ReadOpen t := by
  intro w handling job since hw hsince
  obtain ⟨more, hmore⟩ := executions_grow h
  -- the executions before the read are the same ones after the step
  have hsame : ∀ handling0 job0, s.workers w = some handling0 →
      Handling.since handling0 = some (job0, since) → job.id = job0.id →
      since ≤ t.executions.length ∧
        ∀ e ∈ t.executions.take since, e.job.id = job.id → e.job.is_terminal = false := by
    intro handling0 job0 hw0 hsince0 hid
    obtain ⟨hle, hopen⟩ := hs w handling0 job0 since hw0 hsince0
    rw [hmore, List.length_append, List.take_append_of_le_length hle]
    exact ⟨Nat.le_add_right_of_le hle, fun e he heq => hopen e he (heq.trans hid)⟩
  cases handling_moved h hw with
  | kept _ hsw => exact hsame handling job hsw hsince rfl
  | taken envelope hin => cases hsince
  | skipped envelope hsw hget ht => cases hsince
  | loaded envelope _ hsw hget hstatus ht hexec =>
    cases hsince
    rw [hexec]
    refine ⟨Nat.le_refl _, ?_⟩
    intro e he heq
    rw [List.take_length] at he
    by_contra hterminal
    rw [Bool.not_eq_false] at hterminal
    -- the row would still have the terminal status
    obtain ⟨_, m, hrow, hmstatus⟩ := htold.executions e he
    obtain ⟨m0, hm0, hid0, _, rfl⟩ := SqlAlchemyProcessingJobRepository.get_row hget
    have hfind := hfinal.unchanged e he hterminal
    rw [hrow, heq] at hfind
    have hm : m0 = m :=
      Option.some.inj ((find_of_mem _ hn.keyed hm0).symm.trans hfind)
    have hqueued : e.job.status = .Queued := by
      rw [← hmstatus, ← hm]
      exact hstatus
    simp [ProcessingJob.is_terminal, TERMINAL_JOB_STATUSES, hqueued] at hterminal
  | started envelope job0 _ _ worker_name now events hsw hstarted =>
    cases hsince
    exact hsame _ job0 hsw rfl (WorkerExecutor.started_ok hstarted).2.1
  | unregistered envelope job0 _ _ now events hsw hrefused =>
    cases hsince
    exact hsame _ job0 hsw rfl (WorkerExecutor.refused_ok hrefused).1
  | ended envelope job0 _ _ outcome now events more' hsw hfinished =>
    cases hsince
    exact hsame _ job0 hsw rfl (WorkerExecutor.finished_ok hfinished).1
  | requeued envelope job0 _ _ outcome now events more' message hsw hfinished =>
    cases hsince
    exact hsame _ job0 hsw rfl (WorkerExecutor.finished_ok hfinished).1
  | committed envelope job0 since0 events enqueued db_now hsw ht => cases hsince

/-! ## The laws -/

theorem finality_init : Finality {} := by
  constructor <;> simp

/-- An execution that was not overtaken keeps every terminal status final. -/
theorem finality_step {settings : ProcessingSettings} {s t : Protocol} {a : Action}
    (htold : Told s) (hopen : ReadOpen s) (hs : Finality s) (hgood : ¬ Overtaken s a)
    (h : Moved settings s a t) : Finality t := by
  cases jobs_moved h with
  | kept _ hjobs hexec =>
    refine ⟨?_, hexec ▸ hs.silent⟩
    intro e he hterminal
    rw [hjobs]
    exact hs.unchanged e (hexec ▸ he) hterminal
  | created r db_now job envelope hr _ hjobs hexec _ _ =>
    refine ⟨?_, hexec ▸ hs.silent⟩
    intro e he hterminal
    rw [hexec] at he
    obtain ⟨_, m, hrow, _⟩ := htold.executions e he
    rw [hjobs, find_append, hs.unchanged e he hterminal, hrow, Option.some_or]
  | committed w db_now envelope job since events enqueued hw hjobs hexec _ _ =>
    -- no earlier execution has given the job a terminal status
    have hother : ∀ e ∈ s.executions, e.job.is_terminal = true → e.job.id ≠ job.id := by
      intro e he hterminal heq
      rw [← List.take_append_drop since s.executions] at he
      rcases List.mem_append.mp he with he | he
      · have hfalse := (hopen w _ job since hw rfl).2 e he heq
        rw [hfalse] at hterminal
        cases hterminal
      · refine hgood ?_
        simp only [Overtaken, hw]
        exact ⟨e, he, heq, hterminal⟩
    constructor
    · intro e he hterminal
      rw [hexec] at he
      rcases List.mem_append.mp he with he | he
      · rw [hjobs, SqlAlchemyProcessingJobRepository.update,
          find_modify_ne _ (fun m hm => by simp [hm]) (hother e he hterminal)]
        exact hs.unchanged e he hterminal
      · rw [List.mem_singleton] at he
        rw [he]
    · rw [hexec, List.pairwise_append]
      refine ⟨hs.silent, List.pairwise_singleton _ _, ?_⟩
      intro e he later hlater hterminal event hevent
      rw [List.mem_singleton] at hlater
      subst hlater
      have habout := htold.workers w _ job events hw rfl
      rw [habout.2 event hevent]
      intro heq
      exact hother e he hterminal (Option.some.inj heq).symm

/-- An execution that was overtaken breaks a terminal status. -/
theorem overtaken_breaks {settings : ProcessingSettings} {s : Protocol} {a : Action}
    (htold : Told s) (hbad : Overtaken s a) :
    ∃ t, s.step settings a = some t ∧ ¬ Finality t := by
  cases a with
  | CommitExecution w db_now =>
    simp only [Overtaken] at hbad
    split at hbad
    · rename_i envelope job since events enqueued hw
      obtain ⟨e, he, heq, hterminal⟩ := hbad
      have hstep : s.step settings (.CommitExecution w db_now) =
          s.commit_execution w db_now (.Finished envelope job since events enqueued) := by
        rw [Protocol.step, hw, Option.bind_some]
      refine ⟨_, hstep, ?_⟩
      intro hfinal
      obtain ⟨hnonempty, habout⟩ := htold.workers w _ job events hw rfl
      obtain ⟨event, hevent⟩ := List.exists_mem_of_ne_nil events hnonempty
      have hsilent := (List.pairwise_append.mp hfinal.silent).2.2 e (List.mem_of_mem_drop he) _
        List.mem_cons_self hterminal event hevent
      exact hsilent (by rw [habout event hevent, heq])
    · exact absurd hbad id
  | _ => exact absurd hbad (by simp [Overtaken])

/-- A terminal status is final in a run exactly when no execution in it commits
after another one has finished its job since its read. -/
theorem a_terminal_status_is_final_unless_overtaken (settings : ProcessingSettings)
    (as : List Action) :
    Throughout (Protocol.step settings) Finality {} as ↔
      Along (Protocol.step settings) (fun s a => ¬ Overtaken s a) {} as := by
  refine throughout_iff_along (I := fun s => Named s ∧ Told s ∧ ReadOpen s) ?_ ?_ ?_
    ⟨named_init, told_init, by simp [ReadOpen]⟩ finality_init as
  · rintro s a t ⟨hn, htold, hopen⟩ hfinal _ ht
    have h := moved_of_step ht
    exact ⟨named_step hn h, told_step hn htold h, read_open_step hn htold hfinal hopen h⟩
  · rintro s a t ⟨_, htold, hopen⟩ hfinal hgood ht
    exact finality_step htold hopen hfinal hgood (moved_of_step ht)
  · rintro s a ⟨_, htold, _⟩ _ hbad
    exact overtaken_breaks htold (not_not.mp hbad)

/-- The message of job 2 is delivered to two workers. The first one completes
the job, and the second one fails and puts it back into the queue. -/
def redelivery : List Action :=
  let envelope : Envelope := { tag := 0, message := { tenant_id := "acme", job_id := ⟨2⟩ } }
  [.Check 0 (fun _ => 0) {
      tenant_id := "acme", document_id := ⟨1⟩, job_type := .DocumentIngestion },
    .Enqueue 0 ⟨2⟩ noon, .CommitRequest 0 noon,
    .Take 1 envelope, .Load 1, .Take 2 envelope, .Load 2,
    .Start 1 noon, .Finish 1 none noon, .CommitExecution 1 noon, .Acknowledge 1,
    .Start 2 noon, .Finish 2 (some "connection lost") noon, .CommitExecution 2 noon]

theorem a_redelivery_reopens_a_completed_job :
    ¬ Throughout (Protocol.step {}) Finality {} redelivery := by
  intro h
  have hrun : (run (Protocol.step {}) {} redelivery).map (fun s =>
      (s.executions.map (fun e => (e.job.id, e.job.status, e.row.map (fun m => m.status))),
        (find ProcessingJobModel.id ⟨2⟩ s.jobs).map (fun m => m.status))) =
      some ([(⟨2⟩, .Completed, some .Completed), (⟨2⟩, .Queued, some .Queued)],
        some .Queued) := by
    decide +kernel
  obtain ⟨s, hs, heq⟩ := Option.map_eq_some_iff.mp hrun
  rw [Prod.mk.injEq] at heq
  obtain ⟨e, rest, hexec, he, _⟩ := List.map_eq_cons_iff.mp heq.1
  simp only [Prod.mk.injEq] at he
  have hfinal := (h redelivery [] s (List.append_nil _).symm hs).unchanged e
    (by rw [hexec]; exact List.mem_cons_self)
    (by simp [ProcessingJob.is_terminal, TERMINAL_JOB_STATUSES, he.2.1])
  rw [he.1] at hfinal
  rw [hfinal, he.2.2] at heq
  exact absurd heq.2 (by decide)

end cortex_rag.terminal_jobs
