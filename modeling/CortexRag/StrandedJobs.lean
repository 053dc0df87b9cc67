-- The laws of queued jobs and their messages. A message is out before the
-- transaction behind it commits, so it can be used up too early; a job whose
-- message is still there at the commit is never stranded.
import CortexRag.JobProtocol

open keyed_rows labelled_runs

namespace cortex_rag.stranded_jobs

open job_protocol

/-- Every committed QUEUED job is named by a message that is queued or held
unacknowledged. -/
def NoneStranded (s : Protocol) : Prop :=
  ∀ m ∈ s.jobs, m.status = .Queued → ∃ e ∈ s.queue, e.message = ⟨m.tenant_id, m.id⟩

/-- The message is not acknowledged, and no worker is about to acknowledge it. -/
def Live (s : Protocol) (e : Envelope) : Prop :=
  e ∈ s.queue ∧ ∀ w, s.workers w ≠ some (.Settled e)

/-- The commits of a QUEUED job whose own message is used up by now. -/
def Strands (s : Protocol) : Action → Prop
  | .CommitRequest r _ =>
    match s.creations r with
    | some (.Enqueued _ envelope) => ¬ Live s envelope
    | _ => False
  | .CommitExecution w _ =>
    match s.workers w with
    | some (.Finished _ _ _ _ (some envelope)) => ¬ Live s envelope
    | _ => False
  | _ => False

/-- Every committed QUEUED job has a live message. -/
def Covered (s : Protocol) : Prop :=
  ∀ m ∈ s.jobs, m.status = .Queued → ∃ e, Live s e ∧ e.message = ⟨m.tenant_id, m.id⟩

theorem none_stranded_of_covered {s : Protocol} (h : Covered s) : NoneStranded s := by
  intro m hm hstatus
  obtain ⟨e, hlive, hmessage⟩ := h m hm hstatus
  exact ⟨e, hlive.1, hmessage⟩

theorem live_of {s t : Protocol} {e : Envelope} (h : Live s e)
    (hqueue : e ∈ s.queue → e ∈ t.queue)
    (hworkers : ∀ w, t.workers w = some (.Settled e) → s.workers w = some (.Settled e)) :
    Live t e := ⟨hqueue h.1, fun w hw => h.2 w (hworkers w hw)⟩

/-- A new phase of one worker that is not the wish to acknowledge `e`. -/
theorem live_set_worker {s : Protocol} {e : Envelope} {w : Nat} {handling : Option Handling}
    (h : Live s e) (hne : handling ≠ some (.Settled e)) : Live (s.set_worker w handling) e := by
  refine live_of h id ?_
  intro k hk
  rw [set_worker_workers] at hk
  split at hk
  · exact absurd hk hne
  · exact hk

/-- While the jobs stay as they are, they stay covered if their messages stay
live. -/
theorem covered_of_live {s t : Protocol} (hs : Covered s) (hjobs : t.jobs = s.jobs)
    (hlive : ∀ m ∈ s.jobs, m.status = .Queued → ∀ e, e.message = ⟨m.tenant_id, m.id⟩ →
      Live s e → Live t e) : Covered t := by
  intro m hm hstatus
  rw [hjobs] at hm
  obtain ⟨e, he, hmessage⟩ := hs m hm hstatus
  exact ⟨e, hlive m hm hstatus e hmessage he, hmessage⟩

theorem covered_set_worker {s : Protocol} {w : Nat} {handling : Handling} (hs : Covered s)
    (hne : ∀ e, handling ≠ .Settled e) : Covered (s.set_worker w (some handling)) := by
  refine covered_of_live hs rfl ?_
  intro m hm hstatus e hmessage he
  exact live_set_worker he (fun h => hne e (Option.some.inj h))

theorem covered_step {settings : ProcessingSettings} {s t : Protocol} {a : Action}
    (hn : Named s) (hs : Covered s) (hgood : ¬ Strands s a) (h : Moved settings s a t) :
    Covered t := by
  cases h with
  | refused r order data => exact hs
  | checked r order data hr hcheck => exact hs
  | rolled_back r => exact hs
  | enqueued r id now data job events hr hid hjob =>
    refine covered_of_live hs rfl ?_
    intro m hm hstatus e hmessage he
    exact live_of he (fun hin => List.mem_append_left _ hin) (fun _ hw => hw)
  | created r db_now job envelope hr =>
    intro m hm hstatus
    rcases List.mem_append.mp hm with hm | hm
    · exact hs m hm hstatus
    · -- the row of the request: its own message is live at the commit
      rw [List.mem_singleton] at hm
      subst hm
      simp only [Strands, hr, not_not] at hgood
      exact ⟨envelope, hgood, (hn.creations r job envelope hr).1⟩
  | taken w envelope hw hin => exact covered_set_worker hs (by simp)
  | skipped w envelope hw hget =>
    refine covered_of_live hs rfl ?_
    intro m hm hstatus e hmessage he
    refine live_set_worker he ?_
    -- the read for a message of a QUEUED row finds the row
    intro heq
    simp only [Option.some.injEq, Handling.Settled.injEq] at heq
    subst heq
    rw [hmessage] at hget
    exact hget _ (SqlAlchemyProcessingJobRepository.get_of_mem hn.keyed hm) hstatus
  | loaded w envelope job hw hget hstatus => exact covered_set_worker hs (by simp)
  | started w now envelope job job' since worker_name events hw hstarted =>
    exact covered_set_worker (w := w) hs (by simp)
  | unregistered w now envelope job job' since events hw hrefused =>
    exact covered_set_worker (w := w) hs (by simp)
  | ended w outcome now envelope job job' since events more hw hfinished =>
    exact covered_set_worker (w := w) hs (by simp)
  | requeued w outcome now envelope job job' since events more message hw hfinished =>
    refine covered_of_live hs rfl ?_
    intro m hm hstatus e hmessage he
    have hpublished : Live (s.publish message) e :=
      live_of he (fun hin => List.mem_append_left _ hin) (fun _ hw => hw)
    exact live_set_worker (s := s.publish message) hpublished (by simp)
  | committed w db_now envelope job since events enqueued hw =>
    intro m hm hstatus
    rcases SqlAlchemyProcessingJobRepository.mem_update hm with ⟨hm, hne⟩ | ⟨m0, hm0, hid, rfl⟩
    · -- the row of another job: its message is not the one of this worker
      obtain ⟨e, he, hmessage⟩ := hs m hm hstatus
      refine ⟨e, live_set_worker he ?_, hmessage⟩
      intro heq
      simp only [Option.some.injEq, Handling.Settled.injEq] at heq
      subst heq
      have hcopy := (hn.copies w _ job hw rfl).1
      rw [Handling.envelope, hmessage, WorkerExecutor.message, Message.mk.injEq] at hcopy
      exact hne hcopy.2
    · -- the row of this execution: QUEUED means a retry, with a message of its own
      rw [SqlAlchemyProcessingJobRepository.update_columns_status] at hstatus
      rcases hn.requeues w envelope job since events enqueued hw with ⟨hend, _⟩ |
        ⟨_, n, rfl, hmessage, hne⟩
      · simp [ProcessingJob.is_terminal, TERMINAL_JOB_STATUSES, hstatus] at hend
      · simp only [Strands, hw, not_not] at hgood
        refine ⟨n, live_set_worker hgood ?_, ?_⟩
        · intro heq
          simp only [Option.some.injEq, Handling.Settled.injEq] at heq
          exact hne heq.symm
        · obtain ⟨m1, hm1, hid1, htenant1⟩ := (hn.copies w _ job hw rfl).2
          have hrow : m1 = m0 := eq_of_key _ hn.keyed hm1 hm0 (hid1.trans hid.symm)
          rw [hmessage, WorkerExecutor.message, SqlAlchemyProcessingJobRepository.update_columns_id,
            SqlAlchemyProcessingJobRepository.update_columns_tenant_id, ← hrow, hid1, htenant1]
  | acknowledged w envelope hw =>
    refine covered_of_live hs rfl ?_
    intro m hm hstatus e hmessage he
    have hne : e ≠ envelope := fun heq => he.2 w (heq ▸ hw)
    refine ⟨List.mem_filter.mpr ⟨he.1, by simpa using hne⟩, ?_⟩
    intro k hk
    simp only [set_worker_workers] at hk
    split at hk
    · cases hk
    · exact he.2 k hk
  | given_back _ w handling hw =>
    refine covered_of_live hs rfl ?_
    intro m hm hstatus e hmessage he
    exact live_set_worker he (by simp)

/-- As long as no transaction commits a QUEUED job whose message is used up,
no queued job is stranded, whatever the requests and workers do. -/
theorem no_queued_job_is_stranded (settings : ProcessingSettings) (as : List Action)
    (h : Along (Protocol.step settings) (fun s a => ¬ Strands s a) {} as) :
    Throughout (Protocol.step settings) NoneStranded {} as := by
  have hcovered : Throughout (Protocol.step settings) Covered {} as := by
    refine throughout_of_along (I := Named) (fun s a t hs _ _ => named_keeps s a t hs) ?_ named_init
      (by simp [Covered]) h
    intro s a t hn hs hgood ht
    exact covered_step hn hs hgood (moved_of_step ht)
  intro pre post t he ht
  exact none_stranded_of_covered (hcovered pre post t he ht)

/-! ## One request and one worker -/

def ingestion : CreateProcessingJobInput where
  tenant_id := "acme"
  document_id := ⟨1⟩
  job_type := .DocumentIngestion

/-- The message of the job 2. -/
def first_envelope : Envelope where
  tag := 0
  message := { tenant_id := "acme", job_id := ⟨2⟩ }

/-- A request that commits before any worker reads. -/
def early_commit : List Action :=
  [.Check 0 (fun _ => 0) ingestion, .Enqueue 0 ⟨2⟩ noon, .CommitRequest 0 noon]

theorem an_early_commit_strands_no_job :
    Throughout (Protocol.step {}) NoneStranded {} early_commit := by
  apply no_queued_job_is_stranded
  refine ⟨by simp [Strands], ?_⟩
  intro s1 h1
  obtain rfl := Option.some.inj h1
  refine ⟨by simp [Strands], ?_⟩
  intro s2 h2
  obtain rfl := Option.some.inj h2
  refine ⟨?_, fun _ _ => trivial⟩
  simp [Strands, Live, Protocol.set_creation, Protocol.publish]

/-- A request that commits after a worker has skipped its job. -/
def late_commit : List Action :=
  [.Check 0 (fun _ => 0) ingestion, .Enqueue 0 ⟨2⟩ noon, .Take 0 first_envelope, .Load 0,
    .CommitRequest 0 noon, .Acknowledge 0]

theorem a_late_commit_strands_its_job :
    ¬ Throughout (Protocol.step {}) NoneStranded {} late_commit := by
  intro h
  have hrun : (run (Protocol.step {}) {} late_commit).map (fun s =>
      (s.jobs.map (fun m => m.status), s.queue)) = some ([.Queued], []) := by
    decide +kernel
  obtain ⟨s, hs, heq⟩ := Option.map_eq_some_iff.mp hrun
  rw [Prod.mk.injEq] at heq
  obtain ⟨m, rest, hjobs, hstatus, _⟩ := List.map_eq_cons_iff.mp heq.1
  obtain ⟨e, he, _⟩ := h late_commit [] s (List.append_nil _).symm hs m
    (by rw [hjobs]; exact List.mem_cons_self) hstatus
  rw [heq.2] at he
  cases he

end cortex_rag.stranded_jobs
