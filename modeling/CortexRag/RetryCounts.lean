-- The law of the retry count. The count is raised in the copy of a worker and
-- written back whole, and the message that lets another worker read the row
-- is out before that write commits.
import CortexRag.ActiveJobs
import CortexRag.TerminalJobs

open keyed_rows labelled_runs

namespace cortex_rag.retry_counts

open job_protocol SqlAlchemyProcessingJobRepository
open active_jobs (Filed filed_init filed_step creation_made)
open terminal_jobs (Handling.since executions_grow)

/-- The executions of the job that ended in a re-queue. -/
def requeues (id : UUID) (executions : List Execution) : Nat :=
  executions.countP (fun e => e.job.id = id ∧ e.job.status = .Queued)

/-- The executions of the job that ended in a failure, retried or not. -/
def failures (id : UUID) (executions : List Execution) : Nat :=
  executions.countP (fun e => e.job.id = id ∧ (e.job.status = .Queued ∨ e.job.status = .Failed))

/-- A job has counted its re-queues, the count never goes down from one commit
to the next, and at most `max_retries + 1` of its executions have failed. -/
structure Counted (settings : ProcessingSettings) (s : Protocol) : Prop where
  exact_count : ∀ m ∈ s.jobs, m.retry_count = requeues m.id s.executions
  never_less : s.executions.Pairwise (fun e later => e.job.id = later.job.id →
    ∀ m ∈ e.row, ∀ m' ∈ later.row, m.retry_count ≤ m'.retry_count)
  bounded : ∀ m ∈ s.jobs, (failures m.id s.executions : Int) ≤ settings.max_retries + 1

/-- The commit of an execution whose job has been re-queued by another one since
the worker has read its row. Or the commit of a failure, when another execution
has failed the job for good since that read, and `max_retries + 1` executions
have failed by now. -/
def Outdated (settings : ProcessingSettings) (s : Protocol) : Action → Prop
  | .CommitExecution w _ =>
    match s.workers w with
    | some (.Finished _ job since _ _) =>
      (∃ e ∈ s.executions.drop since, e.job.id = job.id ∧ e.job.status = .Queued) ∨
        (job.status ≠ .Completed ∧
          (∃ e ∈ s.executions.drop since, e.job.id = job.id ∧ e.job.status = .Failed) ∧
          settings.max_retries + 1 ≤ failures job.id s.executions)
    | _ => False
  | _ => False

instance decidable_outdated (settings : ProcessingSettings) (s : Protocol) :
    ∀ a, Decidable (Outdated settings s a)
  | .CommitExecution w db_now =>
    match h : s.workers w with
    | some (.Finished envelope job since events enqueued) =>
      decidable_of_iff ((∃ e ∈ s.executions.drop since, e.job.id = job.id ∧
          e.job.status = .Queued) ∨ (job.status ≠ .Completed ∧
          (∃ e ∈ s.executions.drop since, e.job.id = job.id ∧ e.job.status = .Failed) ∧
          settings.max_retries + 1 ≤ failures job.id s.executions))
        (by simp only [Outdated, h])
    | none => .isFalse (by simp [Outdated, h])
    | some (.Taken _) => .isFalse (by simp [Outdated, h])
    | some (.Loaded _ _ _) => .isFalse (by simp [Outdated, h])
    | some (.Started _ _ _ _) => .isFalse (by simp [Outdated, h])
    | some (.Settled _) => .isFalse (by simp [Outdated, h])
  | .Check _ _ _ | .Enqueue _ _ _ | .CommitRequest _ _ | .Rollback _ | .Take _ _ | .Load _
  | .Start _ _ | .Finish _ _ _ | .Acknowledge _ | .GiveBack _ => .isFalse (by simp [Outdated])

/-! ## Counting -/

theorem requeues_snoc (id : UUID) (executions : List Execution) (e : Execution) :
    requeues id (executions ++ [e]) =
      requeues id executions + if e.job.id = id ∧ e.job.status = .Queued then 1 else 0 := by
  simp [requeues, List.countP_append, List.countP_singleton]

theorem failures_snoc (id : UUID) (executions : List Execution) (e : Execution) :
    failures id (executions ++ [e]) = failures id executions +
      if e.job.id = id ∧ (e.job.status = .Queued ∨ e.job.status = .Failed) then 1 else 0 := by
  simp [failures, List.countP_append, List.countP_singleton]

theorem requeues_split (id : UUID) (executions : List Execution) (n : Nat) :
    requeues id executions =
      requeues id (executions.take n) + requeues id (executions.drop n) := by
  unfold requeues
  rw [← List.countP_append, List.take_append_drop]

theorem requeues_eq_zero {id : UUID} {executions : List Execution} :
    requeues id executions = 0 ↔
      ∀ e ∈ executions, e.job.id = id → e.job.status ≠ .Queued := by
  simp [requeues, List.countP_eq_zero]

/-- With no execution that has failed for good, every failure is a re-queue. -/
theorem failures_eq_requeues {id : UUID} {executions : List Execution}
    (h : ∀ e ∈ executions, e.job.id = id → e.job.status ≠ .Failed) :
    failures id executions = requeues id executions := by
  unfold failures requeues
  apply List.countP_congr
  intro e he
  have hnot := h e he
  simp only [decide_eq_true_eq]
  constructor
  · rintro ⟨hid, hstatus | hstatus⟩
    · exact ⟨hid, hstatus⟩
    · exact absurd hstatus (hnot hid)
  · rintro ⟨hid, hstatus⟩
    exact ⟨hid, Or.inl hstatus⟩

theorem failures_eq_zero {id : UUID} {executions : List Execution}
    (h : ∀ e ∈ executions, e.job.id ≠ id) : failures id executions = 0 := by
  simp only [failures, List.countP_eq_zero, decide_eq_true_eq]
  rintro e he ⟨hid, _⟩
  exact h e he hid

/-! ## The copies -/

/-- What a copy counts, when its row had counted `n` at the read. -/
def CopyCounts (settings : ProcessingSettings) (n : Nat) : Handling → Prop
  | .Loaded _ job _ => job.status = .Queued ∧ job.retry_count = n
  | .Started _ job _ _ => job.retry_count = n ∧ build_worker_registry job.job_type ≠ none
  | .Finished _ job _ _ _ =>
    (job.status = .Completed ∧ job.retry_count = n) ∨
      (job.status = .Failed ∧ job.retry_count = n ∧
        (build_worker_registry job.job_type ≠ none → settings.max_retries ≤ n)) ∨
      (job.status = .Queued ∧ job.retry_count = n + 1 ∧
        build_worker_registry job.job_type ≠ none ∧ (n : Int) < settings.max_retries)
  | _ => True

/-- What the executions before the read of a copy have left to it. -/
structure ReadCounts (settings : ProcessingSettings) (executions : List Execution)
    (handling : Handling) (job : ProcessingJob) (since : Nat) : Prop where
  read : since ≤ executions.length
  open_row : ∀ e ∈ executions.take since, e.job.id = job.id → e.job.status ≠ .Failed
  counts : CopyCounts settings (requeues job.id (executions.take since)) handling

/-- The rows, the executions and the copies, while every commit counts. -/
structure Tracked (settings : ProcessingSettings) (s : Protocol) : Prop where
  creations : ∀ r job envelope, s.creations r = some (.Enqueued job envelope) →
    job.retry_count = 0
  copies : ∀ w handling job since, s.workers w = some handling →
    Handling.since handling = some (job, since) →
    ReadCounts settings s.executions handling job since
  executed : ∀ e ∈ s.executions, ∃ m ∈ s.jobs, m.id = e.job.id
  recorded : ∀ e ∈ s.executions, ∀ m ∈ e.row, m.retry_count ≤ requeues e.job.id s.executions
  queued : ∀ m ∈ s.jobs, m.status = .Queued →
    ∀ e ∈ s.executions, e.job.id = m.id → e.job.status ≠ .Failed
  exhausted : ∀ m ∈ s.jobs, build_worker_registry m.job_type ≠ none →
    ∀ e ∈ s.executions, e.job.id = m.id → e.job.status = .Failed →
    settings.max_retries ≤ requeues m.id s.executions
  retried : ∀ id, (requeues id s.executions : Int) ≤ settings.max_retries

theorem tracked_init {settings : ProcessingSettings} (hmax : 0 ≤ settings.max_retries) :
    Tracked settings {} := by
  constructor <;> simp [requeues, hmax]

/-- A read keeps what it has found while the history grows. -/
theorem read_counts_grow {settings : ProcessingSettings} {executions more : List Execution}
    {handling handling' : Handling} {job job' : ProcessingJob} {since : Nat}
    (h : ReadCounts settings executions handling job since) (hid : job'.id = job.id)
    (hcounts : ∀ n, CopyCounts settings n handling → CopyCounts settings n handling') :
    ReadCounts settings (executions ++ more) handling' job' since := by
  obtain ⟨hread, hopen, hcount⟩ := h
  refine ⟨?_, ?_, ?_⟩
  · rw [List.length_append]
    omega
  · rw [List.take_append_of_le_length hread, hid]
    exact hopen
  · rw [List.take_append_of_le_length hread, hid]
    exact hcounts _ hcount

/-- The end of a run counts one more exactly when it puts the job back. -/
theorem finished_counts {settings : ProcessingSettings} {job job' : ProcessingJob}
    {outcome : Option String} {now : DateTime} {events events' more : List DomainEvent}
    {enqueued : Option Message} {envelope : Envelope} {since n : Nat} {next : Option Envelope}
    (h : WorkerExecutor.finished settings.max_retries job outcome now = .ok (job', more, enqueued))
    (hn : CopyCounts settings n (.Started envelope job since events)) :
    CopyCounts settings n (.Finished envelope job' since events' next) := by
  obtain ⟨rfl, hregistered⟩ := hn
  obtain ⟨horigin, hcases⟩ := WorkerExecutor.finished_cases h
  have htype : job'.job_type = job.job_type := congrArg (fun o => o.2.2.2.1) horigin
  rcases hcases with ⟨hstatus, hcount, _⟩ | ⟨hstatus, hcount, _, hmax⟩ | ⟨hstatus, hcount, _, hmax⟩
  · exact Or.inl ⟨hstatus, hcount⟩
  · exact Or.inr (Or.inl ⟨hstatus, hcount, fun _ => hmax⟩)
  · exact Or.inr (Or.inr ⟨hstatus, hcount, htype ▸ hregistered, hmax⟩)

/-- The next phase of a copy counts what the phase before it has counted, or
one more after a re-queue. -/
theorem copies_step {settings : ProcessingSettings} {s t : Protocol} {a : Action}
    (hs : Tracked settings s) (hcounted : Counted settings s) (h : Moved settings s a t) {w : Nat}
    {handling : Handling} {job : ProcessingJob} {since : Nat} (hw : t.workers w = some handling)
    (hsince : Handling.since handling = some (job, since)) :
    ReadCounts settings t.executions handling job since := by
  obtain ⟨more, hmore⟩ := executions_grow h
  have hnext : ∀ handling0 job0, s.workers w = some handling0 →
      Handling.since handling0 = some (job0, since) → job.origin = job0.origin →
      (∀ n, CopyCounts settings n handling0 → CopyCounts settings n handling) →
      ReadCounts settings t.executions handling job since := by
    intro handling0 job0 hw0 hsince0 horigin hcounts
    rw [hmore]
    exact read_counts_grow (hs.copies w handling0 job0 since hw0 hsince0)
      (congrArg Prod.fst horigin) hcounts
  cases handling_moved h hw with
  | kept _ hsw => exact hnext handling job hsw hsince rfl (fun _ h => h)
  | taken envelope hin => cases hsince
  | skipped envelope hsw hget ht => cases hsince
  | loaded envelope _ hsw hget hstatus ht hexec =>
    cases hsince
    obtain ⟨m, hm, hid, _, rfl⟩ := get_row hget
    rw [hexec]
    refine ⟨Nat.le_refl _, ?_, ?_⟩
    · rw [List.take_length]
      exact hs.queued m hm hstatus
    · rw [List.take_length]
      exact ⟨hstatus, hcounted.exact_count m hm⟩
  | started envelope job0 _ _ worker_name now events hsw hstarted hsome =>
    cases hsince
    obtain ⟨horigin, hcount⟩ := WorkerExecutor.started_origin hstarted
    apply hnext _ job0 hsw rfl horigin
    rintro n ⟨_, hn⟩
    have htype : job.job_type = job0.job_type := congrArg (fun o => o.2.2.2.1) horigin
    refine ⟨hcount.trans hn, ?_⟩
    rw [htype, hsome]
    simp
  | unregistered envelope job0 _ _ now events hsw hrefused hnone =>
    cases hsince
    obtain ⟨horigin, hcount⟩ := WorkerExecutor.refused_origin hrefused
    apply hnext _ job0 hsw rfl horigin
    rintro n ⟨_, hn⟩
    have htype : job.job_type = job0.job_type := congrArg (fun o => o.2.2.2.1) horigin
    refine Or.inr (Or.inl ⟨(WorkerExecutor.refused_ok hrefused).2.2.1, hcount.trans hn, ?_⟩)
    intro hregistered
    exact absurd (htype ▸ hnone) hregistered
  | ended envelope job0 _ _ outcome now events more' hsw hfinished =>
    cases hsince
    apply hnext _ job0 hsw rfl (WorkerExecutor.finished_cases hfinished).1
    exact fun n => finished_counts hfinished
  | requeued envelope job0 _ _ outcome now events more' message hsw hfinished =>
    cases hsince
    apply hnext _ job0 hsw rfl (WorkerExecutor.finished_cases hfinished).1
    exact fun n => finished_counts hfinished
  | committed envelope job0 since0 events enqueued db_now hsw ht => cases hsince

/-! ## The commit of an execution -/

/-- What a commit in time writes: `n` is what the job had counted before. -/
structure InTime (settings : ProcessingSettings) (s : Protocol) (job : ProcessingJob) : Prop where
  settled : job.status = .Queued ∨ job.status = .Failed ∨ job.status = .Completed
  count : job.retry_count =
    requeues job.id s.executions + if job.status = .Queued then 1 else 0
  left : job.status = .Queued → (requeues job.id s.executions : Int) < settings.max_retries ∧
    build_worker_registry job.job_type ≠ none
  used : job.status = .Failed → build_worker_registry job.job_type ≠ none →
    settings.max_retries ≤ requeues job.id s.executions
  failed : job.status ≠ .Completed →
    (failures job.id s.executions : Int) ≤ settings.max_retries

theorem in_time {settings : ProcessingSettings} {s : Protocol} (hs : Tracked settings s) {w : Nat}
    {db_now : DateTime} {envelope : Envelope} {job : ProcessingJob} {since : Nat}
    {events : List DomainEvent} {enqueued : Option Envelope}
    (hw : s.workers w = some (.Finished envelope job since events enqueued))
    (hgood : ¬ Outdated settings s (.CommitExecution w db_now)) : InTime settings s job := by
  obtain ⟨_, hopen, hcounts⟩ := hs.copies w _ job since hw rfl
  simp only [Outdated, hw, not_or, not_and, not_exists] at hgood
  obtain ⟨hnone, hfailed⟩ := hgood
  -- nobody has put the job back since the read
  have hsame : requeues job.id (s.executions.take since) = requeues job.id s.executions := by
    have hzero : requeues job.id (s.executions.drop since) = 0 :=
      requeues_eq_zero.mpr (fun e he hid hstatus => hnone e he hid hstatus)
    have := requeues_split job.id s.executions since
    omega
  have hbound : job.status ≠ .Completed →
      (failures job.id s.executions : Int) ≤ settings.max_retries := by
    intro hne
    by_cases hsince : ∃ e ∈ s.executions.drop since, e.job.id = job.id ∧ e.job.status = .Failed
    · obtain ⟨e, he, hid, hstatus⟩ := hsince
      have := hfailed hne ⟨e, he, hid, hstatus⟩
      omega
    · -- no execution at all has failed the job for good
      rw [failures_eq_requeues]
      · exact hs.retried job.id
      · intro e he hid hstatus
        rw [← List.take_append_drop since s.executions] at he
        rcases List.mem_append.mp he with he | he
        · exact hopen e he hid hstatus
        · exact hsince ⟨e, he, hid, hstatus⟩
  rw [hsame] at hcounts
  rcases hcounts with ⟨hstatus, hcount⟩ | ⟨hstatus, hcount, hmax⟩ |
    ⟨hstatus, hcount, hregistered, hmax⟩
  · exact ⟨by simp [hstatus], by simp [hstatus, hcount], by simp [hstatus], by simp [hstatus],
      hbound⟩
  · exact ⟨by simp [hstatus], by simp [hstatus, hcount], by simp [hstatus], fun _ => hmax, hbound⟩
  · exact ⟨by simp [hstatus], by simp [hstatus, hcount], fun _ => ⟨hmax, hregistered⟩,
      by simp [hstatus], hbound⟩

/-- The job of a request has no execution yet. -/
theorem no_execution_of_new {settings : ProcessingSettings} {s : Protocol} (hn : Named s)
    (hs : Tracked settings s) {r : Nat} {job : ProcessingJob} {envelope : Envelope}
    (hr : s.creations r = some (.Enqueued job envelope)) :
    ∀ e ∈ s.executions, e.job.id ≠ job.id := by
  intro e he heq
  obtain ⟨m, hm, hid⟩ := hs.executed e he
  exact (hn.creations r job envelope hr).2.2 m hm (hid.trans heq)

/-- The row of an execution has the count of its copy. -/
theorem written_count {jobs : List ProcessingJobModel} {db_now : DateTime} {job : ProcessingJob}
    {m : ProcessingJobModel}
    (hm : m ∈ find ProcessingJobModel.id job.id (update jobs db_now job)) :
    m.retry_count = job.retry_count := by
  obtain ⟨hm, hid⟩ := find_some _ hm
  rcases mem_update hm with ⟨_, hne⟩ | ⟨m0, _, _, rfl⟩
  · exact absurd hid hne
  · rw [update_columns_retry_count]

section Commit

variable {settings : ProcessingSettings} {s : Protocol} {db_now : DateTime} {job : ProcessingJob}
  {m0 : ProcessingJobModel} {events : List DomainEvent} {row : Option ProcessingJobModel}

/-- A job with a failed execution has no retry left, so nothing puts it back. -/
theorem no_failure_of_requeue (hs : Tracked settings s) (hin : InTime settings s job)
    (hm0 : m0 ∈ s.jobs) (hid0 : m0.id = job.id) (htype : m0.job_type = job.job_type)
    (hstatus : job.status = .Queued) :
    ∀ e ∈ s.executions, e.job.id = job.id → e.job.status ≠ .Failed := by
  intro e he hid hfailed
  obtain ⟨hleft, hregistered⟩ := hin.left hstatus
  have hused := hs.exhausted m0 hm0 (htype ▸ hregistered) e he (hid.trans hid0.symm) hfailed
  rw [hid0] at hused
  omega

theorem executed_commit (hs : Tracked settings s) (hm0 : m0 ∈ s.jobs) (hid0 : m0.id = job.id) :
    ∀ e ∈ s.executions ++ [⟨job, events, row⟩],
      ∃ m ∈ update s.jobs db_now job, m.id = e.job.id := by
  have hids : (update s.jobs db_now job).map ProcessingJobModel.id =
      s.jobs.map ProcessingJobModel.id :=
    map_key_modify _ (fun m hm => by simp [hm]) _
  have hrow : ∀ k, (∃ m ∈ s.jobs, m.id = k) → ∃ m ∈ update s.jobs db_now job, m.id = k := by
    intro k hk
    rw [← List.mem_map] at hk ⊢
    exact hids ▸ hk
  apply forall_append
  · exact fun e he => hrow _ (hs.executed e he)
  · exact hrow _ ⟨m0, hm0, hid0⟩

theorem requeues_grow (id : UUID) :
    requeues id s.executions ≤ requeues id (s.executions ++ [⟨job, events, row⟩]) := by
  rw [requeues_snoc]
  omega

theorem recorded_commit (hs : Tracked settings s) (hin : InTime settings s job)
    (hrow : row = find ProcessingJobModel.id job.id (update s.jobs db_now job)) :
    ∀ e ∈ s.executions ++ [⟨job, events, row⟩], ∀ m ∈ e.row,
      m.retry_count ≤ requeues e.job.id (s.executions ++ [⟨job, events, row⟩]) := by
  apply forall_append
  · intro e he m hm
    exact Nat.le_trans (hs.recorded e he m hm) (requeues_grow _)
  · intro m hm
    change m ∈ row at hm
    rw [hrow] at hm
    rw [requeues_snoc, written_count hm, hin.count]
    simp

theorem queued_commit (hs : Tracked settings s) (hin : InTime settings s job)
    (hm0 : m0 ∈ s.jobs) (hid0 : m0.id = job.id) (htype : m0.job_type = job.job_type) :
    ∀ m ∈ update s.jobs db_now job, m.status = .Queued →
      ∀ e ∈ s.executions ++ [⟨job, events, row⟩], e.job.id = m.id → e.job.status ≠ .Failed := by
  intro m hm hstatus
  rcases mem_update hm with ⟨hm, hne⟩ | ⟨m1, hm1, hid1, rfl⟩
  · apply forall_append
    · exact hs.queued m hm hstatus
    · exact fun hid => (hne hid.symm).elim
  · rw [update_columns_status] at hstatus
    rw [update_columns_id, hid1]
    apply forall_append
    · exact no_failure_of_requeue hs hin hm0 hid0 htype hstatus
    · simp [hstatus]

theorem exhausted_commit (hs : Tracked settings s) (hin : InTime settings s job)
    (hkeyed : Keyed ProcessingJobModel.id s.jobs)
    (hm0 : m0 ∈ s.jobs) (hid0 : m0.id = job.id) (htype : m0.job_type = job.job_type) :
    ∀ m ∈ update s.jobs db_now job, build_worker_registry m.job_type ≠ none →
      ∀ e ∈ s.executions ++ [⟨job, events, row⟩], e.job.id = m.id → e.job.status = .Failed →
      settings.max_retries ≤ requeues m.id (s.executions ++ [⟨job, events, row⟩]) := by
  intro m hm hregistered
  have hgrows : ∀ id, requeues id s.executions ≤
      requeues id (s.executions ++ [⟨job, events, row⟩]) := requeues_grow
  rcases mem_update hm with ⟨hm, hne⟩ | ⟨m1, hm1, hid1, rfl⟩
  · apply forall_append
    · intro e he hid hfailed
      have hold := hs.exhausted m hm hregistered e he hid hfailed
      have := hgrows m.id
      omega
    · exact fun hid => (hne hid.symm).elim
  · obtain rfl := eq_of_key _ hkeyed hm1 hm0 (hid1.trans hid0.symm)
    have hkept : (update_columns db_now job m1).job_type = m1.job_type :=
      congrArg (fun o => o.2.2.2.1) (update_columns_origin db_now job m1)
    rw [hkept] at hregistered
    have := hgrows job.id
    rw [update_columns_id, hid1]
    apply forall_append
    · intro e he hid hfailed
      have hold := hs.exhausted m1 hm1 hregistered e he (hid.trans hid1.symm) hfailed
      rw [hid1] at hold
      omega
    · intro _ hfailed
      have hused := hin.used hfailed (htype ▸ hregistered)
      omega

theorem retried_commit (hs : Tracked settings s) (hin : InTime settings s job) (id : UUID) :
    (requeues id (s.executions ++ [⟨job, events, row⟩]) : Int) ≤ settings.max_retries := by
  have hold := hs.retried id
  rw [requeues_snoc]
  split
  · rename_i hand
    have hleft := (hin.left hand.2).1
    rw [← hand.1]
    push_cast
    omega
  · exact hold

theorem exact_count_commit (hcounted : Counted settings s) (hin : InTime settings s job) :
    ∀ m ∈ update s.jobs db_now job,
      m.retry_count = requeues m.id (s.executions ++ [⟨job, events, row⟩]) := by
  intro m hm
  rw [requeues_snoc]
  rcases mem_update hm with ⟨hm, hne⟩ | ⟨m1, hm1, hid, rfl⟩
  · rw [if_neg (fun hand => hne hand.1.symm)]
    exact hcounted.exact_count m hm
  · rw [update_columns_retry_count, update_columns_id, hid, hin.count]
    simp

theorem never_less_commit (hs : Tracked settings s) (hcounted : Counted settings s)
    (hin : InTime settings s job)
    (hrow : row = find ProcessingJobModel.id job.id (update s.jobs db_now job)) :
    List.Pairwise (fun e later : Execution => e.job.id = later.job.id →
      ∀ m ∈ e.row, ∀ m' ∈ later.row, m.retry_count ≤ m'.retry_count)
      (s.executions ++ [⟨job, events, row⟩]) := by
  rw [List.pairwise_append]
  refine ⟨hcounted.never_less, List.pairwise_singleton _ _, ?_⟩
  intro e he later hlater heq m hm m' hm'
  rw [List.mem_singleton] at hlater
  subst hlater
  change m' ∈ row at hm'
  rw [hrow] at hm'
  have hwritten : m'.retry_count = job.retry_count := written_count hm'
  have hbefore : m.retry_count ≤ requeues job.id s.executions :=
    heq ▸ hs.recorded e he m hm
  have hcount := hin.count
  omega

theorem bounded_commit (hcounted : Counted settings s) (hin : InTime settings s job) :
    ∀ m ∈ update s.jobs db_now job,
      (failures m.id (s.executions ++ [⟨job, events, row⟩]) : Int) ≤ settings.max_retries + 1 := by
  intro m hm
  rw [failures_snoc]
  rcases mem_update hm with ⟨hm, hne⟩ | ⟨m1, hm1, hid, rfl⟩
  · rw [if_neg (fun hand => hne hand.1.symm)]
    exact hcounted.bounded m hm
  · rw [update_columns_id, hid]
    by_cases hstatus : job.status = .Completed
    · have hbefore := hcounted.bounded m1 hm1
      simp only [hstatus, reduceCtorEq, or_self, and_false, if_false, Nat.add_zero]
      rw [← hid]
      exact hbefore
    · have hbefore := hin.failed hstatus
      split <;> omega

end Commit

theorem counted_step {settings : ProcessingSettings} {s t : Protocol} {a : Action}
    (hn : Named s) (hs : Tracked settings s) (hcounted : Counted settings s)
    (hmax : 0 ≤ settings.max_retries)
    (hgood : ¬ Outdated settings s a) (h : Moved settings s a t) : Counted settings t := by
  cases jobs_moved h with
  | kept _ hjobs hexec =>
    refine ⟨?_, ?_, ?_⟩
    · rw [hjobs, hexec]
      exact hcounted.exact_count
    · rw [hexec]
      exact hcounted.never_less
    · rw [hjobs, hexec]
      exact hcounted.bounded
  | created r db_now job envelope hr _ hjobs hexec _ _ =>
    have hnew := no_execution_of_new hn hs hr
    rw [← hexec] at hnew
    refine ⟨?_, ?_, ?_⟩
    · rw [hjobs]
      apply forall_append
      · rw [hexec]
        exact hcounted.exact_count
      · change job.retry_count = requeues job.id t.executions
        rw [hs.creations r job envelope hr,
          requeues_eq_zero.mpr (fun e he hid => (hnew e he hid).elim)]
    · rw [hexec]
      exact hcounted.never_less
    · rw [hjobs]
      apply forall_append
      · rw [hexec]
        exact hcounted.bounded
      · change (failures job.id t.executions : Int) ≤ settings.max_retries + 1
        rw [failures_eq_zero hnew]
        omega
  | committed w db_now envelope job since events enqueued hw hjobs hexec _ _ =>
    have hin := in_time hs hw hgood
    refine ⟨?_, ?_, ?_⟩ <;> rw [hexec]
    · rw [hjobs]
      exact exact_count_commit hcounted hin
    · exact never_less_commit hs hcounted hin (by rw [hjobs])
    · rw [hjobs]
      exact bounded_commit hcounted hin

theorem tracked_step {settings : ProcessingSettings} {s t : Protocol} {a : Action}
    (hn : Named s) (hfiled : Filed s) (hs : Tracked settings s) (hcounted : Counted settings s)
    (hgood : ¬ Outdated settings s a) (h : Moved settings s a t) : Tracked settings t := by
  have hcreations : ∀ r job envelope, t.creations r = some (.Enqueued job envelope) →
      job.retry_count = 0 := by
    intro r job envelope hr
    rcases creation_made h hr with hr | ⟨data, id, now, rfl⟩
    · exact hs.creations r job envelope hr
    · rfl
  have hcopies : ∀ w handling job since, t.workers w = some handling →
      Handling.since handling = some (job, since) →
      ReadCounts settings t.executions handling job since :=
    fun _ _ _ _ hw hsince => copies_step hs hcounted h hw hsince
  cases jobs_moved h with
  | kept _ hjobs hexec =>
    refine ⟨hcreations, hcopies, ?_, ?_, ?_, ?_, ?_⟩
    · rw [hjobs, hexec]
      exact hs.executed
    · rw [hexec]
      exact hs.recorded
    · rw [hjobs, hexec]
      exact hs.queued
    · rw [hjobs, hexec]
      exact hs.exhausted
    · rw [hexec]
      exact hs.retried
  | created r db_now job envelope hr _ hjobs hexec _ _ =>
    have hnew := no_execution_of_new hn hs hr
    refine ⟨hcreations, hcopies, ?_, ?_, ?_, ?_, ?_⟩
    · intro e he
      rw [hexec] at he
      obtain ⟨m, hm, hid⟩ := hs.executed e he
      exact ⟨m, by rw [hjobs]; exact List.mem_append_left _ hm, hid⟩
    · rw [hexec]
      exact hs.recorded
    · rw [hjobs, hexec]
      apply forall_append
      · exact hs.queued
      · intro _ e he hid
        exact (hnew e he hid).elim
    · rw [hjobs, hexec]
      apply forall_append
      · exact hs.exhausted
      · intro _ e he hid
        exact (hnew e he hid).elim
    · rw [hexec]
      exact hs.retried
  | committed w db_now envelope job since events enqueued hw hjobs hexec _ _ =>
    have hin := in_time hs hw hgood
    obtain ⟨m0, hm0, horigin0⟩ := hfiled.copies w _ job hw rfl
    have hid0 : m0.id = job.id := congrArg Prod.fst horigin0
    have htype : m0.job_type = job.job_type := congrArg (fun o => o.2.2.2.1) horigin0
    refine ⟨hcreations, hcopies, ?_, ?_, ?_, ?_, ?_⟩ <;> rw [hexec, hjobs]
    · exact executed_commit hs hm0 hid0
    · exact recorded_commit hs hin rfl
    · exact queued_commit hs hin hm0 hid0 htype
    · exact exhausted_commit hs hin hn.keyed hm0 hid0 htype
    · exact retried_commit hs hin

/-! ## The law -/

/-- An outdated commit loses a re-queue, or is one failure too many. -/
theorem outdated_breaks {settings : ProcessingSettings} {s : Protocol} {a : Action}
    (hfiled : Filed s) (hs : Tracked settings s) (hbad : Outdated settings s a) :
    ∃ t, s.step settings a = some t ∧ ¬ Counted settings t := by
  cases a with
  | CommitExecution w db_now =>
    simp only [Outdated] at hbad
    split at hbad
    · rename_i envelope job since events enqueued hw
      have hstep : s.step settings (.CommitExecution w db_now) =
          s.commit_execution w db_now (.Finished envelope job since events enqueued) := by
        rw [Protocol.step, hw, Option.bind_some]
      refine ⟨_, hstep, ?_⟩
      intro hcounted
      obtain ⟨m0, hm0, horigin0⟩ := hfiled.copies w _ job hw rfl
      have hid0 : m0.id = job.id := congrArg Prod.fst horigin0
      have hin : update_columns db_now job m0 ∈ update s.jobs db_now job := by
        rw [update, mem_modify]
        exact ⟨m0, hm0, if_pos hid0⟩
      rcases hbad with ⟨e, he, hid, hstatus⟩ | ⟨hfailed, ⟨e, he, hid, hstatus⟩, hlimit⟩
      · -- the copy has counted fewer re-queues than there are
        have hcount := hcounted.exact_count _ hin
        rw [update_columns_retry_count, update_columns_id, hid0, requeues_snoc] at hcount
        have hmissed : requeues job.id (s.executions.drop since) ≠ 0 := by
          rw [Ne, requeues_eq_zero]
          exact fun hnone => hnone e he hid hstatus
        have hsplit := requeues_split job.id s.executions since
        obtain ⟨_, _, hcounts⟩ := hs.copies w _ job since hw rfl
        rcases hcounts with ⟨hq, hn⟩ | ⟨hq, hn, _⟩ | ⟨hq, hn, _⟩ <;> simp [hq] at hcount <;> omega
      · have hbound := hcounted.bounded _ hin
        rw [update_columns_id, hid0, failures_snoc] at hbound
        obtain ⟨_, _, hcounts⟩ := hs.copies w _ job since hw rfl
        rcases hcounts with ⟨hq, _⟩ | ⟨hq, _⟩ | ⟨hq, _⟩
        · exact hfailed hq
        · simp [hq] at hbound
          omega
        · simp [hq] at hbound
          omega
    · exact absurd hbad id
  | _ => exact absurd hbad (by simp [Outdated])

/-- With a limit of retries that is not negative, a run counts the retries of
every job exactly when no execution in it commits on an outdated read. -/
theorem retries_are_counted_unless_outdated {settings : ProcessingSettings}
    (hmax : 0 ≤ settings.max_retries) (as : List Action) :
    Throughout (Protocol.step settings) (Counted settings) {} as ↔
      Along (Protocol.step settings) (fun s a => ¬ Outdated settings s a) {} as := by
  refine throughout_iff_along (I := fun s => Named s ∧ Filed s ∧ Tracked settings s) ?_ ?_ ?_
    ⟨named_init, filed_init, tracked_init hmax⟩ ?_ as
  · rintro s a t ⟨hn, hfiled, hs⟩ hcounted hgood ht
    have h := moved_of_step ht
    exact ⟨named_step hn h, filed_step hfiled h, tracked_step hn hfiled hs hcounted hgood h⟩
  · rintro s a t ⟨hn, _, hs⟩ hcounted hgood ht
    exact counted_step hn hs hcounted hmax hgood (moved_of_step ht)
  · rintro s a ⟨_, hfiled, hs⟩ _ hbad
    exact outdated_breaks hfiled hs (not_not.mp hbad)
  · constructor <;> simp

/-- Job 2 fails at worker 1, which commits and acknowledges. Worker 2 takes the
message of the retry after that, and completes the job. -/
def timely_retry : List Action :=
  let first : Envelope := { tag := 0, message := { tenant_id := "acme", job_id := ⟨2⟩ } }
  let again : Envelope := { tag := 1, message := { tenant_id := "acme", job_id := ⟨2⟩ } }
  [.Check 0 (fun _ => 0) {
      tenant_id := "acme", document_id := ⟨1⟩, job_type := .DocumentIngestion },
    .Enqueue 0 ⟨2⟩ noon, .CommitRequest 0 noon,
    .Take 1 first, .Load 1, .Start 1 noon, .Finish 1 (some "no disk") noon,
    .CommitExecution 1 noon, .Acknowledge 1,
    .Take 2 again, .Load 2, .Start 2 noon, .Finish 2 none noon, .CommitExecution 2 noon]

theorem a_timely_retry_is_counted :
    Throughout (Protocol.step {}) (Counted {}) {} timely_retry :=
  (retries_are_counted_unless_outdated (by decide) timely_retry).mpr (by decide +kernel)

/-- Job 2 fails at worker 1. Worker 2 takes the message of the retry and reads
the row before worker 1 commits, and fails as well. -/
def early_retry : List Action :=
  let first : Envelope := { tag := 0, message := { tenant_id := "acme", job_id := ⟨2⟩ } }
  let again : Envelope := { tag := 1, message := { tenant_id := "acme", job_id := ⟨2⟩ } }
  [.Check 0 (fun _ => 0) {
      tenant_id := "acme", document_id := ⟨1⟩, job_type := .DocumentIngestion },
    .Enqueue 0 ⟨2⟩ noon, .CommitRequest 0 noon,
    .Take 1 first, .Load 1, .Start 1 noon, .Finish 1 (some "no disk") noon,
    .Take 2 again, .Load 2, .CommitExecution 1 noon,
    .Start 2 noon, .Finish 2 (some "no disk") noon, .CommitExecution 2 noon]

theorem an_early_retry_loses_a_count :
    ¬ Throughout (Protocol.step {}) (Counted {}) {} early_retry := by
  intro h
  have hrun : (run (Protocol.step {}) {} early_retry).map (fun s =>
      (s.jobs.map (fun m => (m.id, m.retry_count)), requeues ⟨2⟩ s.executions)) =
      some ([(⟨2⟩, 1)], 2) := by
    decide +kernel
  obtain ⟨s, hs, heq⟩ := Option.map_eq_some_iff.mp hrun
  rw [Prod.mk.injEq] at heq
  obtain ⟨m, rest, hjobs, hm, _⟩ := List.map_eq_cons_iff.mp heq.1
  rw [Prod.mk.injEq] at hm
  have hcount := (h early_retry [] s (List.append_nil _).symm hs).exact_count m
    (by rw [hjobs]; exact List.mem_cons_self)
  rw [hm.1, hm.2, heq.2] at hcount
  omega

end cortex_rag.retry_counts
