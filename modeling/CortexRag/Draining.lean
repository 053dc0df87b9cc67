-- The law of the consumer: where nothing outside fails, it comes to the end of the
-- queue within a number of turns that is known before, and every job has ended then.
import CortexRag.Consumer
import CortexRag.RetryLoop

open keyed_rows labelled_runs state_programs

namespace cortex_rag.consumer

open service

variable {P : Providers} {settings : Settings} {m : Moment} {s t : Consumer} {w w' : World}

/-! ## Turns in which nothing outside fails -/

/-- No call to the outside fails, and the database session is in order. -/
def Calm (c : Call) : Prop := c.faults = [] ∧ c.broken = false

section Rules

variable {α : Type} {E : Interruption → Call → Prop}

theorem calm_external : Triple Calm external (fun _ => Calm) E := by
  rintro ⟨w, faults, broken⟩ ⟨hfaults, hbroken⟩
  cases hfaults
  exact ⟨rfl, hbroken⟩

/-- What such a call may raise, the code catches. -/
def Raises (e : Interruption) (c : Call) : Prop := Calm c ∧ e ≠ .Crashed

theorem calm_of_except (x : Except PyException α) :
    Triple Calm (of_except x) (fun _ => Calm) Raises := by
  intro c hc
  rcases x with e | a
  · exact ⟨hc, fun h => nomatch h⟩
  · exact hc

theorem calm_query {f : Database → α} : Triple Calm (query f) (fun _ => Calm) E := by
  rintro ⟨w, faults, broken⟩ ⟨hfaults, hbroken⟩
  cases hfaults
  cases hbroken
  exact ⟨rfl, rfl⟩

theorem calm_write {f : Database → Database} :
    Triple Calm (write (fun db => .ok (f db))) (fun _ => Calm) E := by
  rintro ⟨w, faults, broken⟩ ⟨hfaults, hbroken⟩
  cases hfaults
  cases hbroken
  exact ⟨rfl, rfl⟩

theorem calm_effect {f : World → World} : Triple Calm (effect f) (fun _ => Calm) E :=
  triple_bind calm_external (fun _ _ hc => hc)

theorem calm_load (key : String) :
    Triple Calm (StorageProvider.load P key) (fun _ => Calm) Raises := by
  refine triple_bind calm_external (fun _ c hc => ?_)
  unfold look
  dsimp only
  rcases c.world.blobs key with _ | content
  · exact ⟨hc, fun h => nomatch h⟩
  · exact hc

theorem calm_forM {γ : Type} {f : γ → Service Unit}
    (hf : ∀ x, Triple Calm (f x) (fun _ => Calm) E) (xs : List γ) :
    Triple Calm (xs.forM f) (fun _ => Calm) E := by
  induction xs with
  | nil => exact triple_pure (fun _ hc => hc)
  | cons x xs ih => exact triple_bind (hf x) (fun _ => ih)

theorem calm_domain {β : Type} {x : Except DomainError α} {value : α} {f : α → Service β}
    {Q : β → Call → Prop} (hx : x = .ok value) (hf : Triple Calm (f value) Q E) :
    Triple Calm (of_domain x >>= f) Q E := by
  intro c hc
  rw [retry_loop.of_domain_then hx]
  exact hf c hc

end Rules

theorem process_calm (tenant_id : String) (document_id : UUID) :
    Triple Calm (ProcessDocumentUseCase.execute P m tenant_id document_id) (fun _ => Calm)
      Raises := by
  unfold ProcessDocumentUseCase.execute
  refine triple_bind calm_query (fun _ => triple_bind (calm_of_except _) ?_)
  rintro ⟨document, version⟩
  refine triple_bind (calm_load _) (fun content => ?_)
  refine triple_bind calm_external (fun _ => triple_bind (calm_of_except _) (fun parsed => ?_))
  refine triple_bind ?_ (fun _ => calm_write)
  unfold ProcessDocumentUseCase.index_chunks
  split
  · refine triple_bind (triple_bind calm_external (fun _ => calm_of_except _)) (fun _ => ?_)
    exact triple_bind (calm_of_except _) (fun _ => calm_effect)
  · exact triple_pure (fun _ hc => hc)

/-- A queued job is executed to its end, whatever its worker raises. -/
theorem execute_calm {job : ProcessingJob} (hqueued : job.status = .Queued) :
    Triple Calm (WorkerExecutor.execute P settings m job) (fun _ => Calm) (fun _ _ => False) := by
  unfold WorkerExecutor.execute
  split
  · have hopen : job.is_terminal = false := by
      rw [ProcessingJob.is_terminal, hqueued]
      rfl
    have hfail : job.fail (WorkerExecutor.no_worker job) (m.clock 0) = .ok { job with
        status := .Failed
        finished_at := some (m.clock 0)
        error_message := some (WorkerExecutor.no_worker job) } := by
      simp [ProcessingJob.fail, hopen]
    refine calm_domain (by rw [WorkerExecutor.refused, hfail]; rfl) ?_
    refine triple_bind calm_write (fun _ => ?_)
    exact triple_bind (calm_forM (fun _ => calm_effect) _) (fun _ => triple_pure (fun _ hc => hc))
  · rename_i name _
    have hstart : job.start name (m.clock 0) = .ok { job with
        status := .Running
        worker_name := some name
        started_at := some (m.clock 0)
        progress := 0
        error_message := none } := by
      simp [ProcessingJob.start, hqueued]
    have hopen : ({ job with
        status := .Running
        worker_name := some name
        started_at := some (m.clock 0)
        progress := 0
        error_message := none } : ProcessingJob).is_terminal = false := rfl
    refine calm_domain (by rw [WorkerExecutor.started, hstart]; rfl) ?_
    refine triple_bind calm_write (fun _ => ?_)
    refine triple_bind (calm_forM (fun _ => calm_effect) _) (fun _ => ?_)
    refine triple_bind (M := fun _ => Calm) ?_ (fun outcome => ?_)
    · refine triple_attempt (M := Raises) ?_ ?_
      · exact triple_bind (process_calm _ _) (fun _ => triple_pure (fun _ hc => hc))
      · rintro (e | _)
        · exact triple_pure (fun _ hc => hc.1)
        · exact triple_raise (fun _ hc => hc.2 rfl)
    · obtain ⟨ended, events, message, hfinished, _, _⟩ :=
        retry_loop.finished_of_open settings.processing.max_retries hopen outcome (m.clock 1)
      refine calm_domain hfinished ?_
      refine triple_bind calm_write (fun _ => ?_)
      refine triple_bind (M := fun _ => Calm) ?_ (fun _ => ?_)
      · rcases message with _ | message
        · exact triple_pure (fun _ hc => hc)
        · change Triple Calm (enqueue message) _ _
          exact calm_effect
      · exact triple_bind (calm_forM (fun _ => calm_effect) _)
          (fun _ => triple_pure (fun _ hc => hc))

theorem handle_calm (message : Message) :
    Triple Calm (handle_message P settings m message) (fun _ => Calm) (fun _ _ => False) := by
  unfold handle_message
  refine triple_bind calm_query (fun found => ?_)
  split
  · exact triple_pure (fun _ hc => hc)
  · split
    · exact triple_pure (fun _ hc => hc)
    · rename_i hstatus
      exact triple_bind (execute_calm (not_not.mp hstatus)) (fun _ => triple_pure (fun _ hc => hc))

/-- A turn in which nothing outside fails acknowledges its message. -/
theorem turn_calm {message : Message} {rest : List Message} (hwaiting : s.waiting = message :: rest)
    (hquiet : m.faults = [])
    (hfresh : s.world.fresh { moment := m, operation := .Handle message } = true) :
    ∃ t, turn P settings s m = some t ∧ t.acked = s.acked + 1 := by
  rw [turn_eq hwaiting, if_pos hfresh, perform_eq]
  generalize hr : ({ moment := m, operation := .Handle message } : Request) = r
  have hcalm : Triple Calm (r.operation.program P settings r.moment) (fun _ => Calm)
      (fun _ _ => False) := by
    subst hr
    exact triple_bind (handle_calm message) (fun _ => triple_pure (fun _ hc => hc))
  have hfaults : r.moment.faults = [] := by
    subst hr
    exact hquiet
  have hends := hcalm ⟨opened s.world r, r.moment.faults, false⟩ ⟨hfaults, rfl⟩
  rcases hp : r.operation.program P settings r.moment ⟨opened s.world r, r.moment.faults, false⟩
    with ⟨e | a, d⟩
  · rw [hp] at hends
    exact hends.elim
  · rw [hp] at hends
    obtain ⟨hnone, hsound⟩ := hends
    have hsession := session_ok.mpr ⟨d, hp, hsound, by rw [hnone]; rfl, rfl⟩
    rw [hsession]
    exact ⟨_, rfl, rfl⟩

/-! ## The backlog -/

/-- The retries that a job may still ask for. -/
def retries_left (max_retries : Int) (j : ProcessingJobModel) : ℕ :=
  if j.status = .Queued then (max_retries - j.retry_count).toNat else 0

/-- The turns that the consumer needs at most: one for each message that waits, and one
for each retry that is left. -/
def backlog (settings : Settings) (s : Consumer) : ℕ :=
  s.bodies.length + (s.world.db.jobs.map (retries_left settings.processing.max_retries)).sum

theorem retries_left_of_ended (max_retries : Int) {j : ProcessingJobModel}
    (h : j.status ∈ TERMINAL_JOB_STATUSES) : retries_left max_retries j = 0 := by
  refine if_neg (fun hqueued => ?_)
  rw [hqueued] at h
  revert h
  decide

/-- A message that is handled takes more off the work than its job puts on it. -/
theorem handled_work {max_retries : Int} {message : Message} {queue : List Message}
    {jobs : List ProcessingJobModel} (hkeyed : Keyed ProcessingJobModel.id jobs)
    (h : Handled max_retries message jobs queue w') :
    ∃ more, w'.queue = queue ++ more ∧
      more.length + (w'.db.jobs.map (retries_left max_retries)).sum ≤
        (jobs.map (retries_left max_retries)).sum := by
  rcases h with ⟨_, hjobs, hqueue⟩ | ⟨row, f, hrow, _, _, hqueued, _, hjobs, hends⟩
  · exact ⟨[], by rw [hqueue, List.append_nil], by rw [hjobs, List.length_nil, Nat.zero_add]⟩
  · have hsum := sum_modify ProcessingJobModel.id (f := f) hkeyed hrow rfl
      (retries_left max_retries)
    rw [hjobs]
    rcases hends with ⟨hended, hqueue⟩ | ⟨hagain, hcount, hleft, hqueue⟩
    · refine ⟨[], by rw [hqueue, List.append_nil], ?_⟩
      rw [retries_left_of_ended max_retries hended] at hsum
      rw [List.length_nil]
      omega
    · refine ⟨[message], hqueue, ?_⟩
      simp only [retries_left, hqueued, hagain, if_true, hcount] at hsum ⊢
      rw [List.length_singleton]
      push_cast at hsum
      omega

/-- A turn in which nothing outside fails does some of the work. -/
theorem turn_works {message : Message} {rest : List Message} (h : Settled P s)
    (hwaiting : s.waiting = message :: rest) (hquiet : m.faults = [])
    (hfresh : s.world.fresh { moment := m, operation := .Handle message } = true) :
    ∃ t, turn P settings s m = some t ∧ backlog settings t < backlog settings s := by
  obtain ⟨t, hturn, hnext⟩ : ∃ t, turn P settings s m = some t ∧ t.acked = s.acked + 1 :=
    turn_calm hwaiting hquiet hfresh
  refine ⟨t, hturn, ?_⟩
  rcases turned_of_turn h.sound hturn with ⟨message', rest', hwaiting', hhandled, _⟩ |
    ⟨_, _, hsame⟩
  · obtain ⟨more, hqueue, hwork⟩ := handled_work h.sound.rows.jobs hhandled
    obtain ⟨_, hrest⟩ := waiting_tail hwaiting' hqueue hnext
    unfold backlog Consumer.bodies
    rw [hrest, hwaiting', List.length_map, List.length_map, List.length_append, List.length_cons]
    omega
  · omega

/-- The moments have ids that no call has had before, and nothing outside fails in
them. -/
structure Undisturbed (s : Consumer) (ms : List Moment) : Prop where
  faults : ∀ m ∈ ms, m.faults = []
  ids : (ms.flatMap (fun m => m.ids.all)).Nodup
  new : ∀ id ∈ ms.flatMap (fun m => m.ids.all), id ∉ s.world.issued

theorem fresh_of_undisturbed {ms : List Moment} (h : Undisturbed s (m :: ms))
    (operation : Operation) :
    s.world.fresh { moment := m, operation } = true := by
  have hids := h.ids
  rw [List.flatMap_cons, List.nodup_append] at hids
  refine decide_eq_true ⟨hids.1, fun id hid => h.new id ?_⟩
  rw [List.flatMap_cons]
  exact List.mem_append_left _ hid

theorem undisturbed_tail {ms : List Moment} (h : Undisturbed s (m :: ms))
    (hissued : t.world.issued = m.ids.all ++ s.world.issued) : Undisturbed t ms := by
  obtain ⟨hfaults, hids, hnew⟩ := h
  rw [List.flatMap_cons, List.nodup_append] at hids
  refine ⟨fun m hm => hfaults m (List.mem_cons_of_mem _ hm), hids.2.1, ?_⟩
  intro id hid hold
  rw [hissued, List.mem_append] at hold
  rcases hold with hold | hold
  · exact hids.2.2 id hold id hid rfl
  · refine hnew id ?_ hold
    rw [List.flatMap_cons]
    exact List.mem_append_right _ hid

/-- Where nothing outside fails any more, the consumer comes to the end of the queue. `I`
is what the turns keep on the way. -/
theorem drained {I : Consumer → Prop}
    (hkeeps : ∀ u v m, Settled P u → m.faults = [] → turn P settings u m = some v → I u → I v)
    (hs : Settled P s) (hI : I s) {ms : List Moment} (hquiet : Undisturbed s ms)
    (henough : backlog settings s ≤ ms.length) :
    ∃ k ≤ backlog settings s, ∃ t, run (step P settings) s ((ms.take k).map .Turn) = some t ∧
      t.waiting = [] ∧ Settled P t ∧ I t := by
  have hlength : backlog settings s ≤ (ms.map Event.Turn).length := by
    rw [List.length_map]
    exact henough
  have hfinishes := run_finishes (step P settings)
    (fun s events => ∃ ms, events = ms.map Event.Turn ∧ Settled P s ∧ I s ∧ Undisturbed s ms)
    (backlog settings) (fun s => s.waiting = []) ?_ ?_ ⟨ms, rfl, hs, hI, hquiet⟩ hlength
  · obtain ⟨k, hk, t, hrun, ⟨_, _, hsettled, ht, _⟩, hdone⟩ := hfinishes
    rw [← List.map_take] at hrun
    exact ⟨k, hk, t, hrun, hdone, hsettled, ht⟩
  · rintro s event events ⟨_ | ⟨m, ms⟩, heq, hsettled, hs, hquiet⟩ hleft
    · cases heq
    · obtain ⟨rfl, rfl⟩ := List.cons_eq_cons.mp heq
      obtain ⟨message, rest, hwaiting⟩ := List.exists_cons_of_ne_nil hleft
      have hcalm := hquiet.faults m List.mem_cons_self
      obtain ⟨t, hturn, hless⟩ := turn_works hsettled hwaiting hcalm
        (fresh_of_undisturbed hquiet (.Handle message))
      obtain ⟨_, _, _, hstep⟩ := step_of_turn hturn
      exact ⟨t, hturn, ⟨ms, rfl, settled_turn hsettled hturn,
        hkeeps s t m hsettled hcalm hturn hs, undisturbed_tail hquiet (issued_of_step hstep)⟩,
        hless⟩
  · rintro s events _ hnone
    unfold backlog Consumer.bodies at hnone
    rw [List.length_map] at hnone
    exact List.eq_nil_of_length_eq_zero (by omega)

/-- From every state that the service and its consumer reach, whatever has failed and
crashed on the way: where nothing outside fails any more, the consumer comes to the end
of the queue within the turns of the backlog, and then every job has ended. -/
theorem the_queue_runs_dry (h : Reachable (step P settings) {} s) {ms : List Moment}
    (hquiet : Undisturbed s ms) (henough : backlog settings s ≤ ms.length) :
    ∃ k ≤ backlog settings s, ∃ t,
      run (step P settings) s ((ms.take k).map .Turn) = some t ∧ t.bodies = [] ∧
        ∀ j ∈ t.world.db.jobs, j.status ∈ TERMINAL_JOB_STATUSES := by
  obtain ⟨k, hk, t, hrun, hdone, hsettled, _⟩ := drained (I := fun _ => True)
    (fun _ _ _ _ _ _ _ => trivial) (settled_of_reachable h) trivial hquiet henough
  refine ⟨k, hk, t, hrun, by rw [Consumer.bodies, hdone, List.map_nil], ?_⟩
  intro j hj
  rcases hsettled.jobs j hj with hended | ⟨_, hmessage⟩
  · exact hended
  · rw [hdone] at hmessage
    cases hmessage

/-- An upload, and a run of its job that crashes before it is committed. -/
def a_crashed_run : List Event :=
  let message : Message := { tenant_id := "acme", job_id := (plain.ids 0).job }
  [.Serve (plain.request 0 (plain.upload [65])),
    .Turn (plain.crashing 8 (plain.request 1 (.Handle message))).moment]

/-- The job of that run has ended at most four turns later. -/
theorem a_crashed_run_is_made_up_for :
    ∃ s, run (step plain.providers {}) {} a_crashed_run = some s ∧
      s.bodies.length = 1 ∧ s.acked = 0 ∧ ∃ k ≤ 4, ∃ t,
        run (step plain.providers {}) s
          ((([2, 3, 4, 5].map plain.moment).take k).map .Turn) = some t ∧
        t.bodies = [] ∧ ∀ j ∈ t.world.db.jobs, j.status ∈ TERMINAL_JOB_STATUSES := by
  have hends : (run (step plain.providers {}) {} a_crashed_run).map (fun s => decide
      (s.bodies.length = 1 ∧ s.acked = 0 ∧ backlog {} s = 4 ∧
        ∀ id ∈ ([2, 3, 4, 5].map plain.moment).flatMap (fun m => m.ids.all),
          id ∉ s.world.issued)) = some true := by
    decide +kernel
  obtain ⟨s, hs, hfacts⟩ := Option.map_eq_some_iff.mp hends
  obtain ⟨hwaits, hacked, hbacklog, hnew⟩ := of_decide_eq_true hfacts
  have hquiet : Undisturbed s ([2, 3, 4, 5].map plain.moment) :=
    ⟨by simp [plain.moment], by decide +kernel, hnew⟩
  obtain ⟨k, hk, t, ht⟩ := the_queue_runs_dry ⟨_, hs⟩ hquiet (by rw [hbacklog]; rfl)
  exact ⟨s, hs, hwaits, hacked, k, by omega, t, ht⟩

end cortex_rag.consumer
