-- The law of the consumer: the process that handles the messages one by one comes to
-- the end of the queue, and leaves no queued job behind.
import CortexRag.JsonWriting
import CortexRag.PublishedEvents
import CortexRag.StorageKeys

open keyed_rows labelled_runs state_programs json_values json_text

namespace cortex_rag

/-! ## Messages as bytes -/

/-- The body that `enqueue` publishes. -/
def RabbitMQJobQueue.body (message : Message) : String :=
  dump_object [("tenant_id", message.tenant_id), ("job_id", message.job_id.str)]

namespace consumer

open service published_events

/-- The id with this text. -/
def id_of (text : String) : Option UUID :=
  (storage_keys.uuid_of text.toList).filter (fun id => id.str = text)

/-- `payload["tenant_id"]` and `payload["job_id"]`. `none` is an exception. -/
def read_message (body : String) : Option Message :=
  match loads body with
  | some (.object fields) =>
    match (merged fields).lookup (.plain "tenant_id"), (merged fields).lookup (.plain "job_id") with
    | some (.text tenant_id), some (.text job_id) =>
      (id_of job_id).map (fun id => { tenant_id, job_id := id })
    | _, _ => none
  | _ => none

theorem id_of_str (id : UUID) : id_of id.str = some id := by
  unfold id_of UUID.str
  rw [String.toList_ofList, storage_keys.uuid_of_chars]
  simp

/-- A message is read as it was enqueued. -/
theorem read_message_body (message : Message) :
    read_message (RabbitMQJobQueue.body message) = some message := by
  unfold read_message RabbitMQJobQueue.body
  rw [loads_dump_object]
  have hkeyed : Keyed Prod.fst ([("tenant_id", message.tenant_id),
      ("job_id", message.job_id.str)].map text_field) := by
    rw [keyed_texts]
    simp [Keyed]
  simp only [merged_eq hkeyed]
  have htenant : ([("tenant_id", message.tenant_id), ("job_id", message.job_id.str)].map
      text_field).lookup (.plain "tenant_id") = some (.text message.tenant_id) := rfl
  have hjob : ([("tenant_id", message.tenant_id), ("job_id", message.job_id.str)].map
      text_field).lookup (.plain "job_id") = some (.text message.job_id.str) := rfl
  simp only [htenant, hjob, id_of_str, Option.map_some]

/-! ## The loop -/

/-- The service with its worker process. The queue is durable: the messages that the
process has not acknowledged wait in it, in their order. -/
structure Consumer where
  world : World := {}
  acked : Nat := 0

def Consumer.waiting (s : Consumer) : List Message := s.world.queue.drop s.acked

/-- What the broker delivers, the next message first. -/
def Consumer.bodies (s : Consumer) : List String := s.waiting.map RabbitMQJobQueue.body

inductive Event where
  | Serve (r : Request)
  | Turn (m : Moment)

/-- A call of the API. -/
def is_call : Operation → Bool
  | .Handle _ => false
  | _ => true

section Loop

variable (P : Providers) (settings : Settings)

/-- One turn of `_run_forever`: a message whose handling has ended is acknowledged.
After an exception it is requeued, and the process ends and is started again. -/
def turn (s : Consumer) (m : Moment) : Option Consumer :=
  match s.bodies with
  | [] => none
  | body :: _ =>
    match read_message body with
    | none => some s
    | some message =>
      if s.world.fresh { moment := m, operation := .Handle message } then
        match s.world.perform P settings { moment := m, operation := .Handle message } with
        | (.ok _, world) => some { world, acked := s.acked + 1 }
        | (.error _, world) => some { world, acked := s.acked }
      else none

def step (s : Consumer) : Event → Option Consumer
  | .Serve r =>
    if is_call r.operation then (s.world.step P settings r).map (fun world => { s with world })
    else none
  | .Turn m => turn P settings s m

end Loop

variable {P : Providers} {settings : Settings} {m : Moment} {s t : Consumer} {w w' : World}

/-! ## What a turn does -/

/-- What the handling of a message makes of the jobs and of the queue. -/
inductive Handled (max_retries : Int) (message : Message) (jobs : List ProcessingJobModel)
    (queue : List Message) (w' : World) : Prop where
  | skipped :
      (∀ j ∈ jobs, j.id = message.job_id → j.tenant_id = message.tenant_id →
        j.status ≠ .Queued) →
      w'.db.jobs = jobs → w'.queue = queue → Handled max_retries message jobs queue w'
  | ran (row : ProcessingJobModel) (f : ProcessingJobModel → ProcessingJobModel) :
      row ∈ jobs → row.id = message.job_id → row.tenant_id = message.tenant_id →
      row.status = .Queued → (∀ j, (f j).id = j.id ∧ (f j).tenant_id = j.tenant_id) →
      w'.db.jobs = modify ProcessingJobModel.id row.id f jobs →
      ((f row).status ∈ TERMINAL_JOB_STATUSES ∧ w'.queue = queue ∨
        (f row).status = .Queued ∧ (f row).retry_count = row.retry_count + 1 ∧
          (row.retry_count : Int) < max_retries ∧ w'.queue = queue ++ [message]) →
      Handled max_retries message jobs queue w'

theorem modify_modify (k : UUID) {f g : ProcessingJobModel → ProcessingJobModel}
    (hf : ∀ j, (f j).id = j.id) (jobs : List ProcessingJobModel) :
    keyed_rows.modify ProcessingJobModel.id k g (keyed_rows.modify ProcessingJobModel.id k f jobs) =
      keyed_rows.modify ProcessingJobModel.id k (fun j => g (f j)) jobs := by
  unfold keyed_rows.modify
  rw [List.map_map]
  apply List.map_congr_left
  intro j _
  by_cases hj : j.id = k <;> simp [hj, hf]

/-- The run of the worker writes neither jobs nor messages. -/
theorem attempted_quiet (job : ProcessingJob) :
    Ends w (WorkerExecutor.attempted (IngestionWorker.run P m job))
      (fun _ w' => w'.db.jobs = w.db.jobs ∧ w'.queue = w.queue) (fun _ => True) := by
  have hrun : Ends w (ProcessDocumentUseCase.execute P m job.tenant_id job.document_id)
      (fun _ w' => w'.db.jobs = w.db.jobs ∧ w'.queue = w.queue)
      (fun w' => w'.db.jobs = w.db.jobs ∧ w'.queue = w.queue) := by
    intro c hc
    have hends := process_ends (P := P) (m := m) (w := w) job.tenant_id job.document_id c hc
    obtain ⟨_, hqueue⟩ := process_silent (P := P) (m := m) job.tenant_id job.document_id c
    rw [hc] at hqueue
    rcases hp : ProcessDocumentUseCase.execute P m job.tenant_id job.document_id c with ⟨e | a, d⟩
    · rw [hp] at hends hqueue
      obtain ⟨points, _, hdone⟩ := hends
      exact ⟨by rw [hdone.db], hqueue⟩
    · rw [hp] at hends hqueue
      obtain ⟨document, points, _, hdone⟩ := hends
      exact ⟨by rw [hdone.db]; rfl, hqueue⟩
  refine ends_weaken (attempted_ends hrun) ?_ (fun _ _ => trivial)
  rintro outcome w' (⟨_, hdone⟩ | ⟨_, _, hdone⟩) <;> exact hdone

theorem execute_handled {message : Message} {row : ProcessingJobModel} (hrow : row ∈ w.db.jobs)
    (hid : row.id = message.job_id) (htenant : row.tenant_id = message.tenant_id)
    (hqueued : row.status = .Queued) :
    Ends w (WorkerExecutor.execute P settings m (to_entity row))
      (fun _ => Handled settings.processing.max_retries message w.db.jobs w.queue)
      (fun _ => True) := by
  have hcolumns : ∀ (job : ProcessingJob) (j : ProcessingJobModel),
      (SqlAlchemyProcessingJobRepository.update_columns m.db_now job j).id = j.id ∧
        (SqlAlchemyProcessingJobRepository.update_columns m.db_now job j).tenant_id =
          j.tenant_id := fun job j => ⟨by simp, by simp⟩
  unfold WorkerExecutor.execute
  split
  · refine ends_of_domain trivial ?_
    rintro ⟨job', events⟩ hrefused
    obtain ⟨hsame, _, hstatus, _⟩ := WorkerExecutor.refused_ok hrefused
    have hsame : job'.id = row.id := hsame
    refine update_job_ends trivial ?_
    refine ends_publish_events events (ends_pure ?_)
    refine .ran row (SqlAlchemyProcessingJobRepository.update_columns m.db_now job') hrow hid
      htenant hqueued (hcolumns job') ?_ (Or.inl ⟨by simp [hstatus, TERMINAL_JOB_STATUSES], rfl⟩)
    rw [← hsame]
    rfl
  · refine ends_of_domain trivial ?_
    rintro ⟨job1, events⟩ hstarted
    obtain ⟨_, hsame, htenant1, _, _⟩ := WorkerExecutor.started_ok hstarted
    obtain ⟨_, hcount1⟩ := WorkerExecutor.started_origin hstarted
    have hsame : job1.id = row.id := hsame
    have htenant1 : job1.tenant_id = row.tenant_id := htenant1
    have hcount1 : job1.retry_count = row.retry_count := hcount1
    refine update_job_ends trivial ?_
    refine ends_publish_events events ?_
    refine ends_bind (attempted_quiet job1) ?_
    rintro outcome w' ⟨hjobs, hqueue⟩
    refine ends_of_domain trivial ?_
    rintro ⟨job2, more, enqueued⟩ hfinished
    obtain ⟨hsame2, htenant2, hmessage⟩ := WorkerExecutor.finished_ok hfinished
    obtain ⟨_, hcases⟩ := WorkerExecutor.finished_cases hfinished
    refine update_job_ends trivial ?_
    refine ends_enqueue_message enqueued ?_
    refine ends_publish_events more (ends_pure ?_)
    refine .ran row (fun j => SqlAlchemyProcessingJobRepository.update_columns m.db_now job2
      (SqlAlchemyProcessingJobRepository.update_columns m.db_now job1 j)) hrow hid htenant hqueued
      (fun j => ⟨by simp, by simp⟩) ?_ ?_
    · rw [← modify_modify row.id (fun j => (hcolumns job1 j).1)]
      change SqlAlchemyProcessingJobRepository.update w'.db.jobs m.db_now job2 = _
      rw [hjobs, SqlAlchemyProcessingJobRepository.update, hsame2, hsame]
      change keyed_rows.modify ProcessingJobModel.id row.id _
        (SqlAlchemyProcessingJobRepository.update w.db.jobs m.db_now job1) = _
      rw [SqlAlchemyProcessingJobRepository.update, hsame]
    · have hstatus (j : ProcessingJobModel) : (SqlAlchemyProcessingJobRepository.update_columns
          m.db_now job2 j).status = job2.status := by simp
      have hcount (j : ProcessingJobModel) : (SqlAlchemyProcessingJobRepository.update_columns
          m.db_now job2 j).retry_count = job2.retry_count := by simp
      rw [hstatus, hcount]
      change _ ∧ w'.queue ++ enqueued.toList = w.queue ∨ _ ∧ _ ∧ _ ∧
        w'.queue ++ enqueued.toList = w.queue ++ [message]
      rcases hmessage with ⟨hterminal, rfl⟩ | ⟨hagain, rfl⟩
      · refine Or.inl ⟨of_decide_eq_true hterminal, ?_⟩
        rw [Option.toList_none, List.append_nil, hqueue]
      · rcases hcases with ⟨h, _⟩ | ⟨h, _⟩ | ⟨_, hcount2, _, hleft⟩
        · rw [hagain] at h
          cases h
        · rw [hagain] at h
          cases h
        · have hmessage : WorkerExecutor.message job2 = message := by
            unfold WorkerExecutor.message
            rw [hsame2, hsame, hid, htenant2, htenant1, htenant]
          rw [hcount1] at hcount2 hleft
          exact Or.inr ⟨hagain, hcount2, hleft, by rw [hmessage, hqueue, Option.toList_some]⟩

theorem handle_handled (hkeyed : Keyed ProcessingJobModel.id w.db.jobs) (message : Message) :
    Ends w (handle_message P settings m message)
      (fun _ => Handled settings.processing.max_retries message w.db.jobs w.queue)
      (fun _ => True) := by
  unfold handle_message
  refine ends_query trivial ?_
  split
  · rename_i hget
    refine ends_pure (.skipped ?_ rfl rfl)
    intro j hj hid htenant _
    have hsome := SqlAlchemyProcessingJobRepository.get_of_mem hkeyed hj
    rw [hid, htenant, hget] at hsome
    cases hsome
  · rename_i job hget
    obtain ⟨row, hrow, hid, htenant, rfl⟩ := SqlAlchemyProcessingJobRepository.get_row hget
    split
    · rename_i hstatus
      refine ends_pure (.skipped ?_ rfl rfl)
      intro j hj hjid _
      rw [eq_of_key _ hkeyed hj hrow (hjid.trans hid.symm)]
      exact hstatus
    · rename_i hstatus
      exact ends_bind (execute_handled hrow hid htenant (not_not.mp hstatus))
        (fun _ _ hdone => ends_pure hdone)

/-- What a call of the API makes of the jobs and of the queue. -/
inductive Called (jobs : List ProcessingJobModel) (queue : List Message) (w' : World) : Prop where
  | untouched : w'.db.jobs = jobs → queue <+: w'.queue → Called jobs queue w'
  | created (row : ProcessingJobModel) : row.status = .Queued → w'.db.jobs = jobs ++ [row] →
      w'.queue = queue ++ [WorkerExecutor.message (to_entity row)] → Called jobs queue w'

theorem upload_called (data : UploadDocumentInput) :
    Ends w (UploadDocumentUseCase.execute P settings m data)
      (fun _ => Called w.db.jobs w.queue) (fun _ => True) := by
  unfold UploadDocumentUseCase.execute
  refine ends_of_domain trivial (fun extension _ => ?_)
  refine ends_query trivial ?_
  split
  · exact ends_raise trivial
  · refine ends_effect trivial ?_
    refine ends_write trivial (fun db hdb => ?_)
    obtain ⟨_, rfl⟩ := SqlAlchemyDocumentRepository.add_ok.mp hdb
    refine ends_effect trivial ?_
    unfold CreateProcessingJobUseCase.execute
    rw [bind_assoc]
    refine ends_query trivial ?_
    rw [bind_assoc]
    refine ends_of_except trivial (fun _ _ => ?_)
    rw [bind_assoc]
    refine ends_write trivial (fun db hdb => ?_)
    cases hdb
    rw [bind_assoc]
    refine ends_effect trivial ?_
    rw [bind_assoc]
    refine ends_effect trivial ?_
    exact ends_pure (.created _ rfl rfl rfl)

/-! ## What a session leaves -/

/-- The queue keeps its messages, whatever becomes of the session. -/
theorem queue_of_perform (P : Providers) (settings : Settings) (w : World) (r : Request) :
    w.queue <+: (w.perform P settings r).2.queue := by
  have hleaves : Leaves (opened w r) (r.operation.program P settings r.moment)
      (fun w' => w.queue <+: w'.queue) := by
    intro c hc
    have hlogs : Moves Logs (r.operation.program P settings r.moment) := program_logs r.operation
    obtain ⟨_, hqueue⟩ := hlogs c
    rw [hc] at hqueue
    rcases hp : r.operation.program P settings r.moment c with ⟨e | a, d⟩
    · rw [hp] at hqueue
      exact hqueue
    · rw [hp] at hqueue
      exact ⟨hqueue, hqueue⟩
  exact session_leaves hleaves r.moment.faults

/-- An operation that returns leaves what its program does, and one that raises leaves
the rows as they were. -/
theorem perform_ends {r : Request} {Q : World → Prop}
    (h : Ends (opened w r) (r.operation.program P settings r.moment) (fun _ => Q)
      (fun _ => True)) :
    Gives (fun _ => Q) (fun _ w' => w'.db = w.db) (w.perform P settings r) := by
  rw [perform_eq]
  rcases hs : session (r.operation.program P settings r.moment)
    ⟨opened w r, r.moment.faults, false⟩ with ⟨e | a, d⟩
  · exact session_error hs
  · obtain ⟨e, he, _, _, rfl⟩ := session_ok.mp hs
    have hends := h ⟨opened w r, r.moment.faults, false⟩ rfl
    rw [he] at hends
    exact hends

/-- Apart from an upload, no call of the API writes jobs. -/
theorem jobs_of_moved {operation : Operation} (hcall : is_call operation = true)
    (hupload : ∀ data, operation ≠ .Upload data) (h : Moved P settings m w operation w') :
    w'.db.jobs = w.db.jobs := by
  cases h with
  | still _ _ hb => rw [hb.db]
  | saved _ _ _ _ _ _ _ _ hb => rw [hb.db]
  | uploaded _ data => exact absurd rfl (hupload data)
  | version_added _ _ _ _ _ _ _ _ _ hb => rw [hb.db]
  | updated _ _ _ _ hb =>
    rw [hb.db]
    rfl
  | deleted _ _ _ _ hb =>
    rw [hb.db]
    rfl
  | indexed _ _ _ _ _ _ hb => rw [hb.db]
  | processed _ _ _ _ _ hb =>
    rw [hb.db]
    rfl
  | handled => cases hcall
  | answered _ _ _ _ _ _ hstored hb =>
    rw [← conversation_log.committed_written] at hstored
    rw [hb.db, (conversation_log.committed_ok hstored).2]

theorem fresh_of_step {r : Request} (h : w.step P settings r = some w') : w.fresh r = true := by
  by_contra hstale
  rw [World.step, if_neg hstale] at h
  cases h

theorem called_of_step {r : Request} (hcall : is_call r.operation = true)
    (h : w.step P settings r = some w') : Called w.db.jobs w.queue w' := by
  obtain ⟨_, _, hm⟩ := moved_of_step h
  obtain ⟨_, rfl⟩ := step_some.mp h
  have hqueue := queue_of_perform P settings w r
  by_cases hupload : ∃ data, r.operation = .Upload data
  · obtain ⟨data, hdata⟩ := hupload
    have hprogram : Ends (opened w r) (r.operation.program P settings r.moment)
        (fun _ => Called w.db.jobs w.queue) (fun _ => True) := by
      rw [hdata]
      have hcalled : Ends (opened w r) (UploadDocumentUseCase.execute P settings r.moment data)
          (fun _ => Called w.db.jobs w.queue) (fun _ => True) := upload_called data
      exact ends_bind hcalled (fun _ _ hdone => ends_pure hdone)
    have hends := perform_ends hprogram
    rcases hp : w.perform P settings r with ⟨e | a, w'⟩
    · rw [hp] at hends hqueue
      exact .untouched (congrArg Database.jobs hends) hqueue
    · rw [hp] at hends
      exact hends
  · have hjobs := jobs_of_moved hcall (fun data hdata => hupload ⟨data, hdata⟩) hm
    exact .untouched hjobs hqueue

/-- What a turn makes of the jobs and of the messages. -/
inductive Turned (max_retries : Int) (s t : Consumer) : Prop where
  | acknowledged (message : Message) (rest : List Message) : s.waiting = message :: rest →
      Handled max_retries message s.world.db.jobs s.world.queue t.world →
      t.acked = s.acked + 1 → Turned max_retries s t
  | requeued : t.world.db.jobs = s.world.db.jobs → s.world.queue <+: t.world.queue →
      t.acked = s.acked → Turned max_retries s t

/-- A turn handles the message that has waited longest. -/
theorem turn_eq {message : Message} {rest : List Message} (hwaiting : s.waiting = message :: rest) :
    turn P settings s m =
      if s.world.fresh { moment := m, operation := .Handle message } then
        match s.world.perform P settings { moment := m, operation := .Handle message } with
        | (.ok _, world) => some { world, acked := s.acked + 1 }
        | (.error _, world) => some { world, acked := s.acked }
      else none := by
  unfold turn Consumer.bodies
  rw [hwaiting, List.map_cons]
  simp only [read_message_body]

/-- A turn is a step of the service. -/
theorem step_of_turn (h : turn P settings s m = some t) :
    ∃ message rest, s.waiting = message :: rest ∧
      s.world.step P settings { moment := m, operation := .Handle message } = some t.world := by
  rcases hwaiting : s.waiting with _ | ⟨message, rest⟩
  · simp [turn, Consumer.bodies, hwaiting] at h
  · refine ⟨message, rest, rfl, ?_⟩
    rw [turn_eq hwaiting] at h
    unfold World.step
    split at h
    · rename_i hfresh
      rw [if_pos hfresh]
      split at h <;> cases h <;> simp only [*]
    · cases h

theorem turned_of_turn (hs : Sound P s.world) (h : turn P settings s m = some t) :
    Turned settings.processing.max_retries s t := by
  obtain ⟨message, rest, hwaiting, hstep⟩ := step_of_turn h
  rw [turn_eq hwaiting, if_pos (fresh_of_step hstep)] at h
  generalize hr : ({ moment := m, operation := .Handle message } : Request) = r at h
  have hqueue := queue_of_perform P settings s.world r
  have hprogram : Ends (opened s.world r) (r.operation.program P settings r.moment)
      (fun _ => Handled settings.processing.max_retries message s.world.db.jobs
        s.world.queue) (fun _ => True) := by
    have hkeyed : Keyed ProcessingJobModel.id (opened s.world r).db.jobs := hs.rows.jobs
    have hhandled : Ends (opened s.world r) (handle_message P settings m message)
        (fun _ => Handled settings.processing.max_retries message s.world.db.jobs
          s.world.queue) (fun _ => True) := handle_handled hkeyed message
    subst hr
    exact ends_bind hhandled (fun _ _ hdone => ends_pure hdone)
  have hends := perform_ends hprogram
  rcases hp : s.world.perform P settings r with ⟨e | a, w'⟩
  · rw [hp] at h hends hqueue
    cases h
    exact .requeued (congrArg Database.jobs hends) hqueue rfl
  · rw [hp] at h hends
    cases h
    exact .acknowledged message rest hwaiting hends rfl

/-! ## No job is left behind -/

/-- The job has ended, or it is queued and its message waits. -/
def Cared (waiting : List Message) (j : ProcessingJobModel) : Prop :=
  j.status ∈ TERMINAL_JOB_STATUSES ∨
    (j.status = .Queued ∧ WorkerExecutor.message (to_entity j) ∈ waiting)

structure Settled (P : Providers) (s : Consumer) : Prop where
  sound : Sound P s.world
  acked : s.acked ≤ s.world.queue.length
  jobs : ∀ j ∈ s.world.db.jobs, Cared s.waiting j

theorem settled_init (P : Providers) : Settled P {} where
  sound := sound_init P
  acked := Nat.le_refl 0
  jobs := by
    intro j hj
    cases hj

theorem cared_mono {waiting more : List Message} (h : waiting ⊆ more) {j : ProcessingJobModel}
    (hj : Cared waiting j) : Cared more j := by
  rcases hj with hended | ⟨hqueued, hmessage⟩
  · exact Or.inl hended
  · exact Or.inr ⟨hqueued, h hmessage⟩

/-- The messages that come in wait behind the others. -/
theorem waiting_append {more : List Message} (hacked : s.acked ≤ s.world.queue.length)
    (hqueue : t.world.queue = s.world.queue ++ more) (hsame : t.acked = s.acked) :
    t.waiting = s.waiting ++ more := by
  unfold Consumer.waiting
  rw [hqueue, hsame, List.drop_append_of_le_length hacked]

theorem waiting_tail {message : Message} {rest more : List Message}
    (hwaiting : s.waiting = message :: rest) (hqueue : t.world.queue = s.world.queue ++ more)
    (hnext : t.acked = s.acked + 1) :
    s.acked < s.world.queue.length ∧ t.waiting = rest ++ more := by
  have hlength : s.acked < s.world.queue.length := by
    by_contra hge
    rw [Consumer.waiting, List.drop_eq_nil_of_le (by omega)] at hwaiting
    cases hwaiting
  refine ⟨hlength, ?_⟩
  unfold Consumer.waiting at hwaiting ⊢
  rw [hqueue, hnext, List.drop_append_of_le_length hlength, Nat.succ_eq_add_one,
    ← List.drop_drop, hwaiting]
  rfl

/-- The message that is taken off the queue cares for no other job than its own. -/
theorem cared_rest {message : Message} {rest : List Message} {j : ProcessingJobModel}
    (h : Cared (message :: rest) j)
    (hother : j.id = message.job_id → j.tenant_id = message.tenant_id → j.status ≠ .Queued) :
    Cared rest j := by
  rcases h with hended | ⟨hqueued, hmessage⟩
  · exact Or.inl hended
  · refine Or.inr ⟨hqueued, ?_⟩
    rcases List.mem_cons.mp hmessage with rfl | hmessage
    · exact absurd hqueued (hother rfl rfl)
    · exact hmessage

theorem cared_handled {max_retries : Int} {message : Message} {rest queue : List Message}
    {jobs : List ProcessingJobModel} (hkeyed : Keyed ProcessingJobModel.id jobs)
    (h : ∀ j ∈ jobs, Cared (message :: rest) j)
    (hhandled : Handled max_retries message jobs queue w') :
    ∃ more, w'.queue = queue ++ more ∧ ∀ j ∈ w'.db.jobs, Cared (rest ++ more) j := by
  rcases hhandled with ⟨hskip, hjobs, hqueue⟩ |
    ⟨row, f, hrow, hid, htenant, hqueued, hf, hjobs, hends⟩
  · refine ⟨[], by rw [hqueue, List.append_nil], ?_⟩
    intro j hj
    rw [hjobs] at hj
    rw [List.append_nil]
    exact cared_rest (h j hj) (hskip j hj)
  · have hother : ∀ j ∈ jobs, j.id ≠ row.id → Cared rest j :=
      fun j hj hne => cared_rest (h j hj) (fun hjid _ => absurd (hjid.trans hid.symm) hne)
    have hkept : ∀ more, Cared (rest ++ more) (f row) →
        ∀ j ∈ w'.db.jobs, Cared (rest ++ more) j := by
      intro more hchanged j hj
      rw [hjobs] at hj
      rcases mem_of_modify _ hj with ⟨hj, hne⟩ | ⟨j0, hj0, hid0, rfl⟩
      · exact cared_mono (List.subset_append_left _ _) (hother j hj hne)
      · rw [eq_of_key _ hkeyed hj0 hrow hid0]
        exact hchanged
    rcases hends with ⟨hended, hqueue⟩ | ⟨hagain, _, _, hqueue⟩
    · exact ⟨[], by rw [hqueue, List.append_nil], hkept [] (Or.inl hended)⟩
    · refine ⟨[message], hqueue, hkept [message] (Or.inr ⟨hagain, ?_⟩)⟩
      have hmessage : WorkerExecutor.message (to_entity (f row)) = message := by
        have hsame : WorkerExecutor.message (to_entity (f row)) =
            { tenant_id := (f row).tenant_id, job_id := (f row).id } := rfl
        rw [hsame, (hf row).1, (hf row).2, hid, htenant]
      rw [hmessage]
      exact List.mem_append_right _ (List.mem_singleton_self _)

theorem settled_turn (h : Settled P s) (hturn : turn P settings s m = some t) : Settled P t := by
  obtain ⟨_, _, _, hstep⟩ := step_of_turn hturn
  have hsound := sound_keeps h.sound hstep
  have hacked := h.acked
  rcases turned_of_turn h.sound hturn with ⟨message, rest, hwaiting, hhandled, hnext⟩ |
    ⟨hjobs, ⟨more, hqueue⟩, hsame⟩
  · have hjobs := h.jobs
    rw [hwaiting] at hjobs
    obtain ⟨more, hqueue, hcared⟩ := cared_handled h.sound.rows.jobs hjobs hhandled
    obtain ⟨hlength, hrest⟩ := waiting_tail hwaiting hqueue hnext
    refine ⟨hsound, ?_, by rw [hrest]; exact hcared⟩
    rw [hqueue, hnext, List.length_append]
    omega
  · refine ⟨hsound, ?_, ?_⟩
    · rw [← hqueue, hsame, List.length_append]
      omega
    · intro j hj
      rw [hjobs] at hj
      rw [waiting_append hacked hqueue.symm hsame]
      exact cared_mono (List.subset_append_left _ _) (h.jobs j hj)

theorem settled_step {event : Event} (h : Settled P s) (hstep : step P settings s event = some t) :
    Settled P t := by
  cases event with
  | Turn m => exact settled_turn h hstep
  | Serve r =>
    simp only [step, Option.ite_none_right_eq_some, Option.map_eq_some_iff] at hstep
    obtain ⟨hcall, w', hw, rfl⟩ := hstep
    have hsound := sound_keeps h.sound hw
    have hacked := h.acked
    rcases called_of_step hcall hw with ⟨hjobs, ⟨more, hqueue⟩⟩ | ⟨row, hqueued, hjobs, hqueue⟩
    · have hgrown := waiting_append (t := { s with world := w' }) hacked hqueue.symm rfl
      refine ⟨hsound, ?_, ?_⟩
      · change s.acked ≤ w'.queue.length
        rw [← hqueue, List.length_append]
        omega
      · intro j hj
        change j ∈ w'.db.jobs at hj
        rw [hjobs] at hj
        rw [hgrown]
        exact cared_mono (List.subset_append_left _ _) (h.jobs j hj)
    · have hgrown := waiting_append (t := { s with world := w' }) hacked hqueue rfl
      refine ⟨hsound, ?_, ?_⟩
      · change s.acked ≤ w'.queue.length
        rw [hqueue, List.length_append]
        omega
      · intro j hj
        change j ∈ w'.db.jobs at hj
        rw [hjobs, List.mem_append, List.mem_singleton] at hj
        rw [hgrown]
        rcases hj with hj | rfl
        · exact cared_mono (List.subset_append_left _ _) (h.jobs j hj)
        · exact Or.inr ⟨hqueued, List.mem_append_right _ (List.mem_singleton_self _)⟩

theorem settled_of_reachable (h : Reachable (step P settings) {} s) : Settled P s :=
  reachable_invariant (settled_init P) (fun _ _ _ hs hstep => settled_step hs hstep) h

end consumer

end cortex_rag
