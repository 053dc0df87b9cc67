-- When the handling of a message completes its job: the job waits, its document
-- can be read, and none of the calls to the outside fails.
import CortexRag.Indexing
import CortexRag.ProcessedRows
import CortexRag.RelatedLists

open keyed_rows related_lists state_programs

namespace cortex_rag.service

open indexing

variable {P : Providers} {settings : Settings} {m : Moment} {c e : Call} {u : Unit}
  {tenant_id : String} {d : UUID} {texts : List String} {vectors : List Vector} {w w' : World}
  {r : Request}

/-! ## A run that ends well -/

/-- How many calls to the outside index the chunks: the embedder and the store,
where there are chunks. -/
def index_calls (texts : List String) : Nat := if texts = [] then 0 else 2

theorem points_of_aligned (h : vectors.length = texts.length) :
    ProcessDocumentUseCase.points_of P tenant_id d
      (texts.zipIdx.map (fun c => { index := c.2, content := c.1 })) vectors =
        .ok (chunk_points P tenant_id d texts vectors) := by
  have hok : ∃ points, ProcessDocumentUseCase.points_of P tenant_id d
      (texts.zipIdx.map (fun c => { index := c.2, content := c.1 })) vectors = .ok points := by
    unfold ProcessDocumentUseCase.points_of
    rw [if_pos (by rw [List.length_map, List.length_zipIdx, h])]
    exact ⟨_, rfl⟩
  obtain ⟨points, hpoints⟩ := hok
  rw [hpoints, (points_of_split hpoints).2]

/-- The chunks are indexed when the embedder has a vector for each, and neither
call fails. -/
theorem index_chunks_ok :
    ProcessDocumentUseCase.index_chunks P tenant_id d
        (texts.zipIdx.map (fun c => { index := c.2, content := c.1 })) c = (.ok u, e) ↔
      Faultless (index_calls texts) c.faults ∧ ∃ vectors,
        (texts ≠ [] → P.embed .Document texts = .ok vectors) ∧ vectors.length = texts.length ∧
        e = { c with
          world := { c.world with
            points := (chunk_points P tenant_id d texts vectors).foldl (upsert VectorPoint.id)
              c.world.points }
          faults := c.faults.drop (index_calls texts) } := by
  unfold ProcessDocumentUseCase.index_chunks FastEmbedEmbeddingProvider.embed_batch
    QdrantVectorRepository.upsert index_calls
  by_cases htexts : texts = []
  · subst htexts
    constructor
    · intro h
      cases h
      exact ⟨fun k hk => absurd hk (Nat.not_lt_zero k), [], fun hne => absurd rfl hne, rfl, rfl⟩
    · rintro ⟨_, vectors, _, hlength, rfl⟩
      obtain rfl := List.eq_nil_of_length_eq_zero hlength
      rfl
  · have hchunks : texts.zipIdx.map (fun c => ({ index := c.2, content := c.1 } : TextChunk)) ≠
        [] := by simpa using htexts
    have hcontents : (texts.zipIdx.map (fun c =>
        ({ index := c.2, content := c.1 } : TextChunk))).map (fun c => c.content) = texts := by
      rw [List.map_map]
      exact List.zipIdx_map_fst 0 texts
    simp only [hchunks, htexts, hcontents, ne_eq, not_false_eq_true, if_true, if_false,
      forall_const, bind_ok, external_ok, of_except_ok, effect_ok, faultless_succ]
    constructor
    · rintro ⟨vectors, _, ⟨_, _, ⟨hfirst, rfl⟩, hembed, rfl⟩, points, _, ⟨hpoints, rfl⟩, hlast,
        rfl⟩
      obtain ⟨hlength, rfl⟩ := points_of_split hpoints
      refine ⟨⟨hfirst, hlast, fun k hk => absurd hk (Nat.not_lt_zero k)⟩, vectors, hembed,
        hlength, ?_⟩
      rw [← List.drop_one, ← List.drop_one, List.drop_drop]
    · rintro ⟨⟨hfirst, hlast, _⟩, vectors, hembed, hlength, rfl⟩
      refine ⟨vectors, _, ⟨(), _, ⟨hfirst, rfl⟩, hembed, rfl⟩, _, _,
        ⟨points_of_aligned hlength, rfl⟩, hlast, ?_⟩
      rw [← List.drop_one, ← List.drop_one, List.drop_drop]

theorem load_blob_ok {path : String} {content : Bytes} :
    StorageProvider.load P path c = (.ok content, e) ↔ c.faults.head?.join = none ∧
      c.world.blobs path = some content ∧ e = { c with faults := c.faults.tail } := by
  unfold StorageProvider.load
  simp only [bind_ok, external_ok, look_ok]
  constructor
  · rintro ⟨_, _, ⟨hf, rfl⟩, hfound, rfl⟩
    dsimp only at hfound
    split at hfound
    · rename_i stored hblob
      cases hfound
      exact ⟨hf, hblob, rfl⟩
    · cases hfound
  · rintro ⟨hf, hblob, rfl⟩
    refine ⟨(), _, ⟨hf, rfl⟩, ?_, rfl⟩
    simp only [hblob]

/-- The calls of a run: three before the chunks, those of the index, and the
write of the status. -/
theorem faultless_run {n : Nat} {faults : List (Option Interruption)} :
    Faultless (4 + n) faults ↔ faults.head?.join = none ∧ faults.tail.head?.join = none ∧
      faults.tail.tail.head?.join = none ∧ Faultless n faults.tail.tail.tail ∧
      (faults.tail.tail.tail.drop n).head?.join = none := by
  have hsum : 4 + n = n + 1 + 1 + 1 + 1 := by omega
  rw [hsum, faultless_succ, faultless_succ, faultless_succ, faultless_last]

theorem drop_run {α : Type} (n : Nat) (l : List α) :
    (l.tail.tail.tail.drop n).tail = l.drop (4 + n) := by
  simp only [← List.drop_one, List.drop_drop]
  congr 1
  omega

/-- A run ends well when its document can be read, and no call fails. -/
theorem process_ok :
    ProcessDocumentUseCase.execute P m tenant_id d c = (.ok u, e) ↔
      c.broken = false ∧ ∃ document texts vectors,
        SqlAlchemyDocumentRepository.get c.world.db tenant_id d = some document ∧
        Read P c.world tenant_id d texts vectors ∧ Faultless (4 + index_calls texts) c.faults ∧
        e = { c with
          world := { c.world with
            db := SqlAlchemyDocumentRepository.update c.world.db m.db_now
              (ProcessDocumentUseCase.processed document)
            points := (chunk_points P tenant_id d texts vectors).foldl (upsert VectorPoint.id)
              c.world.points }
          faults := c.faults.drop (4 + index_calls texts) } := by
  unfold ProcessDocumentUseCase.execute RecursiveChunkingStrategy.split
  simp only [bind_ok, query_ok, of_except_ok, load_blob_ok, external_ok, index_chunks_ok, write_ok,
    faultless_run]
  constructor
  · rintro ⟨_, _, ⟨hb, h0, rfl, rfl⟩, ⟨document, version⟩, _, ⟨hload, rfl⟩, content, _,
      ⟨h1, hblob, rfl⟩, _, _, ⟨h2, rfl⟩, parsed, _, ⟨hparsed, rfl⟩, _, _,
      ⟨hcalls, vectors, hembed, hlength, rfl⟩, _, hlast, _, hdb, rfl⟩
    cases hdb
    dsimp only at hblob hparsed
    obtain ⟨hget, hactive⟩ := ProcessDocumentUseCase.load_ok hload
    obtain rfl := (document_id_of_get hget).2.1
    refine ⟨hb, document, _, vectors, hget, ⟨?_, hembed, hlength⟩,
      ⟨h0, h1, h2, hcalls, hlast⟩, ?_⟩
    · simp [document_text, hget, hactive, hblob, hparsed, Except.toOption]
    · rw [← drop_run]
  · rintro ⟨hb, document, texts, vectors, hget, hread, ⟨h0, h1, h2, hcalls, hlast⟩, rfl⟩
    obtain ⟨text, htext, rfl⟩ := Option.map_eq_some_iff.mp hread.split
    simp only [document_text, Option.bind_eq_bind, Option.bind_eq_some_iff] at htext
    obtain ⟨document', hget', version, hactive, content, hblob, parsed, hparsed, hsame⟩ := htext
    obtain rfl : parsed.text = text := Option.some.inj hsame
    obtain rfl : document = document' := Option.some.inj (hget.symm.trans hget')
    have hload : ProcessDocumentUseCase.load c.world.db tenant_id d = .ok (document, version) := by
      simp only [ProcessDocumentUseCase.load, hget, hactive]
    refine ⟨_, _, ⟨hb, h0, rfl, rfl⟩, (document, version), _, ⟨hload, rfl⟩, content, _,
      ⟨h1, hblob, rfl⟩, (), _, ⟨h2, rfl⟩, parsed, _, ⟨ok_of_toOption hparsed, rfl⟩, (), _,
      ⟨hcalls, vectors, hread.embedded, hread.aligned, rfl⟩, hb, hlast, _, rfl, ?_⟩
    rw [drop_run, (document_id_of_get hget).2.1]

/-! ## An execution that completes its job -/

theorem attempted_none {run : Service Unit} :
    WorkerExecutor.attempted run c = (.ok none, e) ↔ run c = (.ok (), e) := by
  unfold WorkerExecutor.attempted attempt
  simp only [bind]
  rcases run c with ⟨(_ | _) | _, c'⟩ <;> simp [pure, raise]

theorem publish_one_ok {event : DomainEvent} :
    [event].forM publish c = (.ok u, e) ↔ publish event c = (.ok (), e) := by
  change (publish event >>= fun _ => pure ()) c = (.ok u, e) ↔ _
  simp only [bind_ok, pure_ok]
  constructor
  · rintro ⟨_, _, h, _, rfl⟩
    exact h
  · intro h
    exact ⟨(), e, h, trivial, rfl⟩

theorem of_domain_ok {α : Type} {x : Except DomainError α} {a : α} :
    of_domain x c = (.ok a, e) ↔ x = .ok a ∧ e = c := by
  unfold of_domain
  rw [of_except_ok]
  rcases x with error | b <;> simp [Except.mapError]

theorem started_iff {job begun : ProcessingJob} {name : String} {now : DateTime}
    {events : List DomainEvent} :
    WorkerExecutor.started name job now = .ok (begun, events) ↔
      job.start name now = .ok begun ∧ events = [WorkerExecutor.started_event begun name] := by
  unfold WorkerExecutor.started
  rcases job.start name now with error | job' <;> simp [bind, Except.bind, pure, Except.pure]
  grind

theorem finished_none_iff {job ended : ProcessingJob} {max_retries : Int} {now : DateTime}
    {events : List DomainEvent} {message : Option Message} :
    WorkerExecutor.finished max_retries job none now = .ok (ended, events, message) ↔
      job.complete now = .ok ended ∧ events = [WorkerExecutor.completed_event ended] ∧
        message = none := by
  unfold WorkerExecutor.finished
  rcases job.complete now with error | job' <;> simp [bind, Except.bind, pure, Except.pure]
  grind

/-- The calls of an execution that completes its job: two before the run, and
two after it. -/
theorem faultless_execution {n : Nat} {faults : List (Option Interruption)} :
    Faultless (2 + n + 2) faults ↔ faults.head?.join = none ∧ faults.tail.head?.join = none ∧
      Faultless n faults.tail.tail ∧ (faults.tail.tail.drop n).head?.join = none ∧
      (faults.tail.tail.drop n).tail.head?.join = none := by
  have htwo : ∀ {faults : List (Option Interruption)}, Faultless 2 faults ↔
      faults.head?.join = none ∧ faults.tail.head?.join = none := by
    intro faults
    rw [faultless_succ, faultless_one]
  have hdrop : faults.drop 2 = faults.tail.tail := by
    simp only [← List.drop_one, List.drop_drop]
  rw [Nat.add_assoc, faultless_add, faultless_add, hdrop, htwo, htwo, and_assoc]

theorem drop_execution {α : Type} (n : Nat) (l : List α) :
    (l.tail.tail.drop n).tail.tail = l.drop (2 + n + 2) := by
  simp only [← List.drop_one, List.drop_drop]

/-- The execution of a job that has no worker. -/
theorem execute_refused {job : ProcessingJob} (h : job.job_type ≠ .DocumentIngestion) :
    WorkerExecutor.execute P settings m job = (do
      let (job, events) ← of_domain (WorkerExecutor.refused job (m.clock 0))
      update_job m job
      events.forM publish
      return job) := by
  unfold WorkerExecutor.execute
  cases htype : job.job_type with
  | DocumentIngestion => exact absurd htype h
  | _ => rfl

/-- The execution of an ingestion job. -/
theorem execute_ingestion {job : ProcessingJob} (h : job.job_type = .DocumentIngestion) :
    WorkerExecutor.execute P settings m job = (do
      let (job, events) ← of_domain (WorkerExecutor.started "IngestionWorker" job (m.clock 0))
      update_job m job
      events.forM publish
      let outcome ← WorkerExecutor.attempted (IngestionWorker.run P m job)
      let (job, events, message) ← of_domain (WorkerExecutor.finished
        settings.processing.max_retries job outcome (m.clock 1))
      update_job m job
      message.forM enqueue
      events.forM publish
      return job) := by
  unfold WorkerExecutor.execute
  rw [h]
  rfl

/-- What an execution that completes its job has found. -/
theorem found_of_completed {job ended : ProcessingJob}
    (h : WorkerExecutor.execute P settings m job c = (.ok ended, e))
    (hended : ended.status = .Completed) :
    job.status = .Queued ∧ job.job_type = .DocumentIngestion ∧ ∃ texts vectors,
      Read P c.world job.tenant_id job.document_id texts vectors ∧
      Faultless (2 + (4 + index_calls texts) + 2) c.faults ∧
      e.faults = c.faults.drop (2 + (4 + index_calls texts) + 2) := by
  by_cases htype : job.job_type = .DocumentIngestion
  · rw [execute_ingestion htype] at h
    unfold update_job at h
    simp only [bind_ok, of_domain_ok, write_ok, pure_ok, Except.ok.injEq] at h
    obtain ⟨⟨begun, _⟩, _, ⟨hstarted, rfl⟩, _, _, ⟨_, h0, _, rfl, rfl⟩, _, _, hpublish,
      outcome, f, hattempted, ⟨job', _, _⟩, _, ⟨hfinished, rfl⟩, _, _, ⟨_, h3, _, rfl, rfl⟩, _, _,
      hnone, _, _, hlast, rfl, rfl⟩ := h
    obtain ⟨hstart, hevents⟩ := started_iff.mp hstarted
    obtain ⟨_, hcases⟩ := WorkerExecutor.finished_cases hfinished
    obtain rfl : outcome = none := by
      rcases hcases with ⟨_, _, hnone⟩ | ⟨hstatus, _⟩ | ⟨hstatus, _⟩
      · exact hnone
      · rw [hstatus] at hended
        cases hended
      · rw [hstatus] at hended
        cases hended
    obtain ⟨_, hmore, rfl⟩ := finished_none_iff.mp hfinished
    obtain ⟨_, rfl⟩ := pure_ok.mp hnone
    subst hevents hmore
    obtain ⟨h1, rfl⟩ := publish_ok.mp (publish_one_ok.mp hpublish)
    obtain ⟨h4, rfl⟩ := publish_ok.mp (publish_one_ok.mp hlast)
    unfold IngestionWorker.run at hattempted
    obtain ⟨_, document, texts, vectors, _, hread, hcalls, rfl⟩ :=
      process_ok.mp (attempted_none.mp hattempted)
    obtain ⟨hqueued, _, horigin, _⟩ := ProcessingJob.start_ok hstart
    have htenant : begun.tenant_id = job.tenant_id := congrArg (fun o => o.2.2.1) horigin
    have hdocument : begun.document_id = job.document_id := congrArg (fun o => o.2.1) horigin
    rw [htenant, hdocument] at hread
    refine ⟨hqueued, htype, texts, vectors, ⟨hread.split, hread.embedded, hread.aligned⟩,
      faultless_execution.mpr ⟨h0, h1, hcalls, h3, h4⟩, ?_⟩
    rw [← drop_execution]
  · rw [execute_refused htype] at h
    simp only [bind_ok, of_domain_ok, pure_ok] at h
    obtain ⟨⟨refused, events⟩, _, ⟨hrefused, rfl⟩, _, _, _, _, _, _, rfl, rfl⟩ := h
    have hfailed := (WorkerExecutor.refused_ok hrefused).2.2.1
    dsimp only at hended
    rw [hended] at hfailed
    cases hfailed

/-- A document that can be read is there. -/
theorem got_of_read (h : Read P w tenant_id d texts vectors) :
    ∃ document, SqlAlchemyDocumentRepository.get w.db tenant_id d = some document := by
  obtain ⟨text, htext, _⟩ := Option.map_eq_some_iff.mp h.split
  simp only [document_text, Option.bind_eq_bind, Option.bind_eq_some_iff] at htext
  obtain ⟨document, hget, _⟩ := htext
  exact ⟨document, hget⟩

/-- A queued ingestion job whose document can be read is completed, if no call
fails. -/
theorem completed_of_found (job : ProcessingJob) (settings : Settings) (m : Moment)
    (hb : c.broken = false) (hqueued : job.status = .Queued)
    (htype : job.job_type = .DocumentIngestion)
    (hread : Read P c.world job.tenant_id job.document_id texts vectors)
    (hf : Faultless (2 + (4 + index_calls texts) + 2) c.faults) :
    ∃ ended e, WorkerExecutor.execute P settings m job c = (.ok ended, e) ∧
      ended.status = .Completed ∧ Wrote c.world.db.jobs e.world.db.jobs job ended ∧
      e.broken = false ∧ e.faults = c.faults.drop (2 + (4 + index_calls texts) + 2) := by
  obtain ⟨h0, h1, hcalls, h3, h4⟩ := faultless_execution.mp hf
  obtain ⟨begun, hstart⟩ : ∃ begun, job.start "IngestionWorker" (m.clock 0) = .ok begun := by
    simp [ProcessingJob.start, hqueued]
  obtain ⟨_, hrunning, horigin, _⟩ := ProcessingJob.start_ok hstart
  obtain ⟨ended, hcomplete⟩ : ∃ ended, begun.complete (m.clock 1) = .ok ended := by
    have hopen : begun.is_terminal = false := by
      rw [ProcessingJob.is_terminal, hrunning]
      rfl
    simp [ProcessingJob.complete, hopen]
  obtain ⟨hcompleted, horigin', _⟩ := ProcessingJob.complete_ok hcomplete
  have hbegun : begun.id = job.id := congrArg Prod.fst horigin
  have hended : ended.id = job.id := (congrArg Prod.fst horigin').trans hbegun
  have htenant : begun.tenant_id = job.tenant_id := congrArg (fun o => o.2.2.1) horigin
  have hdocument : begun.document_id = job.document_id := congrArg (fun o => o.2.1) horigin
  rw [← htenant, ← hdocument] at hread
  obtain ⟨document, hget⟩ := got_of_read hread
  apply Exists.intro ended
  apply Exists.intro
  refine ⟨?_, hcompleted, ?_, ?_, ?_⟩
  · rw [execute_ingestion htype]
    unfold update_job
    simp only [bind_ok, of_domain_ok, write_ok, pure_ok, Except.ok.injEq]
    exact ⟨(begun, _), _, ⟨started_iff.mpr ⟨hstart, rfl⟩, rfl⟩, (), _, ⟨hb, h0, _, rfl, rfl⟩, (),
      _, publish_one_ok.mpr (publish_ok.mpr ⟨h1, rfl⟩), none, _, attempted_none.mpr
        (process_ok.mpr ⟨hb, document, texts, vectors, hget,
          ⟨hread.split, hread.embedded, hread.aligned⟩, hcalls, rfl⟩),
      (ended, _, none), _, ⟨finished_none_iff.mpr ⟨hcomplete, rfl, rfl⟩, rfl⟩, (), _,
      ⟨hb, h3, _, rfl, rfl⟩, (), _, rfl, (), _, publish_one_ok.mpr (publish_ok.mpr ⟨h4, rfl⟩),
      rfl, rfl⟩
  · exact wrote_again m.db_now hended (wrote_update m.db_now hbegun)
  · exact hb
  · exact drop_execution _ _

/-! ## The step -/

theorem rows_of_publish {events : List DomainEvent} (h : events.forM publish c = (.ok u, e)) :
    e.world.db = c.world.db := by
  induction events generalizing c with
  | nil =>
    cases h
    rfl
  | cons event events ih =>
    obtain ⟨_, f, hpublish, hrest⟩ := bind_ok.mp h
    obtain ⟨_, rfl⟩ := publish_ok.mp hpublish
    exact (ih hrest).trans rfl

theorem rows_of_enqueue {message : Option Message} (h : message.forM enqueue c = (.ok u, e)) :
    e.world.db = c.world.db := by
  cases message with
  | none =>
    cases h
    rfl
  | some message =>
    change enqueue message c = (.ok u, e) at h
    unfold enqueue at h
    obtain ⟨_, rfl⟩ := effect_ok.mp h
    rfl

/-- The last write of an execution is that of the job that it returns. -/
theorem status_of_executed {job ended : ProcessingJob}
    (h : WorkerExecutor.execute P settings m job c = (.ok ended, e)) {j : ProcessingJobModel}
    (hj : j ∈ e.world.db.jobs) (hid : j.id = job.id) : j.status = ended.status := by
  have hlast : ended.id = job.id ∧
      ∃ jobs, e.world.db.jobs = SqlAlchemyProcessingJobRepository.update jobs m.db_now ended := by
    by_cases htype : job.job_type = .DocumentIngestion
    · rw [execute_ingestion htype] at h
      unfold update_job at h
      simp only [bind_ok, of_domain_ok, write_ok, pure_ok, Except.ok.injEq] at h
      obtain ⟨⟨begun, _⟩, _, ⟨hstarted, rfl⟩, _, _, _, _, _, _, outcome, f, _, ⟨job', _, _⟩, _,
        ⟨hfinished, rfl⟩, _, _, ⟨_, _, _, rfl, rfl⟩, _, _, hqueue, _, _, hevents, rfl, rfl⟩ := h
      have hsame := (WorkerExecutor.finished_ok hfinished).1
      exact ⟨hsame.trans (WorkerExecutor.started_ok hstarted).2.1, _,
        congrArg Database.jobs ((rows_of_publish hevents).trans (rows_of_enqueue hqueue))⟩
    · rw [execute_refused htype] at h
      unfold update_job at h
      simp only [bind_ok, of_domain_ok, write_ok, pure_ok, Except.ok.injEq] at h
      obtain ⟨⟨refused, events⟩, _, ⟨hrefused, rfl⟩, _, _, ⟨_, _, _, rfl, rfl⟩, _, _, hevents, rfl,
        rfl⟩ := h
      exact ⟨(WorkerExecutor.refused_ok hrefused).1, _,
        congrArg Database.jobs (rows_of_publish hevents)⟩
  obtain ⟨hsame, jobs, hjobs⟩ := hlast
  rw [hjobs] at hj
  rcases SqlAlchemyProcessingJobRepository.mem_update hj with ⟨_, hne⟩ | ⟨j0, _, _, rfl⟩
  · exact absurd (hid.trans hsame.symm) hne
  · exact SqlAlchemyProcessingJobRepository.update_columns_status _ _ _

/-- The request brings the ingestion job `j` to COMPLETED: its message names the
queued job, the document of the job can be read, and none of the calls to the
outside fails. -/
structure Completing (P : Providers) (w : World) (r : Request) (j : ProcessingJobModel) :
    Prop where
  fresh : w.fresh r = true
  message : r.operation = .Handle (WorkerExecutor.message (to_entity j))
  stored : j ∈ w.db.jobs
  queued : j.status = .Queued
  job_type : j.job_type = .DocumentIngestion
  readable : ∃ texts vectors, Read P w j.tenant_id j.document_id texts vectors ∧
    Faultless (10 + index_calls texts) r.moment.faults

theorem faultless_handled {n : Nat} {faults : List (Option Interruption)} :
    Faultless (10 + n) faults ↔ faults.head?.join = none ∧
      Faultless (2 + (4 + n) + 2) faults.tail ∧
      (faults.tail.drop (2 + (4 + n) + 2)).head?.join = none := by
  have hsum : 10 + n = 2 + (4 + n) + 2 + 1 + 1 := by omega
  rw [hsum, faultless_succ, faultless_last]

/-- The handling of a message skips its job or executes it. -/
theorem run_of_handled {message : Message} {job : ProcessingJob}
    (hget : SqlAlchemyProcessingJobRepository.get c.world.db.jobs message.tenant_id
      message.job_id = some job)
    (h : handle_message P settings m message c = (.ok u, e)) :
    c.faults.head?.join = none ∧ (e = { c with faults := c.faults.tail } ∨ ∃ ended,
      WorkerExecutor.execute P settings m job { c with faults := c.faults.tail } =
        (.ok ended, e)) := by
  obtain ⟨_, f, hquery, hrest⟩ := bind_ok.mp h
  obtain ⟨_, h0, rfl, rfl⟩ := query_ok.mp hquery
  refine ⟨h0, ?_⟩
  rw [hget] at hrest
  change (if job.status ≠ .Queued then pure () else _ : Service Unit) _ = _ at hrest
  split at hrest
  · exact Or.inl (pure_ok.mp hrest).2.symm
  · obtain ⟨ended, _, hrun, hreturn⟩ := bind_ok.mp hrest
    obtain ⟨_, rfl⟩ := pure_ok.mp hreturn
    exact Or.inr ⟨ended, hrun⟩

/-- A job that a step has completed was waiting for it. -/
theorem completing_of_completed (h : Sound P w) (hw : w.step P settings r = some w')
    {message : Message} {job : ProcessingJob} (hop : r.operation = .Handle message)
    (hcompleted : completed_job w w' message = some job) :
    ∃ j, job = to_entity j ∧ Completing P w r j := by
  obtain ⟨j, hj, rfl, hopen, j', hj', horigin, hstatus⟩ := completed_row hop hw hcompleted
  have hget : SqlAlchemyProcessingJobRepository.get w.db.jobs message.tenant_id message.job_id =
      some (to_entity j) := by
    unfold completed_job at hcompleted
    split at hcompleted
    · cases hcompleted
    · rename_i job hget
      split at hcompleted
      · exact hget.trans hcompleted
      · cases hcompleted
  have hmessage : message = WorkerExecutor.message (to_entity j) := by
    obtain ⟨row, _, hid, htenant, hsame⟩ := SqlAlchemyProcessingJobRepository.get_row hget
    rw [hsame]
    change (⟨message.tenant_id, message.job_id⟩ : Message) = ⟨row.tenant_id, row.id⟩
    rw [hid, htenant]
  have hfresh : w.fresh r = true := by
    unfold World.step at hw
    split at hw
    · rename_i hfresh
      exact hfresh
    · cases hw
  have hdone : ∃ j' ∈ (w.perform P settings r).2.db.jobs,
      j'.id = j.id ∧ j'.status = .Completed := by
    rw [(step_some.mp hw).2]
    exact ⟨j', hj', congrArg Prod.fst horigin, hstatus⟩
  rw [perform_eq, hop] at hdone
  rcases hend : session ((Operation.Handle message).program P settings r.moment)
    ⟨opened w r, r.moment.faults, false⟩ with ⟨e | response, f⟩
  · -- the rows are given back, so that the job still waits
    rw [hend] at hdone
    obtain ⟨row, hrow, hid, hcompleted'⟩ := hdone
    rw [session_error hend] at hrow
    rw [eq_of_key _ h.rows.jobs hrow hj hid] at hcompleted'
    exact absurd hcompleted' hopen
  · rw [hend] at hdone
    obtain ⟨row, hrow, hid, hcompleted'⟩ := hdone
    obtain ⟨g, hprogram, _, hcommit, rfl⟩ := session_ok.mp hend
    obtain ⟨_, _, hhandle, hreturn⟩ := bind_ok.mp hprogram
    obtain ⟨_, rfl⟩ := pure_ok.mp hreturn
    obtain ⟨h0, rfl | ⟨ended, hrun⟩⟩ := run_of_handled (c := ⟨opened w r, r.moment.faults, false⟩)
      hget hhandle
    · rw [eq_of_key _ h.rows.jobs hrow hj hid] at hcompleted'
      exact absurd hcompleted' hopen
    · have hended : ended.status = .Completed :=
        (status_of_executed hrun hrow hid).symm.trans hcompleted'
      obtain ⟨hqueued, htype, texts, vectors, hread, hcalls, hleft⟩ :=
        found_of_completed hrun hended
      rw [hleft] at hcommit
      exact ⟨j, rfl, hfresh, hmessage ▸ hop, hj, hqueued, htype, texts, vectors,
        ⟨hread.split, hread.embedded, hread.aligned⟩, faultless_handled.mpr ⟨h0, hcalls, hcommit⟩⟩

/-- A waiting job is completed by the step. -/
theorem completed_of_completing (settings : Settings) {j : ProcessingJobModel} (h : Sound P w)
    (hj : Completing P w r j) :
    ∃ w' j', w.step P settings r = some w' ∧ j' ∈ w'.db.jobs ∧ j'.origin = j.origin ∧
      j'.status = .Completed := by
  obtain ⟨hfresh, hmessage, hstored, hqueued, htype, texts, vectors, hread, hcalls⟩ := hj
  obtain ⟨h0, hcalls, hlast⟩ := faultless_handled.mp hcalls
  obtain ⟨ended, f, hrun, hended, hwrote, hbroken, hfaults⟩ := completed_of_found
    (c := ⟨opened w r, r.moment.faults.tail, false⟩) (to_entity j) settings r.moment rfl
    hqueued htype ⟨hread.split, hread.embedded, hread.aligned⟩ hcalls
  obtain ⟨j', hj', horigin, hstatus⟩ := hwrote.written j hstored rfl
  have hhandled : handle_message P settings r.moment (WorkerExecutor.message (to_entity j))
      ⟨opened w r, r.moment.faults, false⟩ = (.ok (), f) := by
    refine bind_ok.mpr ⟨some (to_entity j), _, query_ok.mpr ⟨rfl, h0, ?_, rfl⟩, ?_⟩
    · exact (SqlAlchemyProcessingJobRepository.get_of_mem h.rows.jobs hstored).symm
    · have hstatus : (to_entity j).status = .Queued := hqueued
      change (if (to_entity j).status ≠ .Queued then pure () else _ : Service Unit) _ = _
      rw [if_neg (not_not.mpr hstatus)]
      exact bind_ok.mpr ⟨ended, f, hrun, rfl⟩
  have hsession : session (r.operation.program P settings r.moment)
      ⟨opened w r, r.moment.faults, false⟩ = (.ok .Done, { f with faults := f.faults.tail }) := by
    rw [hmessage]
    refine session_ok.mpr ⟨f, bind_ok.mpr ⟨(), f, hhandled, rfl⟩, hbroken, ?_, rfl⟩
    rw [hfaults]
    exact hlast
  refine ⟨f.world, j', ?_, hj', horigin, hstatus.trans hended⟩
  unfold World.step
  rw [if_pos hfresh, perform_eq, hsession]

end cortex_rag.service
