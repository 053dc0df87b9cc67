-- The law of the drained queue: a queued job ends as its document reads. It is completed,
-- with its chunks in the index, where the document can be ingested, and failed elsewhere.
import CortexRag.CompletedRuns
import CortexRag.Confluence
import CortexRag.Draining
import CortexRag.RelatedLists
import CortexRag.StatusAgreement

open keyed_rows labelled_runs state_programs related_lists

namespace cortex_rag.consumer

open service indexing confluence retry_loop

/-- The document has chunks, with a vector for each. -/
def Readable (P : Providers) (w : World) (tenant_id : String) (document_id : UUID) : Prop :=
  ∃ texts vectors, Read P w tenant_id document_id texts vectors

variable {P : Providers} {settings : Settings} {m : Moment} {s t : Consumer} {w w' : World}
  {tenant_id : String} {d : UUID} {texts : List String} {vectors : List Vector}

/-! ## The pipeline where nothing outside fails -/

/-- A run of the pipeline in which nothing outside fails has read its document, or it
raises and leaves the stores as they are. -/
inductive Processed (P : Providers) (m : Moment) (w : World) (tenant_id : String) (d : UUID) :
    Except Interruption Unit → World → Prop where
  | ingested (document : KnowledgeDocument) (texts : List String) (vectors : List Vector)
      (w' : World) :
      SqlAlchemyDocumentRepository.get w.db tenant_id d = some document →
      Read P w tenant_id d texts vectors →
      Becomes w w' (SqlAlchemyDocumentRepository.update w.db m.db_now
        (ProcessDocumentUseCase.processed document)) w.blobs
        ((chunk_points P tenant_id d texts vectors).foldl (upsert VectorPoint.id) w.points) →
      Processed P m w tenant_id d (.ok ()) w'
  | refused (e : PyException) (w' : World) :
      ¬Readable P w tenant_id d → Becomes w w' w.db w.blobs w.points →
      Processed P m w tenant_id d (.error (.Raised e)) w'

theorem process_settles (P : Providers) (m : Moment) (w : World) (tenant_id : String) (d : UUID) :
    ∃ result w', ProcessDocumentUseCase.execute P m tenant_id d ⟨w, [], false⟩ =
      (result, ⟨w', [], false⟩) ∧ Processed P m w tenant_id d result w' := by
  have hcalm := process_calm (P := P) (m := m) tenant_id d ⟨w, [], false⟩ ⟨rfl, rfl⟩
  have hends := process_ends (P := P) (m := m) (w := w) tenant_id d ⟨w, [], false⟩ rfl
  rcases hp : ProcessDocumentUseCase.execute P m tenant_id d ⟨w, [], false⟩ with
    ⟨e | _, ⟨w', faults, broken⟩⟩
  · rw [hp] at hcalm hends
    obtain ⟨⟨rfl, rfl⟩, hraised⟩ := hcalm
    obtain ⟨points, hpartial, hw'⟩ := hends
    have hnot : ¬Readable P w tenant_id d := by
      rintro ⟨texts, vectors, hread⟩
      obtain ⟨document, hget⟩ := got_of_read hread
      have hok := process_ok (P := P) (m := m) (c := ⟨w, [], false⟩) (u := ()).mpr
        ⟨rfl, document, texts, vectors, hget, hread, fun _ _ => rfl, rfl⟩
      rw [hp] at hok
      cases hok
    rcases e with e | _
    · refine ⟨_, w', rfl, .refused e w' hnot ?_⟩
      rcases hpartial with rfl | ⟨document, hingested⟩
      · exact hw'
      · obtain ⟨texts, vectors, hread, _⟩ := read_of_ingested hingested
        exact absurd ⟨texts, vectors, hread⟩ hnot
    · exact absurd rfl hraised
  · obtain ⟨_, document, texts, vectors, hget, hread, _, hend⟩ := process_ok.mp hp
    rw [List.drop_nil] at hend
    obtain ⟨rfl, rfl, rfl⟩ := Call.mk.inj hend
    exact ⟨_, _, rfl, .ingested document texts vectors _ hget hread ⟨rfl, rfl, rfl, rfl⟩⟩

/-! ## The executor -/

/-- How the execution of a queued job ends where nothing outside fails. -/
inductive Concluded (P : Providers) (m : Moment) (w : World) (job ended : ProcessingJob)
    (w' : World) : Prop where
  | completed (document : KnowledgeDocument) (texts : List String) (vectors : List Vector) :
      ended.status = .Completed →
      SqlAlchemyDocumentRepository.get w.db job.tenant_id job.document_id = some document →
      Read P w job.tenant_id job.document_id texts vectors →
      w'.db.documents = (SqlAlchemyDocumentRepository.update w.db m.db_now
        (ProcessDocumentUseCase.processed document)).documents →
      w'.db.versions = w.db.versions → w'.blobs = w.blobs →
      w'.points = (chunk_points P job.tenant_id job.document_id texts vectors).foldl
        (upsert VectorPoint.id) w.points → Concluded P m w job ended w'
  | raised :
      ended.status = .Failed ∨ ended.status = .Queued →
      ¬Readable P w job.tenant_id job.document_id →
      w'.db.documents = w.db.documents → w'.db.versions = w.db.versions →
      w'.blobs = w.blobs → w'.points = w.points → Concluded P m w job ended w'

theorem attempted_settles {run : Service Unit} {c c' : Call} {result : Except Interruption Unit}
    (h : run c = (result, c')) :
    WorkerExecutor.attempted run c = match result with
      | .ok _ => (.ok none, c')
      | .error (.Raised e) => (.ok (some e.str), c')
      | .error .Crashed => (.error .Crashed, c') := by
  unfold WorkerExecutor.attempted attempt
  simp only [bind, h]
  rcases result with (e | _) | _ <;> rfl

/-- The world when the worker of a job begins. -/
def begun_world (m : Moment) (w : World) (begun : ProcessingJob) (events : List DomainEvent) :
    World :=
  { w with
    db := { w.db with jobs := SqlAlchemyProcessingJobRepository.update w.db.jobs m.db_now begun }
    events := w.events ++ events }

/-- The worker returns, or its exception is caught, and the outcome decides how the job
ends. -/
theorem worker_settles {job begun : ProcessingJob} (htenant : begun.tenant_id = job.tenant_id)
    (hdocument : begun.document_id = job.document_id) (first : List DomainEvent)
    (max_retries : Int) :
    ∃ outcome w', WorkerExecutor.attempted (IngestionWorker.run P m begun)
        ⟨begun_world m w begun first, [], false⟩ = (.ok outcome, ⟨w', [], false⟩) ∧
      w'.db.jobs = SqlAlchemyProcessingJobRepository.update w.db.jobs m.db_now begun ∧
      ∀ ended events messages, Outcome max_retries outcome begun ended events messages →
        Concluded P m w job ended w' := by
  obtain ⟨result, w', hrun, hprocessed⟩ := process_settles P m (begun_world m w begun first)
    begun.tenant_id begun.document_id
  have hcaught := attempted_settles hrun
  rw [htenant, hdocument] at hprocessed
  cases hprocessed with
  | ingested document texts vectors _ hget hread hw' =>
    refine ⟨none, w', hcaught, by rw [hw'.db]; rfl, ?_⟩
    intro ended events messages hended
    cases hended with
    | completed _ hstatus =>
      exact .completed document texts vectors hstatus hget
        ⟨hread.split, hread.embedded, hread.aligned⟩ (by rw [hw'.db]; rfl) (by rw [hw'.db]; rfl)
        hw'.blobs hw'.points
    | failed text hraised => cases hraised
    | queued text hraised => cases hraised
  | refused e _ hnot hw' =>
    have hnot : ¬Readable P w job.tenant_id job.document_id :=
      fun ⟨texts, vectors, h⟩ => hnot ⟨texts, vectors, h.split, h.embedded, h.aligned⟩
    have hraised : ∀ ended : ProcessingJob, ended.status = .Failed ∨ ended.status = .Queued →
        Concluded P m w job ended w' := fun ended hstatus =>
      .raised hstatus hnot (by rw [hw'.db]; rfl) (by rw [hw'.db]; rfl) hw'.blobs hw'.points
    refine ⟨some e.str, w', hcaught, by rw [hw'.db]; rfl, ?_⟩
    intro ended events messages hended
    cases hended with
    | completed hreturned => cases hreturned
    | failed _ _ _ hstatus => exact hraised ended (Or.inl hstatus)
    | queued _ _ _ hstatus => exact hraised ended (Or.inr hstatus)

theorem execute_settles (P : Providers) (settings : Settings) (m : Moment) (w : World)
    {job : ProcessingJob} (hqueued : job.status = .Queued)
    (htype : job.job_type = .DocumentIngestion) :
    ∃ ended w', WorkerExecutor.execute P settings m job ⟨w, [], false⟩ =
        (.ok ended, ⟨w', [], false⟩) ∧
      Wrote w.db.jobs w'.db.jobs job ended ∧ Concluded P m w job ended w' := by
  have hstart : job.start "IngestionWorker" (m.clock 0) = .ok { job with
      status := .Running, worker_name := some "IngestionWorker"
      started_at := some (m.clock 0), progress := 0, error_message := none } := by
    simp [ProcessingJob.start, hqueued]
  generalize hbegun : { job with
    status := .Running, worker_name := some "IngestionWorker"
    started_at := some (m.clock 0), progress := 0, error_message := none : ProcessingJob } = begun
    at hstart
  have hid : begun.id = job.id := by rw [← hbegun]
  have hopen : begun.is_terminal = false := by
    rw [← hbegun]
    rfl
  have hstarted : WorkerExecutor.started "IngestionWorker" job (m.clock 0) =
      .ok (begun, [WorkerExecutor.started_event begun "IngestionWorker"]) := by
    rw [WorkerExecutor.started, hstart]
    rfl
  obtain ⟨outcome, w', hattempted, hjobs, hconcluded⟩ := worker_settles (P := P) (m := m) (w := w)
    (by rw [← hbegun] : begun.tenant_id = job.tenant_id)
    (by rw [← hbegun] : begun.document_id = job.document_id)
    [WorkerExecutor.started_event begun "IngestionWorker"] settings.processing.max_retries
  obtain ⟨ended, events, message, hfinished, hsame, houtcome⟩ :=
    finished_of_open settings.processing.max_retries hopen outcome (m.clock 1)
  have hended : ended.id = job.id := (congrArg (fun o => o.1.1) hsame).trans hid
  refine ⟨ended, { w' with
    db := { w'.db with
      jobs := SqlAlchemyProcessingJobRepository.update w'.db.jobs m.db_now ended }
    queue := w'.queue ++ message.toList
    events := w'.events ++ events }, ?_, ?_, ?_⟩
  · unfold WorkerExecutor.execute
    rw [htype]
    refine (of_domain_then hstarted).trans ?_
    refine update_job_then.trans ?_
    refine publish_then.trans ?_
    refine bind_ok.mpr ⟨outcome, ⟨w', [], false⟩, hattempted, ?_⟩
    refine (of_domain_then hfinished).trans ?_
    refine update_job_then.trans ?_
    refine enqueue_then.trans ?_
    exact publish_then
  · change Wrote w.db.jobs (SqlAlchemyProcessingJobRepository.update w'.db.jobs m.db_now ended) _ _
    rw [hjobs]
    exact wrote_again m.db_now hended (wrote_update m.db_now hid)
  · cases hconcluded ended events message.toList houtcome with
    | completed document texts vectors hstatus hget hread hdocuments hversions hblobs hpoints =>
      exact .completed document texts vectors hstatus hget hread hdocuments hversions hblobs hpoints
    | raised hstatus hnot hdocuments hversions hblobs hpoints =>
      exact .raised hstatus hnot hdocuments hversions hblobs hpoints

/-! ## A turn -/

/-- What a turn in which nothing outside fails makes of the jobs and of the index: it skips
the message, or executes its job. -/
def Turns (P : Providers) (m : Moment) (w w' : World) : Prop :=
  (w'.db = w.db ∧ w'.blobs = w.blobs ∧ w'.points = w.points) ∨
    ∃ row ∈ w.db.jobs, ∃ ended, row.status = .Queued ∧
      Wrote w.db.jobs w'.db.jobs (to_entity row) ended ∧
      Concluded P m w (to_entity row) ended w'

theorem handle_settles (P : Providers) (settings : Settings) (m : Moment)
    (hi : status_agreement.Ingestions w.db) (message : Message) :
    ∃ w', handle_message P settings m message ⟨w, [], false⟩ = (.ok (), ⟨w', [], false⟩) ∧
      Turns P m w w' := by
  have hstays : Turns P m w w := Or.inl ⟨rfl, rfl, rfl⟩
  rcases hget : SqlAlchemyProcessingJobRepository.get w.db.jobs message.tenant_id
    message.job_id with _ | job
  · refine ⟨w, bind_ok.mpr ⟨none, _, query_ok.mpr ⟨rfl, rfl, hget.symm, rfl⟩, rfl⟩, hstays⟩
  · obtain ⟨row, hrow, _, _, rfl⟩ := SqlAlchemyProcessingJobRepository.get_row hget
    by_cases hqueued : row.status = .Queued
    · have hjob : (to_entity row).status = .Queued ∧
          (to_entity row).job_type = .DocumentIngestion := ⟨hqueued, hi row hrow⟩
      obtain ⟨ended, w', hexecute, hwrote, hconcluded⟩ :=
        execute_settles P settings m w hjob.1 hjob.2
      refine ⟨w',
        bind_ok.mpr ⟨some (to_entity row), _, query_ok.mpr ⟨rfl, rfl, hget.symm, rfl⟩, ?_⟩,
        Or.inr ⟨row, hrow, ended, hqueued, hwrote, hconcluded⟩⟩
      change (if row.status ≠ .Queued then pure () else _ : Service Unit) _ = _
      rw [if_neg (not_not.mpr hqueued)]
      exact bind_ok.mpr ⟨ended, _, hexecute, rfl⟩
    · refine ⟨w, bind_ok.mpr ⟨some (to_entity row), _, query_ok.mpr ⟨rfl, rfl, hget.symm, rfl⟩, ?_⟩,
        hstays⟩
      change (if row.status ≠ .Queued then pure () else _ : Service Unit) _ = _
      rw [if_pos hqueued]
      rfl

/-- The ids that a call takes have no say in how an execution ends. -/
theorem concluded_of_opened {r : Request} {job ended : ProcessingJob}
    (h : Concluded P m (opened w r) job ended w') : Concluded P m w job ended w' := by
  cases h with
  | completed document texts vectors hstatus hget hread hdocuments hversions hblobs hpoints =>
    exact .completed document texts vectors hstatus hget
      ⟨hread.split, hread.embedded, hread.aligned⟩ hdocuments hversions hblobs hpoints
  | raised hstatus hnot hdocuments hversions hblobs hpoints =>
    exact .raised hstatus
      (fun ⟨texts, vectors, h⟩ => hnot ⟨texts, vectors, h.split, h.embedded, h.aligned⟩)
      hdocuments hversions hblobs hpoints

theorem turn_settles (hi : status_agreement.Ingestions s.world.db) (hquiet : m.faults = [])
    (h : turn P settings s m = some t) : Turns P m s.world t.world := by
  obtain ⟨message, rest, hwaiting, hstep⟩ := step_of_turn h
  rw [turn_eq hwaiting, if_pos (fresh_of_step hstep), perform_eq] at h
  have hopened : status_agreement.Ingestions
      (opened s.world { moment := m, operation := .Handle message }).db := hi
  obtain ⟨w', hhandle, hturns⟩ := handle_settles P settings m hopened message
  have hsession : session ((Operation.Handle message).program P settings m)
      ⟨opened s.world { moment := m, operation := .Handle message }, m.faults, false⟩ =
        (.ok .Done, ⟨w', [], false⟩) := by
    rw [hquiet]
    exact session_ok.mpr ⟨_, bind_ok.mpr ⟨_, _, hhandle, pure_ok.mpr ⟨rfl, rfl⟩⟩, rfl, rfl, rfl⟩
  simp only [hsession] at h
  cases h
  rcases hturns with hstays | ⟨row, hrow, ended, hqueued, hwrote, hconcluded⟩
  · exact Or.inl hstays
  · exact Or.inr ⟨row, hrow, ended, hqueued, hwrote, concluded_of_opened hconcluded⟩

/-! ## What the turns keep -/

/-- The document is PROCESSED, and the chunks that it had before are in the index. -/
structure Found (P : Providers) (before w : World) (d : UUID) : Prop where
  documents : ∀ m ∈ w.db.documents, m.id = d → m.deleted_at = none → m.status = .Processed
  points : indexed_points P before d ⊆ {p | p ∈ w.points}

/-- The job still waits, or it has ended as its document read before. -/
inductive Decided (P : Providers) (before w : World) (j j' : ProcessingJobModel) : Prop where
  | waits : j'.status = .Queued → Decided P before w j j'
  | completed : j'.status = .Completed → Readable P before j.tenant_id j.document_id →
      Found P before w j.document_id → Decided P before w j j'
  | failed : j'.status = .Failed → ¬Readable P before j.tenant_id j.document_id →
      Decided P before w j j'

structure Draining (P : Providers) (before : World) (s : Consumer) : Prop where
  ingestions : status_agreement.Ingestions s.world.db
  texts : ∀ tenant_id d, document_text P s.world tenant_id d = document_text P before tenant_id d
  jobs : ∀ j ∈ before.db.jobs, j.status = .Queued →
    ∃ j' ∈ s.world.db.jobs, j'.origin = j.origin ∧ Decided P before s.world j j'

variable {before : World}

theorem get_of_rows {db db' : Database} (hdocuments : db'.documents = db.documents)
    (hversions : db'.versions = db.versions) (tenant_id : String) (d : UUID) :
    SqlAlchemyDocumentRepository.get db' tenant_id d =
      SqlAlchemyDocumentRepository.get db tenant_id d := by
  unfold SqlAlchemyDocumentRepository.get SqlAlchemyDocumentRepository.live_row
  unfold SqlAlchemyDocumentRepository.load_version
  rw [hdocuments, hversions]

/-- A turn changes the text of no document. -/
theorem text_of_turns (h : Sound P w) (hturns : Turns P m w w') (tenant_id : String) (d : UUID) :
    document_text P w' tenant_id d = document_text P w tenant_id d := by
  rw [document_text_eq, document_text_eq]
  rcases hturns with ⟨hdb, hblobs, _⟩ | ⟨row, _, ended, _, _, hconcluded⟩
  · rw [hdb, hblobs]
  · cases hconcluded with
    | completed document _ _ _ hget _ hdocuments hversions hblobs _ =>
      rw [hblobs, get_of_rows hdocuments hversions, active_of_processed h.rows hget]
    | raised _ _ hdocuments hversions hblobs _ =>
      rw [hblobs, get_of_rows hdocuments hversions]

/-- What was read before is read now. -/
theorem read_before (htexts : document_text P w tenant_id d = document_text P before tenant_id d) :
    Read P w tenant_id d texts vectors ↔ Read P before tenant_id d texts vectors := by
  constructor
  · rintro ⟨hsplit, hembedded, haligned⟩
    exact ⟨htexts ▸ hsplit, hembedded, haligned⟩
  · rintro ⟨hsplit, hembedded, haligned⟩
    exact ⟨htexts ▸ hsplit, hembedded, haligned⟩

section Turns

variable (hk : Keyed KnowledgeDocumentModel.id before.db.documents)
  (hnames : Set.InjOn P.uuid5 (names P before))

include hk hnames

/-- An execution that completes its job leaves its document found, and those that were. -/
theorem found_of_completed (h : Sound P w) {document : KnowledgeDocument}
    (hget : SqlAlchemyDocumentRepository.get w.db tenant_id d = some document)
    (hread : Read P before tenant_id d texts vectors)
    (hdocuments : w'.db.documents = (SqlAlchemyDocumentRepository.update w.db m.db_now
      (ProcessDocumentUseCase.processed document)).documents)
    (hpoints : w'.points =
      (chunk_points P tenant_id d texts vectors).foldl (upsert VectorPoint.id) w.points)
    {d' : UUID} (hd' : d' = d ∨ Found P before w d') : Found P before w' d' := by
  have hnew : Keyed VectorPoint.id (chunk_points P tenant_id d texts vectors) :=
    keyed_chunk_points hread hnames
  have hchunks : indexed_points P before d = {p | p ∈ chunk_points P tenant_id d texts vectors} :=
    indexed_points_eq hk hread
  refine ⟨?_, ?_⟩
  · intro m' hm' hid hlive
    rw [hdocuments] at hm'
    rcases row_of_update h.rows (ProcessDocumentUseCase.processed document) hget rfl rfl hm' with
      ⟨hold, hne⟩ | ⟨_, _, _, _, _, _, _, hstatus, _⟩
    · rcases hd' with rfl | hfound
      · exact absurd hid hne
      · exact hfound.documents m' hold hid hlive
    · exact hstatus
  · intro p hp
    change p ∈ w'.points
    rw [hpoints, mem_upserts _ hnew]
    rcases hd' with rfl | hfound
    · rw [hchunks] at hp
      exact Or.inl hp
    · by_cases hid : p.id ∈ (chunk_points P tenant_id d texts vectors).map VectorPoint.id
      · obtain ⟨q, hq, hqid⟩ := List.mem_map.mp hid
        have hsame : q = p := indexed_points_injective hk hnames
          (Set.mem_iUnion.mpr ⟨d, hchunks ▸ hq⟩) (Set.mem_iUnion.mpr ⟨d', hp⟩) hqid
        exact Or.inl (hsame ▸ hq)
      · exact Or.inr ⟨hfound.points hp, hid⟩

theorem found_of_turns (h : Sound P w)
    (htexts : ∀ tenant_id d, document_text P w tenant_id d = document_text P before tenant_id d)
    (hturns : Turns P m w w') (hfound : Found P before w d) : Found P before w' d := by
  rcases hturns with ⟨hdb, _, hpoints⟩ | ⟨row, _, ended, _, _, hconcluded⟩
  · exact ⟨hdb ▸ hfound.documents, hpoints ▸ hfound.points⟩
  · cases hconcluded with
    | completed document _ _ _ hget hread hdocuments _ _ hpoints =>
      exact found_of_completed hk hnames h hget ((read_before (htexts _ _)).1 hread) hdocuments
        hpoints (Or.inr hfound)
    | raised _ _ hdocuments _ _ hpoints =>
      exact ⟨hdocuments ▸ hfound.documents, hpoints ▸ hfound.points⟩

theorem decided_of_turns (h : Sound P w)
    (htexts : ∀ tenant_id d, document_text P w tenant_id d = document_text P before tenant_id d)
    (hturns : Turns P m w w') {j j' : ProcessingJobModel} (hj' : j' ∈ w.db.jobs)
    (horigin : j'.origin = j.origin) (hdecided : Decided P before w j j') :
    ∃ j'' ∈ w'.db.jobs, j''.origin = j.origin ∧ Decided P before w' j j'' := by
  -- a job that the turn does not execute
  have hkept : Decided P before w' j j' := by
    cases hdecided with
    | waits hstatus => exact .waits hstatus
    | completed hstatus hreadable hfound =>
      exact .completed hstatus hreadable (found_of_turns hk hnames h htexts hturns hfound)
    | failed hstatus hnot => exact .failed hstatus hnot
  rcases hturns with ⟨hdb, _, _⟩ | ⟨row, hrow, ended, hqueued, hwrote, hconcluded⟩
  · exact ⟨j', hdb ▸ hj', horigin, hkept⟩
  · by_cases hid : j'.id = row.id
    · obtain rfl := eq_of_key _ h.rows.jobs hj' hrow hid
      obtain ⟨j'', hj'', horigin', hstatus⟩ := hwrote.written j' hj' rfl
      refine ⟨j'', hj'', horigin'.trans horigin, ?_⟩
      have htenant : j'.tenant_id = j.tenant_id := congrArg (fun o => o.2.2.1) horigin
      have hdocument : j'.document_id = j.document_id := congrArg (fun o => o.2.1) horigin
      cases hconcluded with
      | completed document texts vectors hcompleted hget hread hdocuments _ _ hpoints =>
        have hbefore := (read_before (htexts _ _)).1 hread
        refine .completed (hstatus.trans hcompleted) ?_ ?_
        · rw [← htenant, ← hdocument]
          exact ⟨texts, vectors, hbefore⟩
        · exact found_of_completed hk hnames h hget hbefore hdocuments hpoints
            (Or.inl hdocument.symm)
      | raised hended hnot _ _ _ _ =>
        rcases hended with hfailed | hagain
        · refine .failed (hstatus.trans hfailed) ?_
          rw [← htenant, ← hdocument]
          rintro ⟨texts, vectors, hread⟩
          exact hnot ⟨texts, vectors, (read_before (htexts _ _)).2 hread⟩
        · exact .waits (hstatus.trans hagain)
    · exact ⟨j', hwrote.kept j' hj' hid, horigin, hkept⟩

theorem draining_turn (hs : Settled P s) (hquiet : m.faults = [])
    (hturn : turn P settings s m = some t) (h : Draining P before s) : Draining P before t := by
  have hturns := turn_settles h.ingestions hquiet hturn
  obtain ⟨_, _, _, hstep⟩ := step_of_turn hturn
  refine ⟨status_agreement.ingestions_step hs.sound h.ingestions hstep, ?_, ?_⟩
  · intro tenant_id d
    rw [text_of_turns hs.sound hturns, h.texts]
  · intro j hj hqueued
    obtain ⟨j', hj', horigin, hdecided⟩ := h.jobs j hj hqueued
    exact decided_of_turns hk hnames hs.sound h.texts hturns hj' horigin hdecided

end Turns

/-- Every job is an ingestion job. -/
theorem ingestions_of_reachable (h : Reachable (step P settings) {} s) :
    status_agreement.Ingestions s.world.db := by
  have hboth : Settled P s ∧ status_agreement.Ingestions s.world.db := by
    refine reachable_invariant (I := fun s => Settled P s ∧ status_agreement.Ingestions s.world.db)
      ⟨settled_init P, ?_⟩ ?_ h
    · intro j hj
      cases hj
    · rintro s event t ⟨hs, hi⟩ hstep
      refine ⟨settled_step hs hstep, ?_⟩
      cases event with
      | Serve r =>
        simp only [step, Option.ite_none_right_eq_some, Option.map_eq_some_iff] at hstep
        obtain ⟨_, w', hw, rfl⟩ := hstep
        exact status_agreement.ingestions_step hs.sound hi hw
      | Turn m =>
        obtain ⟨_, _, _, hw⟩ := step_of_turn hstep
        exact status_agreement.ingestions_step hs.sound hi hw
  exact hboth.2

/-- From every state that the service and its consumer reach, whatever has failed and
crashed on the way: where nothing outside fails any more, each queued job ends as its
document reads. Where the chunks of the document can be read and embedded, the job is
completed, the document is PROCESSED and all its chunks are in the index. Elsewhere the job
has failed. -/
theorem each_queued_job_ends_as_its_document_reads (h : Reachable (step P settings) {} s)
    {ms : List Moment} (hquiet : Undisturbed s ms) (henough : backlog settings s ≤ ms.length)
    (hnames : Set.InjOn P.uuid5 (names P s.world)) :
    ∃ k ≤ backlog settings s, ∃ t, run (step P settings) s ((ms.take k).map .Turn) = some t ∧
      t.bodies = [] ∧ ∀ j ∈ s.world.db.jobs, j.status = .Queued →
        ∃ j' ∈ t.world.db.jobs, j'.id = j.id ∧
          (Readable P s.world j.tenant_id j.document_id →
            j'.status = .Completed ∧
            (∃ document, SqlAlchemyDocumentRepository.get t.world.db j.tenant_id j.document_id =
              some document ∧ document.status = .Processed) ∧
            indexed_points P s.world j.document_id ⊆ {p | p ∈ t.world.points}) ∧
          (¬Readable P s.world j.tenant_id j.document_id → j'.status = .Failed) := by
  have hsettled := settled_of_reachable h
  have hk := hsettled.sound.rows.documents
  have hstart : Draining P s.world s := ⟨ingestions_of_reachable h, fun _ _ => rfl,
    fun j hj hqueued => ⟨j, hj, rfl, .waits hqueued⟩⟩
  obtain ⟨k, hk, t, hrun, hdone, ht, hdraining⟩ := drained
    (fun _ _ _ hs hcalm hturn => draining_turn hk hnames hs hcalm hturn) hsettled hstart hquiet
    henough
  refine ⟨k, hk, t, hrun, by rw [Consumer.bodies, hdone, List.map_nil], ?_⟩
  intro j hj hqueued
  obtain ⟨j', hj', horigin, hdecided⟩ := hdraining.jobs j hj hqueued
  refine ⟨j', hj', congrArg (fun o => o.1) horigin, ?_⟩
  have hended : j'.status ≠ .Queued := by
    intro hwaits
    rcases ht.jobs j' hj' with hterminal | ⟨_, hmessage⟩
    · rw [hwaits] at hterminal
      revert hterminal
      decide
    · rw [hdone] at hmessage
      cases hmessage
  cases hdecided with
  | waits hstatus => exact absurd hstatus hended
  | completed hstatus hreadable hfound =>
    refine ⟨fun _ => ⟨hstatus, ?_, hfound.points⟩, fun hnot => absurd hreadable hnot⟩
    obtain ⟨texts, vectors, hread⟩ := hreadable
    have hsplit := ((read_before (hdraining.texts _ _)).2 hread).split
    rw [document_text_eq] at hsplit
    rcases hget : SqlAlchemyDocumentRepository.get t.world.db j.tenant_id j.document_id with
      _ | document
    · rw [hget] at hsplit
      cases hsplit
    · obtain ⟨row, hrow, hid, _, hlive, rfl⟩ := SqlAlchemyDocumentRepository.get_row hget
      exact ⟨_, rfl, hfound.documents row hrow hid hlive⟩
  | failed hstatus hnot => exact ⟨fun hreadable => absurd hreadable hnot, fun _ => hstatus⟩

/-- Two uploads, the deletion of the second document, and a run on the first one that
crashes at its commit, when its chunks are in the index. -/
def two_jobs : List Event :=
  let message : Message := { tenant_id := "acme", job_id := (plain.ids 0).job }
  [.Serve (plain.request 0 (plain.upload [65, 10, 66])),
    .Serve (plain.request 1 (plain.upload [67])),
    .Serve (plain.request 2 (.Delete ⟨"acme", (plain.ids 1).document⟩)),
    .Turn (plain.crashing 11 (plain.request 3 (.Handle message))).moment]

theorem one_job_is_completed_and_one_has_failed :
    ∃ s, run (step plain.providers {}) {} two_jobs = some s ∧ s.bodies.length = 2 ∧ ∃ k ≤ 8, ∃ t,
      run (step plain.providers {}) s
        ((([4, 5, 6, 7, 8, 9, 10, 11].map plain.moment).take k).map .Turn) = some t ∧
      t.bodies = [] ∧
      (∃ j ∈ t.world.db.jobs, j.id = (plain.ids 0).job ∧ j.status = .Completed) ∧
      ∃ j ∈ t.world.db.jobs, j.id = (plain.ids 1).job ∧ j.status = .Failed := by
  have hends : (run (step plain.providers {}) {} two_jobs).map (fun s => decide (
      s.bodies.length = 2 ∧ backlog {} s = 8 ∧
      (∀ id ∈ ([4, 5, 6, 7, 8, 9, 10, 11].map plain.moment).flatMap (fun m => m.ids.all),
        id ∉ s.world.issued) ∧
      (document_text plain.providers s.world "acme" (plain.ids 0).document).map
        (plain.providers.split_text {}) = some ["A", "B"] ∧
      document_text plain.providers s.world "acme" (plain.ids 1).document = none ∧
      (∀ n < 2, ∃ j ∈ s.world.db.jobs, j.id = (plain.ids n).job ∧ j.tenant_id = "acme" ∧
        j.document_id = (plain.ids n).document ∧ j.status = .Queued) ∧
      (∀ p ∈ s.world.points, p.payload.document_id = (plain.ids 0).document.str ∧
        p.payload.chunk_index < 2) ∧
      ∀ m ∈ s.world.db.documents, ∀ texts ∈
        (document_text plain.providers s.world m.tenant_id m.id).map
          (plain.providers.split_text {}),
        m.id = (plain.ids 0).document ∧ texts.length ≤ 2)) = some true := by
    decide +kernel
  have hhashes : ∀ i < 2, ∀ j < 2, plain.providers.uuid5 (chunk_name (plain.ids 0).document i) =
      plain.providers.uuid5 (chunk_name (plain.ids 0).document j) →
        chunk_name (plain.ids 0).document i = chunk_name (plain.ids 0).document j := by
    decide +kernel
  obtain ⟨s, hs, hfacts⟩ := Option.map_eq_some_iff.mp hends
  obtain ⟨hwait, hbacklog, hnew, htexts, hnone, hqueued, hpoints, hdocuments⟩ :=
    of_decide_eq_true hfacts
  have hnamed : ∀ name ∈ names plain.providers s.world,
      ∃ i < 2, name = chunk_name (plain.ids 0).document i := by
    rintro name (⟨p, hp, d, hd, rfl⟩ | ⟨m, hm, texts, hread, i, hi, rfl⟩)
    · obtain ⟨hdocument, hindex⟩ := hpoints p hp
      rw [UUID.str_injective _ _ (hd.symm.trans hdocument)]
      exact ⟨p.payload.chunk_index, hindex, rfl⟩
    · obtain ⟨hid, hshort⟩ := hdocuments m hm texts hread
      exact ⟨i, by omega, by rw [hid]⟩
  have hnames : Set.InjOn plain.providers.uuid5 (names plain.providers s.world) := by
    intro a ha b hb hab
    obtain ⟨i, hi, rfl⟩ := hnamed a ha
    obtain ⟨j, hj, rfl⟩ := hnamed b hb
    exact hhashes i hi j hj hab
  have hquiet : Undisturbed s ([4, 5, 6, 7, 8, 9, 10, 11].map plain.moment) :=
    ⟨by simp [plain.moment], by decide +kernel, hnew⟩
  obtain ⟨k, hk, t, hrun, hdone, hjobs⟩ :=
    each_queued_job_ends_as_its_document_reads ⟨_, hs⟩ hquiet (by rw [hbacklog]; rfl) hnames
  refine ⟨s, hs, hwait, k, by omega, t, hrun, hdone, ?_, ?_⟩
  · obtain ⟨j, hj, hid, htenant, hdocument, hstatus⟩ := hqueued 0 (by omega)
    obtain ⟨j', hj', hsame, hreads, _⟩ := hjobs j hj hstatus
    have hreadable : Readable plain.providers s.world j.tenant_id j.document_id := by
      rw [htenant, hdocument]
      exact ⟨_, [[⟨1⟩], [⟨1⟩]], htexts, fun _ => rfl, rfl⟩
    exact ⟨j', hj', hsame.trans hid, (hreads hreadable).1⟩
  · obtain ⟨j, hj, hid, htenant, hdocument, hstatus⟩ := hqueued 1 (by omega)
    obtain ⟨j', hj', hsame, _, hfails⟩ := hjobs j hj hstatus
    have hnot : ¬Readable plain.providers s.world j.tenant_id j.document_id := by
      rw [htenant, hdocument]
      rintro ⟨texts, vectors, hread⟩
      have hsplit := hread.split
      rw [hnone] at hsplit
      cases hsplit
    exact ⟨j', hj', hsame.trans hid, hfails hnot⟩

end cortex_rag.consumer
