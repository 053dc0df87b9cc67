-- What an operation of the service can do to the world: one lemma for each use
-- case, and one for the step that is made of them.
import CortexRag.Runs
import CortexRag.Service

open keyed_rows state_programs

namespace cortex_rag.service

/-! ## Calls from a known world -/

/-- From the world `w` the program ends in a world of `Q`, or fails in a world
of `R`. -/
def Ends {α : Type} (w : World) (p : Service α) (Q : α → World → Prop) (R : World → Prop) : Prop :=
  Triple (fun c => c.world = w) p (fun a c => Q a c.world) (fun _ c => R c.world)

variable {α β : Type} {w : World} {Q : α → World → Prop} {R : World → Prop}

theorem ends_pure {a : α} (h : Q a w) : Ends w (pure a) Q R :=
  triple_pure (fun c hc => by rw [hc]; exact h)

theorem ends_raise {e : Interruption} (h : R w) : Ends w (raise e) Q R :=
  triple_raise (fun c hc => by rw [hc]; exact h)

theorem ends_bind {p : Service α} {f : α → Service β} {M : α → World → Prop}
    {Q : β → World → Prop} (hp : Ends w p M R) (hf : ∀ a w', M a w' → Ends w' (f a) Q R) :
    Ends w (p >>= f) Q R :=
  triple_bind hp (fun a c hc => hf a c.world hc c rfl)

theorem ends_external {f : Unit → Service β} {Q : β → World → Prop} (hR : R w)
    (h : Ends w (f ()) Q R) : Ends w (external >>= f) Q R := by
  refine ends_bind (M := fun _ w' => w' = w) ?_ (fun _ w' hw' => by rw [hw']; exact h)
  intro c hc
  unfold external
  split
  · exact hc ▸ hR
  · exact hc

theorem ends_of_except {x : Except PyException α} {f : α → Service β} {Q : β → World → Prop}
    (hR : R w) (h : ∀ a, x = .ok a → Ends w (f a) Q R) : Ends w (of_except x >>= f) Q R := by
  refine ends_bind (M := fun a w' => x = .ok a ∧ w' = w) ?_ ?_
  · intro c hc
    unfold of_except
    split
    · exact ⟨rfl, hc⟩
    · exact hc ▸ hR
  · rintro a w' ⟨ha, rfl⟩
    exact h a ha

theorem ends_of_domain {x : Except DomainError α} {f : α → Service β} {Q : β → World → Prop}
    (hR : R w) (h : ∀ a, x = .ok a → Ends w (f a) Q R) : Ends w (of_domain x >>= f) Q R := by
  refine ends_of_except hR ?_
  intro a ha
  rcases x with e | b
  · cases ha
  · cases ha
    exact h a rfl

/-- A statement reads and writes the rows, or fails with the rows as they were. -/
theorem ends_statement {g : Database → Except PyException (α × Database)} {f : α → Service β}
    {Q : β → World → Prop} (hR : R w)
    (h : ∀ a db, g w.db = .ok (a, db) → Ends { w with db } (f a) Q R) :
    Ends w (statement g >>= f) Q R := by
  refine ends_bind (M := fun a w' => ∃ db, g w.db = .ok (a, db) ∧ w' = { w with db }) ?_ ?_
  · intro c hc
    subst hc
    unfold statement
    split
    · exact hR
    · unfold external
      split
      · rename_i e d he
        split at he
        · cases he
          exact hR
        · cases he
      · rename_i d he
        split at he
        · cases he
        · cases he
          dsimp only
          split
          · exact hR
          · rename_i a db hg
            exact ⟨db, hg, rfl⟩
  · rintro a w' ⟨db, hg, rfl⟩
    exact h a db hg

theorem ends_query {g : Database → α} {f : α → Service β} {Q : β → World → Prop} (hR : R w)
    (h : Ends w (f (g w.db)) Q R) : Ends w (query g >>= f) Q R := by
  refine ends_statement hR ?_
  intro a db he
  cases he
  exact h

theorem ends_write {g : Database → Except PyException Database} {f : Unit → Service β}
    {Q : β → World → Prop} (hR : R w)
    (h : ∀ db, g w.db = .ok db → Ends { w with db } (f ()) Q R) :
    Ends w (write g >>= f) Q R := by
  refine ends_statement hR ?_
  intro a db he
  rcases hg : g w.db with e | db'
  · rw [hg] at he
    cases he
  · rw [hg] at he
    cases he
    exact h _ hg

theorem ends_effect {g : World → World} {f : Unit → Service β} {Q : β → World → Prop} (hR : R w)
    (h : Ends (g w) (f ()) Q R) : Ends w (effect g >>= f) Q R := by
  have hrest : Ends w (effect g) (fun _ w' => w' = g w) R := by
    refine ends_external hR ?_
    intro c hc
    exact congrArg g hc
  exact ends_bind hrest (fun _ w' hw' => by rw [hw']; exact h)

theorem ends_weaken {p : Service α} {Q' : α → World → Prop} {R' : World → Prop}
    (h : Ends w p Q' R') (hQ : ∀ a w', Q' a w' → Q a w') (hR : ∀ w', R' w' → R w') :
    Ends w p Q R :=
  triple_weaken h (fun _ hc => hc) (fun a c => hQ a c.world) (fun _ c => hR c.world)

theorem ends_ok {p : Service α} {c d : Call} {a : α} (h : Ends c.world p Q R)
    (hp : p c = (.ok a, d)) : Q a d.world := by
  have hgives := h c rfl
  rw [hp] at hgives
  exact hgives

/-- The world after a rollback. -/
def rolled_back (w w' : World) : World := { w' with db := w.db }

/-- In a session the program leaves a world of `G`, whether it ends, fails or
does not commit. -/
def Leaves (w : World) (p : Service α) (G : World → Prop) : Prop :=
  Ends w p (fun _ w' => G w' ∧ G (rolled_back w w')) (fun w' => G (rolled_back w w'))

theorem session_leaves {p : Service α} {G : World → Prop} (h : Leaves w p G)
    (faults : List (Option Interruption)) : G (session p ⟨w, faults, false⟩).2.world := by
  have hcommit : Ends w (do let a ← p; write .ok; return a : Service α) (fun _ => G)
      (fun w' => G (rolled_back w w')) := by
    refine ends_bind h ?_
    rintro a w' ⟨hdone, hback⟩
    refine ends_write hback ?_
    intro db hdb
    cases hdb
    exact ends_pure hdone
  have hgives := hcommit ⟨w, faults, false⟩ rfl
  unfold session
  split
  · rename_i a d hd
    rw [hd] at hgives
    exact hgives
  · rename_i e d hd
    rw [hd] at hgives
    exact hgives

/-- What is left of a world but its rows after a session that has come past
`p`. -/
theorem session_past {p : Service α} {f : α → Service β} {c d : Call} {a : α}
    (hp : p c = (.ok a, d)) {Q : World → Prop} (hQ : ∀ w db, Q w → Q { w with db })
    (hf : Ends d.world (f a) (fun _ => Q) Q) : Q (session (p >>= f) c).2.world := by
  have hpast : (do let b ← p >>= f; write .ok; return b : Service β) c =
      (do let b ← f a; write .ok; return b : Service β) d := by
    simp only [bind, hp]
  have hends : Ends d.world (do let b ← f a; write .ok; return b : Service β) (fun _ => Q) Q := by
    refine ends_bind hf ?_
    intro b w hw
    refine ends_write hw ?_
    intro db _
    exact ends_pure (hQ w db hw)
  have hgives := hends d rfl
  unfold session
  rw [hpast]
  split
  · rename_i b e he
    rw [he] at hgives
    exact hgives
  · rename_i b e he
    rw [he] at hgives
    exact hQ _ _ hgives

/-! ## What an operation can do -/

/-- The rows, the blobs and the points that a call leaves. Events, messages and
prompts may have come in. -/
structure Becomes (w w' : World) (db : Database) (blobs : Blobs) (points : List VectorPoint) :
    Prop where
  db : w'.db = db
  blobs : w'.blobs = blobs
  points : w'.points = points
  issued : w'.issued = w.issued

/-- The index after the chunks of a document have been stored. -/
def Indexed (P : Providers) (tenant_id : String) (document_id : UUID) (chunks : List TextChunk)
    (before after : List VectorPoint) : Prop :=
  (chunks = [] ∧ after = before) ∨
    ∃ vectors points, P.embed .Document (chunks.map (fun c => c.content)) = .ok vectors ∧
      ProcessDocumentUseCase.points_of P tenant_id document_id chunks vectors = .ok points ∧
      after = points.foldl (keyed_rows.upsert VectorPoint.id) before

/-- An ingestion run that has stored its chunks: the document, its version and
the text that it has read. -/
structure Ingested (P : Providers) (w : World) (tenant_id : String) (document_id : UUID)
    (document : KnowledgeDocument) (after : List VectorPoint) : Prop where
  got : SqlAlchemyDocumentRepository.get w.db tenant_id document_id = some document
  indexed : ∃ version content parsed, document.active_version = some version ∧
    w.blobs version.storage_path = some content ∧
    P.parse content version.mime_type = .ok parsed ∧
    Indexed P tenant_id document.id (RecursiveChunkingStrategy.split P parsed.text {}) w.points
      after

/-- What a failed ingestion run leaves: its points, or nothing. -/
def Partial (P : Providers) (w : World) (tenant_id : String) (document_id : UUID)
    (points : List VectorPoint) : Prop :=
  points = w.points ∨ ∃ document, Ingested P w tenant_id document_id document points

/-- The ends of an execution: no worker for the job, an attempt that failed, or
an ingestion run and a completed job. -/
inductive Executed (P : Providers) (settings : Settings) (m : Moment) (w : World)
    (job : ProcessingJob) : World → Prop where
  | refused (w' : World) (job' : ProcessingJob) (events : List DomainEvent) :
    WorkerExecutor.refused job (m.clock 0) = .ok (job', events) →
    Becomes w w'
      { w.db with jobs := SqlAlchemyProcessingJobRepository.update w.db.jobs m.db_now job' }
      w.blobs w.points →
    Executed P settings m w job w'
  | failed (w' : World) (name text : String) (job1 job2 : ProcessingJob)
      (events more : List DomainEvent) (enqueued : Option Message) (points : List VectorPoint) :
    WorkerExecutor.started name job (m.clock 0) = .ok (job1, events) →
    WorkerExecutor.finished settings.processing.max_retries job1 (some text) (m.clock 1) =
      .ok (job2, more, enqueued) →
    Partial P w job.tenant_id job.document_id points →
    Becomes w w'
      { w.db with
        jobs := SqlAlchemyProcessingJobRepository.update
          (SqlAlchemyProcessingJobRepository.update w.db.jobs m.db_now job1) m.db_now job2 }
      w.blobs points →
    Executed P settings m w job w'
  | completed (w' : World) (name : String) (job1 job2 : ProcessingJob)
      (events more : List DomainEvent) (enqueued : Option Message) (document : KnowledgeDocument)
      (points : List VectorPoint) :
    WorkerExecutor.started name job (m.clock 0) = .ok (job1, events) →
    WorkerExecutor.finished settings.processing.max_retries job1 none (m.clock 1) =
      .ok (job2, more, enqueued) →
    Ingested P w job.tenant_id job.document_id document points →
    Becomes w w'
      { SqlAlchemyDocumentRepository.update w.db m.db_now
          (ProcessDocumentUseCase.processed document) with
        jobs := SqlAlchemyProcessingJobRepository.update
          (SqlAlchemyProcessingJobRepository.update w.db.jobs m.db_now job1) m.db_now job2 }
      w.blobs points →
    Executed P settings m w job w'

/-- The steps of the service, by what is left of them. The first two and
`indexed` are all that a failed call can leave. -/
inductive Moved (P : Providers) (settings : Settings) (m : Moment) (w : World) :
    Operation → World → Prop where
  | still (operation : Operation) (w' : World) :
    Becomes w w' w.db w.blobs w.points → Moved P settings m w operation w'
  | saved (operation : Operation) (w' : World) (tenant_id : String) (document_id : UUID)
      (extension : String) (at_ : DateTime) (content : Bytes) :
    '.' ∉ extension.toList →
    Becomes w w' w.db (w.blobs.save (build_document_version_key tenant_id document_id m.ids.version
      extension at_) content) w.points →
    Moved P settings m w operation w'
  | uploaded (w' : World) (data : UploadDocumentInput) (extension : String)
      (version : KnowledgeDocumentVersion) (document : KnowledgeDocument) (job : ProcessingJob) :
    '.' ∉ extension.toList →
    SqlAlchemyDocumentRepository.get_by_checksum m.order w.db data.tenant_id
      (P.sha256_hex data.content) = none →
    version = UploadDocumentUseCase.new_version P.sha256_hex data extension m.ids.document
      m.ids.version (m.clock 0) →
    document = UploadDocumentUseCase.new_document data extension m.ids.document version
      (m.clock 0) →
    job = CreateProcessingJobUseCase.new_job settings.processing
      (UploadDocumentUseCase.job_input document version) m.ids.job (m.clock 1) →
    (version_to_model m.db_now version).number_key ∉
      w.db.versions.map KnowledgeDocumentVersionModel.number_key →
    Becomes w w'
      { w.db with
        versions := w.db.versions ++ [version_to_model m.db_now version]
        documents := w.db.documents ++ [doc_to_model m.db_now document]
        jobs := SqlAlchemyProcessingJobRepository.add w.db.jobs m.db_now job }
      (w.blobs.save version.storage_path data.content) w.points →
    Moved P settings m w (.Upload data) w'
  | version_added (w' : World) (data : AddDocumentVersionInput) (extension : String)
      (document : KnowledgeDocument) (version : KnowledgeDocumentVersion) :
    '.' ∉ extension.toList →
    SqlAlchemyDocumentRepository.get w.db data.tenant_id data.document_id = some document →
    version = AddDocumentVersionUseCase.new_version P.sha256_hex data extension document
      (AddDocumentVersionUseCase.next_number
        (SqlAlchemyDocumentRepository.list_versions w.db document.id)) m.ids.version (m.clock 0) →
    (version_to_model m.db_now version).number_key ∉
      w.db.versions.map KnowledgeDocumentVersionModel.number_key →
    Becomes w w'
      { w.db with
        versions := w.db.versions ++ [version_to_model m.db_now version]
        documents := modify KnowledgeDocumentModel.id document.id
          (SqlAlchemyDocumentRepository.add_version_columns m.db_now
            (AddDocumentVersionUseCase.pointed document version.id)) w.db.documents }
      (w.blobs.save version.storage_path data.content) w.points →
    Moved P settings m w (.AddVersion data) w'
  | updated (w' : World) (data : UpdateDocumentMetadataInput) (document : KnowledgeDocument) :
    SqlAlchemyDocumentRepository.get w.db data.tenant_id data.document_id = some document →
    Becomes w w' (SqlAlchemyDocumentRepository.update w.db m.db_now
      (UpdateDocumentMetadataUseCase.merged data document)) w.blobs w.points →
    Moved P settings m w (.UpdateMetadata data) w'
  | deleted (w' : World) (data : GetDocumentInput) (document : KnowledgeDocument) :
    SqlAlchemyDocumentRepository.get w.db data.tenant_id data.document_id = some document →
    Becomes w w' (SqlAlchemyDocumentRepository.update w.db m.db_now
      (DeleteDocumentUseCase.marked (m.clock 0) document)) w.blobs w.points →
    Moved P settings m w (.Delete data) w'
  | indexed (operation : Operation) (w' : World) (document_id : UUID)
      (document : KnowledgeDocument) (points : List VectorPoint) :
    Ingested P w operation.tenant_id document_id document points →
    Becomes w w' w.db w.blobs points → Moved P settings m w operation w'
  | processed (w' : World) (data : GetDocumentInput) (document : KnowledgeDocument)
      (points : List VectorPoint) :
    Ingested P w data.tenant_id data.document_id document points →
    Becomes w w' (SqlAlchemyDocumentRepository.update w.db m.db_now
      (ProcessDocumentUseCase.processed document)) w.blobs points →
    Moved P settings m w (.Process data) w'
  | handled (w' : World) (message : Message) (job : ProcessingJob) :
    SqlAlchemyProcessingJobRepository.get w.db.jobs message.tenant_id message.job_id = some job →
    Executed P settings m w job w' → Moved P settings m w (.Handle message) w'
  | answered (w' : World) (data : AnswerQuestionInput) (conversation : Conversation)
      (answer : String) (db : Database) :
    AnswerQuestionUseCase.load_or_create_conversation w.db m.ids.conversation data =
      .ok conversation →
    AnswerQuestionUseCase.stored w.db m.db_now data (AnswerQuestionUseCase.appended conversation
      (AnswerQuestionUseCase.question_message data (m.clock 0) m.ids.question)
      (AnswerQuestionUseCase.answer_message answer (m.clock 0) m.ids.answer)) = .ok db →
    Becomes w w' db w.blobs w.points → Moved P settings m w (.Answer data) w'

/-! ## The use cases -/

variable {P : Providers} {settings : Settings} {m : Moment} {operation : Operation}

theorem leaves_map {p : Service α} {f : α → β} {G : World → Prop} (h : Leaves w p G) :
    Leaves w (do let a ← p; return f a : Service β) G :=
  ends_bind h (fun _ _ hG => ends_pure hG)

/-- A call with nothing of its own left behind. -/
def Quiet (w w' : World) : Prop := Becomes w w' w.db w.blobs w.points

theorem still_of_quiet {w' : World} (h : Quiet w w') :
    Moved P settings m w operation (rolled_back w w') :=
  .still _ _ ⟨rfl, h.blobs, h.points, h.issued⟩

theorem ends_publish_all (events : List DomainEvent) {f : Unit → Service β}
    {Q : β → World → Prop} {db : Database} {blobs : Blobs} {points : List VectorPoint} {v : World}
    (hw : Becomes v w db blobs points) (hR : ∀ w', Becomes v w' db blobs points → R w')
    (h : ∀ w', Becomes v w' db blobs points → Ends w' (f ()) Q R) :
    Ends w (events.forM publish >>= f) Q R := by
  induction events generalizing w with
  | nil => exact h w hw
  | cons event events ih =>
    have hfirst : ((event :: events).forM publish >>= f) =
        (publish event >>= fun _ => events.forM publish >>= f) := bind_assoc ..
    rw [hfirst]
    have hpublished : Becomes v { w with events := w.events ++ [event] } db blobs points :=
      ⟨hw.db, hw.blobs, hw.points, hw.issued⟩
    exact ends_effect (hR w hw) (ih hpublished)

theorem ends_enqueue_all (message : Option Message) {f : Unit → Service β}
    {Q : β → World → Prop} {db : Database} {blobs : Blobs} {points : List VectorPoint} {v : World}
    (hw : Becomes v w db blobs points) (hR : ∀ w', Becomes v w' db blobs points → R w')
    (h : ∀ w', Becomes v w' db blobs points → Ends w' (f ()) Q R) :
    Ends w (message.forM enqueue >>= f) Q R := by
  cases message with
  | none => exact h w hw
  | some message =>
    have henqueued : Becomes v { w with queue := w.queue ++ [message] } db blobs points :=
      ⟨hw.db, hw.blobs, hw.points, hw.issued⟩
    have hfirst : ((some message).forM enqueue >>= f) = (enqueue message >>= f) := rfl
    rw [hfirst]
    exact ends_effect (hR w hw) (h _ henqueued)

theorem create_job_ends (reading : Nat) (data : CreateProcessingJobInput) {v : World}
    {blobs : Blobs} {points : List VectorPoint} (hw : Becomes v w w.db blobs points)
    (hR : ∀ db w', Becomes v w' db blobs points → R w') :
    Ends w (CreateProcessingJobUseCase.execute settings m reading data)
      (fun job w' => job = CreateProcessingJobUseCase.new_job settings.processing data m.ids.job
          (m.clock reading) ∧
        Becomes v w' { w.db with
          jobs := SqlAlchemyProcessingJobRepository.add w.db.jobs m.db_now job } blobs points)
      R := by
  unfold CreateProcessingJobUseCase.execute
  generalize CreateProcessingJobUseCase.new_job settings.processing data m.ids.job
    (m.clock reading) = job
  refine ends_query (hR _ _ hw) ?_
  refine ends_of_except (hR _ _ hw) ?_
  intro _ _
  refine ends_write (hR _ _ hw) ?_
  intro db hdb
  cases hdb
  refine ends_effect (hR _ _ ⟨rfl, hw.blobs, hw.points, hw.issued⟩) ?_
  refine ends_effect (hR _ _ ⟨rfl, hw.blobs, hw.points, hw.issued⟩) ?_
  exact ends_pure ⟨rfl, rfl, hw.blobs, hw.points, hw.issued⟩

theorem upload_leaves (data : UploadDocumentInput) :
    Leaves w (UploadDocumentUseCase.execute P settings m data)
      (Moved P settings m w (.Upload data)) := by
  have hstill : ∀ w', Quiet w w' → Moved P settings m w (.Upload data) (rolled_back w w') :=
    fun _ h => still_of_quiet h
  have hquiet : Quiet w w := ⟨rfl, rfl, rfl, rfl⟩
  unfold UploadDocumentUseCase.execute
  refine ends_of_domain (hstill _ hquiet) ?_
  intro extension hextension
  have hdot := validate_upload_no_dot hextension
  refine ends_query (hstill _ hquiet) ?_
  split
  · exact ends_raise (hstill _ hquiet)
  · rename_i hnone
    refine ends_effect (hstill _ hquiet) ?_
    -- from here on a failure leaves the blob behind
    have hsaved : ∀ db w', Becomes w w' db (w.blobs.save _ data.content) w.points →
        Moved P settings m w (.Upload data) (rolled_back w w') :=
      fun _ w' h => .saved _ _ data.tenant_id m.ids.document extension (m.clock 0) data.content
        hdot ⟨rfl, h.blobs, h.points, h.issued⟩
    refine ends_write (hsaved w.db _ ⟨rfl, rfl, rfl, rfl⟩) ?_
    intro db hdb
    obtain ⟨hkey, rfl⟩ := SqlAlchemyDocumentRepository.add_ok.mp hdb
    refine ends_effect (hsaved _ _ ⟨rfl, rfl, rfl, rfl⟩) ?_
    refine ends_bind (create_job_ends (v := w) 1 _ ⟨rfl, rfl, rfl, rfl⟩
      (fun db w' h => hsaved db w' h)) ?_
    rintro job w' ⟨rfl, hw'⟩
    exact ends_pure ⟨.uploaded w' data extension _ _ _ hdot hnone rfl rfl rfl hkey hw',
      hsaved _ _ hw'⟩

theorem add_version_leaves (data : AddDocumentVersionInput) :
    Leaves w (AddDocumentVersionUseCase.execute P settings m data)
      (Moved P settings m w (.AddVersion data)) := by
  have hstill : Moved P settings m w (.AddVersion data) (rolled_back w w) :=
    still_of_quiet ⟨rfl, rfl, rfl, rfl⟩
  unfold AddDocumentVersionUseCase.execute
  refine ends_query hstill ?_
  refine ends_of_except hstill ?_
  rintro ⟨document, extension⟩ hcheck
  obtain ⟨hdot, hget⟩ := AddDocumentVersionUseCase.check_ok hcheck
  dsimp only
  refine ends_query hstill ?_
  refine ends_effect hstill ?_
  have hsaved : ∀ db w', Becomes w w' db (w.blobs.save _ data.content) w.points →
      Moved P settings m w (.AddVersion data) (rolled_back w w') :=
    fun _ w' h => .saved _ _ data.tenant_id document.id extension (m.clock 0) data.content
      hdot ⟨rfl, h.blobs, h.points, h.issued⟩
  refine ends_write (hsaved w.db _ ⟨rfl, rfl, rfl, rfl⟩) ?_
  intro db hdb
  obtain ⟨hkey, rfl⟩ := SqlAlchemyDocumentRepository.add_version_ok.mp hdb
  refine ends_effect (hsaved _ _ ⟨rfl, rfl, rfl, rfl⟩) ?_
  exact ends_pure ⟨.version_added _ data extension document _ hdot hget rfl hkey
    ⟨rfl, rfl, rfl, rfl⟩, hsaved _ _ ⟨rfl, rfl, rfl, rfl⟩⟩

theorem update_metadata_leaves (data : UpdateDocumentMetadataInput) :
    Leaves w (UpdateDocumentMetadataUseCase.execute m data)
      (Moved P settings m w (.UpdateMetadata data)) := by
  have hstill : ∀ w', Becomes w w' w'.db w.blobs w.points →
      Moved P settings m w (.UpdateMetadata data) (rolled_back w w') :=
    fun _ h => .still _ _ ⟨rfl, h.blobs, h.points, h.issued⟩
  unfold UpdateDocumentMetadataUseCase.execute
  refine ends_query (hstill w ⟨rfl, rfl, rfl, rfl⟩) ?_
  refine ends_of_except (hstill w ⟨rfl, rfl, rfl, rfl⟩) ?_
  intro document hload
  refine ends_write (hstill w ⟨rfl, rfl, rfl, rfl⟩) ?_
  intro db hdb
  cases hdb
  refine ends_effect (hstill _ ⟨rfl, rfl, rfl, rfl⟩) ?_
  exact ends_pure ⟨.updated _ data document (load_document_ok hload) ⟨rfl, rfl, rfl, rfl⟩,
    hstill _ ⟨rfl, rfl, rfl, rfl⟩⟩

theorem delete_leaves (data : GetDocumentInput) :
    Leaves w (DeleteDocumentUseCase.execute m data) (Moved P settings m w (.Delete data)) := by
  have hstill : ∀ w', Becomes w w' w'.db w.blobs w.points →
      Moved P settings m w (.Delete data) (rolled_back w w') :=
    fun _ h => .still _ _ ⟨rfl, h.blobs, h.points, h.issued⟩
  unfold DeleteDocumentUseCase.execute
  refine ends_query (hstill w ⟨rfl, rfl, rfl, rfl⟩) ?_
  refine ends_of_except (hstill w ⟨rfl, rfl, rfl, rfl⟩) ?_
  intro document hload
  refine ends_write (hstill w ⟨rfl, rfl, rfl, rfl⟩) ?_
  intro db hdb
  cases hdb
  unfold publish
  rw [← bind_pure (effect _)]
  refine ends_effect (hstill _ ⟨rfl, rfl, rfl, rfl⟩) ?_
  exact ends_pure ⟨.deleted _ data document (load_document_ok hload) ⟨rfl, rfl, rfl, rfl⟩,
    hstill _ ⟨rfl, rfl, rfl, rfl⟩⟩

/-! ## Ingestion and jobs -/

theorem index_chunks_ends (tenant_id : String) (document_id : UUID) (chunks : List TextChunk)
    (hR : R w) :
    Ends w (ProcessDocumentUseCase.index_chunks P tenant_id document_id chunks)
      (fun _ w' => ∃ points, Indexed P tenant_id document_id chunks w.points points ∧
        Becomes w w' w.db w.blobs points) R := by
  unfold ProcessDocumentUseCase.index_chunks
  split
  · unfold FastEmbedEmbeddingProvider.embed_batch
    rw [bind_assoc]
    refine ends_external hR ?_
    refine ends_of_except hR ?_
    intro vectors hvectors
    refine ends_of_except hR ?_
    intro points hpoints
    unfold QdrantVectorRepository.upsert
    rw [← bind_pure (effect _)]
    refine ends_effect hR ?_
    exact ends_pure ⟨_, Or.inr ⟨vectors, points, hvectors, hpoints, rfl⟩, rfl, rfl, rfl, rfl⟩
  · rename_i hchunks
    exact ends_pure ⟨w.points, Or.inl ⟨not_not.mp hchunks, rfl⟩, rfl, rfl, rfl, rfl⟩

theorem load_blob_ends (key : String) (hR : R w) :
    Ends w (StorageProvider.load P key)
      (fun content w' => w.blobs key = some content ∧ w' = w) R := by
  unfold StorageProvider.load
  refine ends_external hR ?_
  intro c hc
  subst hc
  simp only [look]
  split
  · rename_i content hcontent
    exact ⟨hcontent, rfl⟩
  · exact hR

/-- `ProcessDocumentUseCase.execute` up to the end of its upsert. -/
def indexed_document (P : Providers) (tenant_id : String) (document_id : UUID) :
    Service KnowledgeDocument := do
  let (document, version) ← of_except (← query (fun db =>
    ProcessDocumentUseCase.load db tenant_id document_id))
  let content ← StorageProvider.load P version.storage_path
  external
  let parsed ← of_except (P.parse content version.mime_type)
  ProcessDocumentUseCase.index_chunks P tenant_id document.id
    (RecursiveChunkingStrategy.split P parsed.text {})
  return document

theorem execute_eq (tenant_id : String) (document_id : UUID) :
    ProcessDocumentUseCase.execute P m tenant_id document_id = (do
      let document ← indexed_document P tenant_id document_id
      write (fun db => .ok (SqlAlchemyDocumentRepository.update db m.db_now
        (ProcessDocumentUseCase.processed document)))) := by
  unfold ProcessDocumentUseCase.execute indexed_document
  simp only [bind_assoc, pure_bind]

theorem indexed_document_ends (tenant_id : String) (document_id : UUID) :
    Ends w (indexed_document P tenant_id document_id)
      (fun document w' => ∃ points, Ingested P w tenant_id document_id document points ∧
        Becomes w w' w.db w.blobs points)
      (fun w' => w' = w) := by
  unfold indexed_document
  refine ends_query rfl ?_
  refine ends_of_except rfl ?_
  rintro ⟨document, version⟩ hload
  obtain ⟨hget, hactive⟩ := ProcessDocumentUseCase.load_ok hload
  refine ends_bind (load_blob_ends _ rfl) ?_
  rintro content w' ⟨hcontent, hw'⟩
  rw [hw']
  refine ends_external rfl ?_
  refine ends_of_except rfl ?_
  intro parsed hparsed
  refine ends_bind (index_chunks_ends _ _ _ rfl) ?_
  rintro _ w' ⟨points, hindexed, hw'⟩
  exact ends_pure ⟨points,
    ⟨hget, version, content, parsed, hactive, hcontent, hparsed, hindexed⟩, hw'⟩

theorem process_ends (tenant_id : String) (document_id : UUID) :
    Ends w (ProcessDocumentUseCase.execute P m tenant_id document_id)
      (fun _ w' => ∃ document points, Ingested P w tenant_id document_id document points ∧
        Becomes w w' (SqlAlchemyDocumentRepository.update w.db m.db_now
          (ProcessDocumentUseCase.processed document)) w.blobs points)
      (fun w' => ∃ points, Partial P w tenant_id document_id points ∧
        Becomes w w' w.db w.blobs points) := by
  have hstill : ∀ w', w' = w → ∃ points, Partial P w tenant_id document_id points ∧
      Becomes w w' w.db w.blobs points := by
    rintro _ rfl
    exact ⟨_, Or.inl rfl, rfl, rfl, rfl, rfl⟩
  rw [execute_eq]
  refine ends_bind (ends_weaken (indexed_document_ends _ _) (fun _ _ h => h) hstill) ?_
  rintro document w' ⟨points, hingested, hw'⟩
  rw [← bind_pure (write _)]
  refine ends_write ⟨points, Or.inr ⟨document, hingested⟩, hw'⟩ ?_
  intro db hdb
  cases hdb
  refine ends_pure ⟨document, points, hingested, ?_, hw'.blobs, hw'.points, hw'.issued⟩
  rw [← hw'.db]

/-- The run of a worker: it ends, or its exception is caught, or it crashes. -/
theorem attempted_ends {run : Service Unit} {M : World → Prop}
    (h : Ends w run (fun _ => M) R) :
    Ends w (WorkerExecutor.attempted run)
      (fun outcome w' => (outcome = none ∧ M w') ∨ ∃ text, outcome = some text ∧ R w') R := by
  have hrun : Ends w (do run; return none : Service (Option String))
      (fun outcome w' => (outcome = none ∧ M w') ∨ ∃ text, outcome = some text ∧ R w') R :=
    ends_bind h (fun _ w' hM => ends_pure (Or.inl ⟨rfl, hM⟩))
  refine triple_attempt hrun ?_
  intro e
  cases e with
  | Raised e =>
    refine triple_pure ?_
    intro c hc
    exact Or.inr ⟨e.str, rfl, hc⟩
  | Crashed => exact triple_raise (fun c hc => hc)

theorem update_job_ends {job : ProcessingJob} {f : Unit → Service β} {Q : β → World → Prop}
    (hR : R w)
    (h : Ends { w with db := { w.db with
      jobs := SqlAlchemyProcessingJobRepository.update w.db.jobs m.db_now job } } (f ()) Q R) :
    Ends w (update_job m job >>= f) Q R := by
  refine ends_write hR ?_
  intro db hdb
  cases hdb
  exact h

/-- The end of an execution: the job is written, its message is out, and its
events are published. -/
theorem settle_ends {job : ProcessingJob} {message : Option Message} {events : List DomainEvent}
    {v : World} {blobs : Blobs} {points : List VectorPoint} {Q : ProcessingJob → World → Prop}
    (hw : Becomes v w w.db blobs points) (hR : ∀ db w', Becomes v w' db blobs points → R w')
    (hQ : ∀ w', Becomes v w' { w.db with
      jobs := SqlAlchemyProcessingJobRepository.update w.db.jobs m.db_now job } blobs points →
      Q job w') :
    Ends w (do
      update_job m job
      message.forM enqueue
      events.forM publish
      return job) Q R := by
  refine update_job_ends (hR _ _ hw) ?_
  refine ends_enqueue_all (v := v) message ⟨rfl, hw.blobs, hw.points, hw.issued⟩
    (fun w' => hR _ w') ?_
  intro w' hw'
  refine ends_publish_all events hw' (fun w' => hR _ w') ?_
  intro w' hw'
  exact ends_pure (hQ w' hw')

/-- A run reads nothing of the jobs. -/
theorem ingested_of_jobs {w1 : World} {jobs : List ProcessingJobModel} {tenant_id : String}
    {document_id : UUID} {document : KnowledgeDocument} {points : List VectorPoint}
    (hw : Becomes w w1 { w.db with jobs } w.blobs w.points)
    (h : Ingested P w1 tenant_id document_id document points) :
    Ingested P w tenant_id document_id document points := by
  obtain ⟨hget, version, content, parsed, hactive, hcontent, hparsed, hindexed⟩ := h
  rw [hw.db] at hget
  rw [hw.blobs] at hcontent
  rw [hw.points] at hindexed
  exact ⟨hget, version, content, parsed, hactive, hcontent, hparsed, hindexed⟩

/-- A run of the worker, seen from the world before the job was marked RUNNING. -/
theorem worker_ends {job job1 : ProcessingJob} {w1 : World} {jobs : List ProcessingJobModel}
    (hw1 : Becomes w w1 { w.db with jobs } w.blobs w.points)
    (htenant : job1.tenant_id = job.tenant_id) (hdocument : job1.document_id = job.document_id) :
    Ends w1 (IngestionWorker.run P m job1)
      (fun _ w' => ∃ document points,
        Ingested P w job.tenant_id job.document_id document points ∧
          Becomes w w' { SqlAlchemyDocumentRepository.update w.db m.db_now
            (ProcessDocumentUseCase.processed document) with jobs } w.blobs points)
      (fun w' => ∃ points, Partial P w job.tenant_id job.document_id points ∧
        Becomes w w' { w.db with jobs } w.blobs points) := by
  unfold IngestionWorker.run
  rw [htenant, hdocument]
  refine ends_weaken (process_ends job.tenant_id job.document_id) ?_ ?_
  · rintro _ w' ⟨document, points, hingested, hw'⟩
    refine ⟨document, points, ingested_of_jobs hw1 hingested, ?_, ?_, hw'.points, ?_⟩
    · rw [hw'.db, hw1.db]
      rfl
    · rw [hw'.blobs, hw1.blobs]
    · rw [hw'.issued, hw1.issued]
  · rintro w' ⟨points, hpartial, hw'⟩
    have hback : Partial P w job.tenant_id job.document_id points := by
      rcases hpartial with rfl | ⟨document, hingested⟩
      · exact Or.inl hw1.points
      · exact Or.inr ⟨document, ingested_of_jobs hw1 hingested⟩
    exact ⟨points, hback, hw'.db.trans hw1.db, hw'.blobs.trans hw1.blobs, hw'.points,
      hw'.issued.trans hw1.issued⟩

theorem execute_ends (job : ProcessingJob) :
    Ends w (WorkerExecutor.execute P settings m job)
      (fun _ w' => Executed P settings m w job w' ∧ ∃ points,
        Partial P w job.tenant_id job.document_id points ∧ Becomes w w' w'.db w.blobs points)
      (fun w' => ∃ points, Partial P w job.tenant_id job.document_id points ∧
        Becomes w w' w'.db w.blobs points) := by
  have hleft : ∀ {points db}, Partial P w job.tenant_id job.document_id points →
      ∀ w', Becomes w w' db w.blobs points →
        ∃ points, Partial P w job.tenant_id job.document_id points ∧
          Becomes w w' w'.db w.blobs points :=
    fun hpartial _ h => ⟨_, hpartial, rfl, h.blobs, h.points, h.issued⟩
  have hstill : Partial P w job.tenant_id job.document_id w.points := Or.inl rfl
  have hw : Becomes w w w.db w.blobs w.points := ⟨rfl, rfl, rfl, rfl⟩
  unfold WorkerExecutor.execute
  split
  · refine ends_of_domain (hleft hstill w hw) ?_
    rintro ⟨job', events⟩ hrefused
    refine update_job_ends (hleft hstill w hw) ?_
    refine ends_publish_all (v := w) events ⟨rfl, rfl, rfl, rfl⟩ (hleft hstill) ?_
    intro w' hw'
    exact ends_pure ⟨.refused w' job' events hrefused hw', hleft hstill w' hw'⟩
  · rename_i name _
    refine ends_of_domain (hleft hstill w hw) ?_
    rintro ⟨job1, events⟩ hstarted
    obtain ⟨_, _, htenant, _, _⟩ := WorkerExecutor.started_ok hstarted
    have hdocument := WorkerExecutor.started_document_id hstarted
    refine update_job_ends (hleft hstill w hw) ?_
    refine ends_publish_all (v := w) events ⟨rfl, rfl, rfl, rfl⟩ (hleft hstill) ?_
    intro w1 hw1
    have hrun := worker_ends (P := P) (m := m) hw1 htenant hdocument
    have hattempt := ends_weaken (attempted_ends hrun) (fun _ _ h => h) (fun w' hfailed => by
      obtain ⟨points, hpartial, hw'⟩ := hfailed
      exact hleft hpartial w' hw')
    refine ends_bind hattempt ?_
    rintro outcome w' (⟨rfl, document, points, hingested, hw'⟩ | ⟨text, rfl, points, hpartial, hw'⟩)
    · have hpartial : Partial P w job.tenant_id job.document_id points :=
        Or.inr ⟨document, hingested⟩
      refine ends_of_domain (hleft hpartial w' hw') ?_
      rintro ⟨job2, more, enqueued⟩ hfinished
      refine settle_ends (v := w) ⟨rfl, hw'.blobs, hw'.points, hw'.issued⟩
        (fun _ => hleft hpartial) ?_
      intro w'' hw''
      refine ⟨.completed w'' name job1 job2 events more enqueued document points hstarted hfinished
        hingested ?_, hleft hpartial w'' hw''⟩
      rw [hw'.db] at hw''
      exact hw''
    · refine ends_of_domain (hleft hpartial w' hw') ?_
      rintro ⟨job2, more, enqueued⟩ hfinished
      refine settle_ends (v := w) ⟨rfl, hw'.blobs, hw'.points, hw'.issued⟩
        (fun _ => hleft hpartial) ?_
      intro w'' hw''
      refine ⟨.failed w'' name text job1 job2 events more enqueued points hstarted hfinished
        hpartial ?_, hleft hpartial w'' hw''⟩
      rw [hw'.db] at hw''
      exact hw''

theorem handle_leaves (message : Message) :
    Leaves w (handle_message P settings m message)
      (Moved P settings m w (.Handle message)) := by
  have hquiet : Quiet w w := ⟨rfl, rfl, rfl, rfl⟩
  have hstill : Moved P settings m w (.Handle message) w := .still _ _ hquiet
  have hdone : Moved P settings m w (.Handle message) w ∧
      Moved P settings m w (.Handle message) (rolled_back w w) := ⟨hstill, still_of_quiet hquiet⟩
  unfold handle_message
  refine ends_query hdone.2 ?_
  split
  · exact ends_pure hdone
  · rename_i job hget
    split
    · exact ends_pure hdone
    · obtain ⟨_, _, _, htenant, hjob⟩ := SqlAlchemyProcessingJobRepository.get_row hget
      have htenant : job.tenant_id = message.tenant_id := by
        rw [hjob]
        exact htenant
      have hleft : ∀ w', (∃ points, Partial P w job.tenant_id job.document_id points ∧
          Becomes w w' w'.db w.blobs points) →
          Moved P settings m w (.Handle message) (rolled_back w w') := by
        rintro w' ⟨points, rfl | ⟨document, hingested⟩, hw'⟩
        · exact .still _ _ ⟨rfl, hw'.blobs, hw'.points, hw'.issued⟩
        · rw [htenant] at hingested
          exact .indexed _ _ job.document_id document points hingested
            ⟨rfl, hw'.blobs, hw'.points, hw'.issued⟩
      refine ends_bind (ends_weaken (execute_ends job) (fun _ _ h => h) hleft) ?_
      rintro _ w' ⟨hexecuted, hpartial⟩
      exact ends_pure ⟨.handled w' message job hget hexecuted, hleft w' hpartial⟩

theorem process_leaves (data : GetDocumentInput) :
    Leaves w (ProcessDocumentUseCase.execute P m data.tenant_id data.document_id)
      (Moved P settings m w (.Process data)) := by
  refine ends_weaken (process_ends data.tenant_id data.document_id) ?_ ?_
  · rintro _ w' ⟨document, points, hingested, hw'⟩
    exact ⟨.processed w' data document points hingested hw',
      .indexed _ _ data.document_id document points hingested
        ⟨rfl, hw'.blobs, hw'.points, hw'.issued⟩⟩
  · rintro w' ⟨points, rfl | ⟨document, hingested⟩, hw'⟩
    · exact .still _ _ ⟨rfl, hw'.blobs, hw'.points, hw'.issued⟩
    · exact .indexed _ _ data.document_id document points hingested
        ⟨rfl, hw'.blobs, hw'.points, hw'.issued⟩

/-! ## Search and chat -/

/-- What a search returns: nearest points among those of the tenant. -/
def Retrieved (P : Providers) (w : World) (tenant_id : String) (results : List SearchResult) :
    Prop :=
  ∃ vector limit, results =
    (P.nearest (QdrantVectorRepository.filtered w.points tenant_id) vector limit).map
      (fun hit => { id := hit.1.id, score := hit.2, payload := hit.1.payload })

theorem retrieve_ends (tenant_id query : String) (top_k : Nat) (hR : R w) :
    Ends w (retrieve P tenant_id query top_k)
      (fun results w' => Retrieved P w tenant_id results ∧ w' = w) R := by
  unfold retrieve FastEmbedEmbeddingProvider.embed_text FastEmbedEmbeddingProvider.embed_batch
  simp only [bind_assoc]
  refine ends_external hR ?_
  refine ends_of_except hR ?_
  intro vectors _
  unfold QdrantVectorRepository.search
  rcases vectors with _ | ⟨vector, vectors⟩
  · exact ends_bind (ends_raise hR) (fun a w' h => h)
  · rw [pure_bind]
    refine ends_external hR ?_
    intro c hc
    subst hc
    exact ⟨⟨vector, top_k, rfl⟩, rfl⟩

theorem load_conversation_ends (data : AnswerQuestionInput) (hR : R w) :
    Ends w (AnswerQuestionUseCase.load_conversation m data)
      (fun conversation w' => AnswerQuestionUseCase.load_or_create_conversation w.db
        m.ids.conversation data = .ok conversation ∧ w' = w) R := by
  unfold AnswerQuestionUseCase.load_conversation
  split
  · rename_i hdata
    rw [← bind_pure (of_except _)]
    refine ends_of_except hR ?_
    intro conversation hload
    refine ends_pure ⟨?_, rfl⟩
    unfold AnswerQuestionUseCase.load_or_create_conversation at hload ⊢
    rw [hdata] at hload ⊢
    exact hload
  · refine ends_query hR ?_
    rw [← bind_pure (of_except _)]
    refine ends_of_except hR ?_
    intro conversation hload
    exact ends_pure ⟨hload, rfl⟩

theorem answer_leaves (data : AnswerQuestionInput) :
    Leaves w (AnswerQuestionUseCase.execute P settings m data)
      (Moved P settings m w (.Answer data)) := by
  have hstill : ∀ w', Becomes w w' w'.db w.blobs w.points →
      Moved P settings m w (.Answer data) (rolled_back w w') :=
    fun _ h => .still _ _ ⟨rfl, h.blobs, h.points, h.issued⟩
  have hw := hstill w ⟨rfl, rfl, rfl, rfl⟩
  unfold AnswerQuestionUseCase.execute
  refine ends_bind (retrieve_ends _ _ _ hw) ?_
  rintro results w1 ⟨_, hw1⟩
  rw [hw1]
  refine ends_bind (load_conversation_ends data hw) ?_
  rintro conversation w1 ⟨hload, hw1⟩
  rw [hw1]
  unfold AnswerQuestionUseCase.complete
  rw [bind_assoc]
  refine ends_effect hw ?_
  refine ends_of_except (hstill _ ⟨rfl, rfl, rfl, rfl⟩) ?_
  intro answer _
  refine ends_write (hstill _ ⟨rfl, rfl, rfl, rfl⟩) ?_
  intro db hdb
  exact ends_pure ⟨.answered _ data conversation answer db hload hdb ⟨rfl, rfl, rfl, rfl⟩,
    hstill _ ⟨rfl, rfl, rfl, rfl⟩⟩

/-! ## The step -/

/-- A call that only reads leaves nothing. -/
theorem leaves_of_ends {p : Service α}
    (h : Ends w p (fun _ w' => w' = w) (fun w' => w' = w)) :
    Leaves w p (Moved P settings m w operation) := by
  have hquiet : Quiet w w := ⟨rfl, rfl, rfl, rfl⟩
  refine ends_weaken h ?_ ?_
  · rintro _ w' rfl
    exact ⟨.still _ _ hquiet, .still _ _ hquiet⟩
  · rintro w' rfl
    exact .still _ _ hquiet

theorem program_leaves (operation : Operation) :
    Leaves w (operation.program P settings m) (Moved P settings m w operation) := by
  cases operation with
  | Upload data => exact leaves_map (upload_leaves data)
  | AddVersion data => exact leaves_map (add_version_leaves data)
  | Get data =>
    refine leaves_map (leaves_of_ends ?_)
    refine ends_query rfl ?_
    refine ends_of_except rfl ?_
    intro document _
    exact ends_pure rfl
  | List data =>
    refine leaves_map (leaves_of_ends ?_)
    refine ends_query rfl ?_
    exact ends_pure rfl
  | ListVersions data =>
    refine leaves_map (leaves_of_ends ?_)
    refine ends_query rfl ?_
    refine ends_of_except rfl ?_
    intro document _
    rw [← bind_pure (query _)]
    refine ends_query rfl ?_
    exact ends_pure rfl
  | UpdateMetadata data => exact leaves_map (update_metadata_leaves data)
  | Delete data => exact leaves_map (delete_leaves data)
  | Process data => exact leaves_map (process_leaves data)
  | GetJob data =>
    refine leaves_map (leaves_of_ends ?_)
    refine ends_query rfl ?_
    split
    · exact ends_raise rfl
    · exact ends_pure rfl
  | ListJobs data =>
    refine leaves_map (leaves_of_ends ?_)
    refine ends_query rfl ?_
    exact ends_pure rfl
  | Handle message => exact leaves_map (handle_leaves message)
  | Search data =>
    refine leaves_map (leaves_of_ends ?_)
    refine ends_bind (retrieve_ends _ _ _ rfl) ?_
    rintro results w' ⟨_, rfl⟩
    exact ends_pure rfl
  | Answer data => exact leaves_map (answer_leaves data)

/-- The world that a call starts in: its ids have been given out. -/
def opened (w : World) (r : Request) : World :=
  { w with issued := r.moment.ids.all ++ w.issued }

/-- An operation is a session of its program from the opened world. -/
theorem perform_eq (P : Providers) (settings : Settings) (w : World) (r : Request) :
    w.perform P settings r =
      ((session (r.operation.program P settings r.moment)
          ⟨opened w r, r.moment.faults, false⟩).1,
        (session (r.operation.program P settings r.moment)
          ⟨opened w r, r.moment.faults, false⟩).2.world) := rfl

/-- A step takes new ids, and moves the world as its operation can. -/
theorem moved_of_step {P : Providers} {settings : Settings} {w w' : World} {r : Request}
    (h : w.step P settings r = some w') :
    r.moment.ids.all.Nodup ∧ (∀ id ∈ r.moment.ids.all, id ∉ w.issued) ∧
      Moved P settings r.moment (opened w r) r.operation w' := by
  unfold World.step at h
  split at h
  · rename_i hfresh
    simp only [World.fresh, decide_eq_true_eq] at hfresh
    cases h
    exact ⟨hfresh.1, hfresh.2, session_leaves (program_leaves r.operation) r.moment.faults⟩
  · cases h

theorem step_some {P : Providers} {settings : Settings} {w w' : World} {r : Request} :
    w.step P settings r = some w' ↔
    (r.moment.ids.all.Nodup ∧ ∀ id ∈ r.moment.ids.all, id ∉ w.issued) ∧
      (w.perform P settings r).2 = w' := by
  unfold World.step World.fresh
  rw [Option.ite_none_right_eq_some, decide_eq_true_eq, Option.some_inj]

/-- A step gives out the ids of its request. -/
theorem issued_of_step {P : Providers} {settings : Settings} {w w' : World} {r : Request}
    (h : w.step P settings r = some w') :
    w'.issued = r.moment.ids.all ++ w.issued := by
  obtain ⟨_, _, hm⟩ := moved_of_step h
  generalize r.operation = operation at hm
  cases hm with
  | still _ _ hb => exact hb.issued
  | saved _ _ _ _ _ _ _ _ hb => exact hb.issued
  | uploaded _ _ _ _ _ _ _ _ _ _ _ _ hb => exact hb.issued
  | version_added _ _ _ _ _ _ _ _ _ hb => exact hb.issued
  | updated _ _ _ _ hb => exact hb.issued
  | deleted _ _ _ _ hb => exact hb.issued
  | indexed _ _ _ _ _ _ hb => exact hb.issued
  | processed _ _ _ _ _ hb => exact hb.issued
  | handled _ _ _ _ he =>
    cases he with
    | refused _ _ _ hb => exact hb.issued
    | failed _ _ _ _ _ _ _ _ _ _ _ hb => exact hb.issued
    | completed _ _ _ _ _ _ _ _ _ _ _ hb => exact hb.issued
  | answered _ _ _ _ _ _ _ hb => exact hb.issued

end cortex_rag.service
