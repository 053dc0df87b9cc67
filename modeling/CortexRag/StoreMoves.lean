-- What the programs of the service do to the stores: a relation between the states
-- before and after a call that allows each single effect holds of every call.
import CortexRag.Service

open state_programs

namespace cortex_rag.service

/-! ## The calls to the outside -/

section Rules

variable {α : Type} {S : Call → Call → Prop} [Std.Refl S] [IsTrans Call S]

/-- The relation does not look at the rows. -/
def BesideRows (S : Call → Call → Prop) : Prop :=
  ∀ (c : Call) (db : Database) (faults : List (Option Interruption)) (broken : Bool),
    S c ⟨{ c.world with db }, faults, broken⟩

/-- The relation allows every effect on the stores but a prompt for the LLM. -/
structure Allows (S : Call → Call → Prop) : Prop where
  rows : BesideRows S
  blobs : ∀ (c : Call) (blobs : Blobs), S c { c with world := { c.world with blobs } }
  points : ∀ (c : Call) (points : List VectorPoint), S c { c with world := { c.world with points } }
  events : ∀ (c : Call) (event : DomainEvent),
    S c { c with world := { c.world with events := c.world.events ++ [event] } }
  queue : ∀ (c : Call) (message : Message),
    S c { c with world := { c.world with queue := c.world.queue ++ [message] } }

omit [Std.Refl S] [IsTrans Call S] in
theorem moves_external (hS : BesideRows S) : Moves S external := by
  rintro ⟨world, faults, broken⟩
  rcases faults with _ | ⟨_ | fault, faults⟩ <;> exact hS _ world.db _ broken

omit [IsTrans Call S] in
theorem moves_of_except (x : Except PyException α) : Moves S (of_except x) := by
  intro c
  rcases x with e | a <;> exact refl_of S c

omit [Std.Refl S] [IsTrans Call S] in
theorem moves_statement (hS : BesideRows S) (g : Database → Except PyException (α × Database)) :
    Moves S (statement g) := by
  rintro ⟨world, faults, broken⟩
  rcases hg : g world.db with e | ⟨a, db⟩ <;> cases broken <;>
    rcases faults with _ | ⟨_ | fault, faults⟩ <;>
    simp only [statement, external, hg, Bool.false_eq_true, if_false, if_true] <;>
    exact hS ⟨world, _, _⟩ _ _ _

omit [Std.Refl S] in
theorem moves_effect (hS : BesideRows S) {g : World → World}
    (hg : ∀ c : Call, S c { c with world := g c.world }) : Moves S (effect g) :=
  moves_bind (moves_external hS) (fun _ => hg)

end Rules

/-! ## The use cases -/

section Programs

variable {P : Providers} {settings : Settings} {m : Moment} {S : Call → Call → Prop}
  [Std.Refl S] [IsTrans Call S]

/-- An ingestion run touches the rows and the points. -/
theorem process_moves (hS : BesideRows S)
    (hpoints : ∀ (c : Call) points, S c { c with world := { c.world with points } })
    (tenant_id : String) (document_id : UUID) :
    Moves S (ProcessDocumentUseCase.execute P m tenant_id document_id) := by
  unfold ProcessDocumentUseCase.execute
  refine moves_bind (moves_statement hS _) (fun _ => moves_bind (moves_of_except _) ?_)
  rintro ⟨document, version⟩
  refine moves_bind (moves_bind (moves_external hS) (fun _ => moves_look _)) (fun content => ?_)
  refine moves_bind (moves_external hS) (fun _ => moves_bind (moves_of_except _) (fun parsed => ?_))
  refine moves_bind ?_ (fun _ => moves_statement hS _)
  unfold ProcessDocumentUseCase.index_chunks
  split
  · refine moves_bind (moves_bind (moves_external hS) (fun _ => moves_of_except _)) (fun _ => ?_)
    exact moves_bind (moves_of_except _) (fun _ => moves_effect hS (fun c => hpoints c _))
  · exact moves_pure _

theorem retrieve_moves (hS : BesideRows S) (tenant_id query : String) (top_k : Nat) :
    Moves S (retrieve P tenant_id query top_k) := by
  unfold retrieve FastEmbedEmbeddingProvider.embed_text FastEmbedEmbeddingProvider.embed_batch
  refine moves_bind ?_ (fun _ => moves_bind (moves_external hS) (fun _ => moves_look _))
  refine moves_bind (moves_bind (moves_external hS) (fun _ => moves_of_except _)) ?_
  intro vectors
  split
  · exact moves_pure _
  · exact moves_raise _

/-- An answer touches the rows and the prompts. -/
theorem answer_moves (hS : BesideRows S)
    (hprompts : ∀ (c : Call) messages,
      S c { c with world := { c.world with prompts := c.world.prompts ++ [messages] } })
    (data : AnswerQuestionInput) :
    Moves S (AnswerQuestionUseCase.execute P settings m data) := by
  unfold AnswerQuestionUseCase.execute
  refine moves_bind (retrieve_moves hS _ _ _) (fun _ => moves_bind ?_ (fun conversation => ?_))
  · unfold AnswerQuestionUseCase.load_conversation
    split
    · exact moves_of_except _
    · exact moves_bind (moves_statement hS _) (fun _ => moves_of_except _)
  · refine moves_bind ?_ (fun _ => moves_bind (moves_statement hS _) (fun _ => moves_pure _))
    exact moves_bind (moves_effect hS (fun c => hprompts c _)) (fun _ => moves_of_except _)

omit [Std.Refl S] in
theorem publish_moves (h : Allows S) (event : DomainEvent) : Moves S (publish event) :=
  moves_effect h.rows (fun c => h.events c event)

omit [Std.Refl S] in
theorem enqueue_moves (h : Allows S) (message : Message) : Moves S (enqueue message) :=
  moves_effect h.rows (fun c => h.queue c message)

omit [Std.Refl S] in
theorem save_moves (h : Allows S) (key : String) (content : Bytes) :
    Moves S (StorageProvider.save key content) :=
  moves_effect h.rows (fun c => h.blobs c _)

theorem load_document_moves {α : Type} (hS : BesideRows S) {f : KnowledgeDocument → Service α}
    (tenant_id : String) (document_id : UUID) (hf : ∀ document, Moves S (f document)) :
    Moves S (do
      let document ← of_except (← query (fun db => load_document db tenant_id document_id))
      f document) :=
  moves_bind (moves_statement hS _) (fun _ => moves_bind (moves_of_except _) hf)

theorem create_job_moves (h : Allows S) (reading : Nat) (data : CreateProcessingJobInput) :
    Moves S (CreateProcessingJobUseCase.execute settings m reading data) := by
  unfold CreateProcessingJobUseCase.execute
  refine moves_bind (moves_statement h.rows _) (fun _ => ?_)
  refine moves_bind (moves_of_except _) (fun _ => ?_)
  refine moves_bind (moves_statement h.rows _) (fun _ => ?_)
  refine moves_bind (publish_moves h _) (fun _ => ?_)
  exact moves_bind (enqueue_moves h _) (fun _ => moves_pure _)

theorem upload_moves (h : Allows S) (data : UploadDocumentInput) :
    Moves S (UploadDocumentUseCase.execute P settings m data) := by
  unfold UploadDocumentUseCase.execute
  refine moves_bind (moves_of_except _) (fun extension => ?_)
  refine moves_bind (moves_statement h.rows _) (fun existing => ?_)
  split
  · exact moves_raise _
  · refine moves_bind (save_moves h _ _) (fun _ => ?_)
    refine moves_bind (moves_statement h.rows _) (fun _ => ?_)
    refine moves_bind (publish_moves h _) (fun _ => ?_)
    exact moves_bind (create_job_moves h _ _) (fun _ => moves_pure _)

theorem add_version_moves (h : Allows S) (data : AddDocumentVersionInput) :
    Moves S (AddDocumentVersionUseCase.execute P settings m data) := by
  unfold AddDocumentVersionUseCase.execute
  refine moves_bind (moves_statement h.rows _) (fun _ => ?_)
  refine moves_bind (moves_of_except _) (fun checked => ?_)
  refine moves_bind (moves_statement h.rows _) (fun _ => ?_)
  refine moves_bind (save_moves h _ _) (fun _ => ?_)
  refine moves_bind (moves_statement h.rows _) (fun _ => ?_)
  exact moves_bind (publish_moves h _) (fun _ => moves_pure _)

theorem execute_moves (h : Allows S) (job : ProcessingJob) :
    Moves S (WorkerExecutor.execute P settings m job) := by
  have hwrite : ∀ job, Moves S (update_job m job) := fun _ => moves_statement h.rows _
  unfold WorkerExecutor.execute
  split
  · refine moves_bind (moves_of_except _) (fun refused => ?_)
    refine moves_bind (hwrite _) (fun _ => ?_)
    exact moves_bind (moves_forM (publish_moves h) _) (fun _ => moves_pure _)
  · refine moves_bind (moves_of_except _) (fun started => ?_)
    refine moves_bind (hwrite _) (fun _ => ?_)
    refine moves_bind (moves_forM (publish_moves h) _) (fun _ => ?_)
    refine moves_bind ?_ (fun outcome => moves_bind (moves_of_except _) (fun finished => ?_))
    · refine moves_attempt ?_ ?_
      · exact moves_bind (process_moves h.rows h.points _ _) (fun _ => moves_pure _)
      · rintro (e | _)
        · exact moves_pure _
        · exact moves_raise _
    · refine moves_bind (hwrite _) (fun _ => ?_)
      refine moves_bind ?_ (fun _ => moves_bind (moves_forM (publish_moves h) _)
        (fun _ => moves_pure _))
      rcases finished.2.2 with _ | message
      · exact moves_pure ()
      · exact enqueue_moves h message

theorem handle_moves (h : Allows S) (message : Message) :
    Moves S (handle_message P settings m message) := by
  unfold handle_message
  refine moves_bind (moves_statement h.rows _) (fun found => ?_)
  split
  · exact moves_pure ()
  · split
    · exact moves_pure ()
    · exact moves_bind (execute_moves h _) (fun _ => moves_pure ())

/-- Every operation is a call along the relation, where an answer is one. -/
theorem program_moves (h : Allows S) (operation : Operation)
    (hanswer : ∀ data, operation = .Answer data →
      Moves S (AnswerQuestionUseCase.execute P settings m data)) :
    Moves S (operation.program P settings m) := by
  have hS := h.rows
  have hmap : ∀ {α : Type} {p : Service α} {f : α → Response}, Moves S p →
      Moves S (do let a ← p; return f a : Service Response) :=
    fun hp => moves_bind hp (fun _ => moves_pure _)
  cases operation with
  | Upload data => exact hmap (upload_moves h data)
  | AddVersion data => exact hmap (add_version_moves h data)
  | Get data => exact hmap (load_document_moves hS _ _ (fun _ => moves_pure _))
  | List data => exact hmap (moves_bind (moves_statement hS _) (fun _ => moves_pure _))
  | ListVersions data =>
    exact hmap (load_document_moves hS _ _ (fun _ => moves_statement hS _))
  | UpdateMetadata data =>
    refine hmap (load_document_moves hS _ _ (fun _ => ?_))
    exact moves_bind (moves_statement hS _) (fun _ => moves_bind (publish_moves h _)
      (fun _ => moves_pure _))
  | Delete data =>
    refine hmap (load_document_moves hS _ _ (fun _ => ?_))
    exact moves_bind (moves_statement hS _) (fun _ => publish_moves h _)
  | Process data => exact hmap (process_moves hS h.points _ _)
  | GetJob data =>
    refine hmap (moves_bind (moves_statement hS _) (fun found => ?_))
    split
    · exact moves_raise _
    · exact moves_pure _
  | ListJobs data => exact hmap (moves_bind (moves_statement hS _) (fun _ => moves_pure _))
  | Handle message => exact hmap (handle_moves h message)
  | Search data => exact hmap (moves_bind (retrieve_moves hS _ _ _) (fun _ => moves_pure _))
  | Answer data => exact hmap (hanswer data rfl)

end Programs

end cortex_rag.service
