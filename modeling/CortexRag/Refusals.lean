-- The law of refusals: an operation that ends in a DomainError has done nothing to
-- the rows, the blobs, the points, the queue and the events. No rollback covers
-- the last four, so each check has to come before their first change.
import CortexRag.ServiceOutcomes
import CortexRag.ServiceSound

open keyed_rows labelled_runs state_programs

namespace cortex_rag.refusals

open service

/-! ## The operations -/

/-- The flush of a job row. Its foreign key refuses a document that is not stored. -/
def insert_job (db : Database) (db_now : DateTime) (job : ProcessingJob) :
    Except PyException Database :=
  if job.document_id ∈ db.documents.map (fun d => d.id) then
    .ok { db with jobs := SqlAlchemyProcessingJobRepository.add db.jobs db_now job }
  else .error IntegrityError

/-- `CreateProcessingJobUseCase.execute` in a call of its own, for any document. -/
def create_job (settings : Settings) (m : Moment) (data : CreateProcessingJobInput) :
    Service JobView := do
  of_except (← query (fun db => CreateProcessingJobUseCase.check m.order db.jobs data))
  let job := CreateProcessingJobUseCase.new_job settings.processing data m.ids.job (m.clock 0)
  write (fun db => insert_job db m.db_now job)
  publish (.ProcessingJobCreated job.id job.document_id job.tenant_id job.job_type.str)
  enqueue (WorkerExecutor.message job)
  return job

/-- An operation of the service, or a job on request. -/
inductive Work where
  | Serve (operation : Operation)
  | CreateJob (data : CreateProcessingJobInput)

/-- A work with its circumstances. -/
structure Demand where
  moment : Moment
  work : Work

/-- The kinds of calls to the outside. -/
inductive Outside where
  | Read | Write | Load | Save | Parse | Embed | Upsert | Search | Complete | Publish | Enqueue
deriving DecidableEq

/-- The calls that may raise a DomainError of their own. -/
def Outside.may_refuse : Outside → Bool
  | .Load | .Parse | .Embed | .Search | .Complete => true
  | _ => false

section Serving

variable (P : Providers) (settings : Settings)

def Work.program (m : Moment) : Work → Service Response
  | .Serve operation => operation.program P settings m
  | .CreateJob data => return .Job (← create_job settings m data)

/-- `UploadDocumentUseCase`, `AddDocumentVersionUseCase`,
`UpdateDocumentMetadataUseCase`, `DeleteDocumentUseCase`, `ProcessDocumentUseCase`,
`AnswerQuestionUseCase` and `CreateProcessingJobUseCase`, with the calls that each
makes before its commit, in their order. -/
def Work.calls : Work → Option (List Outside)
  | .Serve (.Upload _) =>
    some [.Read, .Save, .Write, .Publish, .Read, .Write, .Publish, .Enqueue]
  | .Serve (.AddVersion _) => some [.Read, .Read, .Save, .Write, .Publish]
  | .Serve (.UpdateMetadata _) => some [.Read, .Write, .Publish]
  | .Serve (.Delete _) => some [.Read, .Write, .Publish]
  | .Serve (.Process _) => some [.Read, .Load, .Parse, .Embed, .Upsert, .Write]
  | .Serve (.Answer data) =>
    match data.conversation_id with
    | none => some [.Embed, .Search, .Complete, .Write]
    | some _ => some [.Embed, .Search, .Read, .Complete, .Write]
  | .CreateJob _ => some [.Read, .Write, .Publish, .Enqueue]
  | _ => none

def perform (w : World) (d : Demand) : Except Interruption Response × World :=
  let w := { w with issued := d.moment.ids.all ++ w.issued }
  let result := session (d.work.program P settings d.moment) ⟨w, d.moment.faults, false⟩
  (result.1, result.2.world)

def step (w : World) (d : Demand) : Option World :=
  if d.moment.ids.all.Nodup ∧ ∀ id ∈ d.moment.ids.all, id ∉ w.issued then
    some (perform P settings w d).2
  else none

end Serving

/-- Where a call of the operation fails with a DomainError, the call is one that
may raise one. -/
def Honest (calls : List Outside) (faults : List (Option Interruption)) : Prop :=
  ∀ (k : Nat) (e : DomainError), faults[k]?.join = some (.Raised (.Domain e)) →
    ∃ call : Outside, calls[k]? = some call ∧ call.may_refuse = true

variable {P : Providers} {settings : Settings} {m : Moment} {w w' : World}

/-! ## Calls without a DomainError from outside -/

/-- No call to the outside fails with a DomainError. -/
def NoDomain (faults : List (Option Interruption)) : Prop :=
  ∀ e, some (Interruption.Raised (.Domain e)) ∉ faults

/-- The call ends in a DomainError. -/
def refusal (i : Interruption) : Prop := ∃ e, i = .Raised (.Domain e)

/-- The stores that no rollback covers are as before. -/
structure Kept (w w' : World) : Prop where
  blobs : w'.blobs = w.blobs
  points : w'.points = w.points
  queue : w'.queue = w.queue
  events : w'.events = w.events

/-- From the world `w` the program ends in a world of `Q`, or in a DomainError
with a world of `K`, or in some other error. -/
def Refuses {α : Type} (K : World → Prop) (w : World) (p : Service α) (Q : α → World → Prop) :
    Prop :=
  Triple (fun c => c.world = w ∧ NoDomain c.faults) p
    (fun a c => Q a c.world ∧ NoDomain c.faults) (fun i c => refusal i → K c.world)

variable {α β : Type} {K : World → Prop} {Q : α → World → Prop}

theorem no_domain_tail {faults : List (Option Interruption)} (h : NoDomain faults) :
    NoDomain faults.tail := fun e he => h e (List.mem_of_mem_tail he)

theorem refuses_pure {a : α} (h : Q a w) : Refuses K w (pure a) Q :=
  triple_pure (fun _ hc => ⟨hc.1.symm ▸ h, hc.2⟩)

theorem refuses_raise {i : Interruption} (h : K w) : Refuses K w (raise i) Q :=
  triple_raise (fun _ hc _ => hc.1.symm ▸ h)

theorem refuses_bind {p : Service α} {f : α → Service β} {M : α → World → Prop}
    {Q : β → World → Prop} (hp : Refuses K w p M)
    (hf : ∀ a w', M a w' → Refuses K w' (f a) Q) : Refuses K w (p >>= f) Q :=
  triple_bind hp (fun a c hc => hf a c.world hc.1 c ⟨rfl, hc.2⟩)

theorem refuses_external {f : Unit → Service β} {Q : β → World → Prop}
    (h : Refuses K w (f ()) Q) : Refuses K w (external >>= f) Q := by
  refine refuses_bind (M := fun _ w' => w' = w) ?_ (fun _ w' hw' => hw' ▸ h)
  rintro ⟨world, faults, broken⟩ ⟨hw, hno⟩
  rcases faults with _ | ⟨_ | fault, faults⟩
  · exact ⟨hw, hno⟩
  · exact ⟨hw, no_domain_tail hno⟩
  · rintro ⟨e, rfl⟩
    exact absurd List.mem_cons_self (hno e)

theorem refuses_of_except {x : Except PyException α} {f : α → Service β} {Q : β → World → Prop}
    (hK : K w) (h : ∀ a, x = .ok a → Refuses K w (f a) Q) :
    Refuses K w (of_except x >>= f) Q := by
  rcases x with e | a
  · refine refuses_bind (M := fun _ _ => False) ?_ (fun _ _ hfalse => hfalse.elim)
    intro c hc _
    exact hc.1.symm ▸ hK
  · exact h a rfl

theorem refuses_of_domain {x : Except DomainError α} {f : α → Service β} {Q : β → World → Prop}
    (hK : K w) (h : ∀ a, Refuses K w (f a) Q) : Refuses K w (of_domain x >>= f) Q :=
  refuses_of_except hK (fun a _ => h a)

/-- A statement raises no DomainError of its own. -/
theorem refuses_statement {g : Database → Except PyException (α × Database)} {f : α → Service β}
    {Q : β → World → Prop} (hno : ∀ e, g w.db ≠ .error (.Domain e))
    (h : ∀ a db, g w.db = .ok (a, db) → Refuses K { w with db } (f a) Q) :
    Refuses K w (statement g >>= f) Q := by
  refine refuses_bind (M := fun a w' => ∃ db, g w.db = .ok (a, db) ∧ w' = { w with db }) ?_ ?_
  · rintro ⟨world, faults, broken⟩ ⟨rfl, hfaults⟩
    cases broken
    · rcases hg : g world.db with e | ⟨a, db⟩
      · rcases faults with _ | ⟨_ | fault, faults⟩
        · simp only [statement, external, hg, Bool.false_eq_true, if_false]
          rintro ⟨e', he⟩
          cases he
          exact absurd hg (hno e')
        · simp only [statement, external, hg, Bool.false_eq_true, if_false]
          rintro ⟨e', he⟩
          cases he
          exact absurd hg (hno e')
        · rintro ⟨e', rfl⟩
          exact absurd List.mem_cons_self (hfaults e')
      · rcases faults with _ | ⟨_ | fault, faults⟩
        · simp only [statement, external, hg, Bool.false_eq_true, if_false]
          exact ⟨⟨db, rfl, rfl⟩, hfaults⟩
        · simp only [statement, external, hg, Bool.false_eq_true, if_false]
          exact ⟨⟨db, rfl, rfl⟩, no_domain_tail hfaults⟩
        · rintro ⟨e', rfl⟩
          exact absurd List.mem_cons_self (hfaults e')
    · rintro ⟨e, he⟩
      cases he
  · rintro a w' ⟨db, hg, rfl⟩
    exact h a db hg

theorem refuses_query {g : Database → α} {f : α → Service β} {Q : β → World → Prop}
    (h : Refuses K w (f (g w.db)) Q) : Refuses K w (query g >>= f) Q := by
  refine refuses_statement (fun e he => by cases he) ?_
  intro a db he
  cases he
  exact h

theorem refuses_write {g : Database → Except PyException Database} {f : Unit → Service β}
    {Q : β → World → Prop} (hno : ∀ e, g w.db ≠ .error (.Domain e))
    (h : ∀ db, g w.db = .ok db → Refuses K { w with db } (f ()) Q) :
    Refuses K w (write g >>= f) Q := by
  rcases hg : g w.db with e | db
  · refine refuses_statement ?_ ?_
    · intro e' he
      simp only [hg, Except.map, Except.error.injEq] at he
      exact hno e' (he ▸ hg)
    · intro a db he
      simp [hg, Except.map] at he
  · refine refuses_statement ?_ ?_
    · intro e' he
      simp [hg, Except.map] at he
    · intro a db' he
      simp only [hg, Except.map, Except.ok.injEq, Prod.mk.injEq] at he
      exact he.2 ▸ h db hg

theorem refuses_effect {g : World → World} {f : Unit → Service β} {Q : β → World → Prop}
    (h : Refuses K (g w) (f ()) Q) : Refuses K w (effect g >>= f) Q := by
  unfold effect
  rw [bind_assoc]
  refine refuses_external ?_
  refine refuses_bind (M := fun _ w' => w' = g w) ?_ (fun _ w' hw' => hw' ▸ h)
  rintro c ⟨rfl, hno⟩
  exact ⟨rfl, hno⟩

/-- What a session that ends in a DomainError leaves. -/
theorem session_refused {p : Service α} {Q : α → World → Prop} {c : Call}
    (hp : Refuses K c.world p Q) (hK : ∀ w db, K w → K { w with db }) (hno : NoDomain c.faults)
    {i : Interruption} (h : (session p c).1 = .error i) (hi : refusal i) :
    K (session p c).2.world := by
  have hcommit : Refuses K c.world (do let a ← p; write .ok; return a : Service α)
      (fun _ _ => True) := by
    refine refuses_bind hp ?_
    intro a w' _
    refine refuses_write (fun e he => by cases he) ?_
    intro db _
    exact refuses_pure trivial
  have hgives := hcommit c ⟨rfl, hno⟩
  unfold session at h ⊢
  rcases hend : (do let a ← p; write .ok; return a : Service α) c with ⟨e | a, d⟩
  · rw [hend] at h hgives
    cases h
    exact hK _ _ (hgives hi)
  · rw [hend] at h
    cases h

/-- Past `p` a session ends as the session of the rest does. -/
theorem session_rest {p : Service α} {f : α → Service β} {c d : Call} {a : α}
    (hp : p c = (.ok a, d)) : (session (p >>= f) c).1 = (session (f a) d).1 := by
  have hpast : (do let b ← p >>= f; write .ok; return b : Service β) c =
      (do let b ← f a; write .ok; return b : Service β) d := by
    simp only [bind, hp]
  unfold session
  rw [hpast]
  rcases (do let b ← f a; write .ok; return b : Service β) d with ⟨_ | _, _⟩ <;> rfl

/-- A session that does not come past `p` leaves what `p` does. -/
theorem session_cut {p : Service α} {f : α → Service β} {c d : Call} {i : Interruption}
    (hp : p c = (.error i, d)) :
    (session (p >>= f) c).2.world = rolled_back c.world d.world := by
  unfold session
  simp only [bind, hp]
  rfl

theorem no_domain_of_honest {calls : List Outside} {faults : List (Option Interruption)} (n : Nat)
    (h : Honest calls faults) (hquiet : ∀ call ∈ calls.drop n, call.may_refuse = false) :
    NoDomain (faults.drop n) := by
  intro e he
  obtain ⟨k, hk⟩ := List.mem_iff_getElem?.mp he
  rw [List.getElem?_drop] at hk
  obtain ⟨call, hcall, hmay⟩ := h (n + k) e (by rw [hk]; rfl)
  have hmem : call ∈ calls.drop n :=
    List.mem_of_getElem? (i := k) (by rw [List.getElem?_drop]; exact hcall)
  rw [hquiet call hmem] at hmay
  cases hmay

theorem no_domain_of_quiet {calls : List Outside} {faults : List (Option Interruption)}
    (h : Honest calls faults) (hquiet : ∀ call ∈ calls, call.may_refuse = false) :
    NoDomain faults := no_domain_of_honest 0 h hquiet

/-! ## The operations one by one -/

theorem kept_refl : Kept w w := ⟨rfl, rfl, rfl, rfl⟩

/-- An insert raises no DomainError. -/
theorem insert_no_domain {α κ : Type} [DecidableEq κ] (unique : α → κ) (t : List α) (row : α)
    (f : List α → Database) (e : DomainError) :
    (do return f (← insert_unique unique t row)) ≠ (.error (.Domain e) : Except PyException _) := by
  unfold insert_unique
  split
  · simp [bind, Except.bind, IntegrityError]
  · simp [bind, Except.bind, pure, Except.pure]

/-- A job that no active one forbids is created. -/
theorem nested_job_refuses {reading : Nat} {data : CreateProcessingJobInput}
    (hcheck : CreateProcessingJobUseCase.check m.order w.db.jobs data = .ok ()) :
    Refuses K w (CreateProcessingJobUseCase.execute settings m reading data)
      (fun _ _ => True) := by
  unfold CreateProcessingJobUseCase.execute
  refine refuses_query ?_
  rw [hcheck]
  refine refuses_write (fun e he => by cases he) ?_
  intro db _
  refine refuses_effect ?_
  refine refuses_effect ?_
  exact refuses_pure trivial

/-- An upload of a new document: no job stands in the way of its first one. -/
theorem upload_refuses {data : UploadDocumentInput}
    (hfree : ∀ j ∈ w.db.jobs, j.document_id ≠ m.ids.document) :
    Refuses (Kept w) w (UploadDocumentUseCase.execute P settings m data) (fun _ _ => True) := by
  unfold UploadDocumentUseCase.execute
  refine refuses_of_domain kept_refl ?_
  intro extension
  refine refuses_query ?_
  split
  · exact refuses_raise kept_refl
  · refine refuses_effect ?_
    refine refuses_write (insert_no_domain _ _ _ _) ?_
    intro db hdb
    obtain ⟨_, rfl⟩ := SqlAlchemyDocumentRepository.add_ok.mp hdb
    refine refuses_effect ?_
    refine refuses_bind (nested_job_refuses ?_) (fun _ _ _ => refuses_pure trivial)
    exact CreateProcessingJobUseCase.check_of_no_job hfree

theorem add_version_refuses {data : AddDocumentVersionInput} :
    Refuses (Kept w) w (AddDocumentVersionUseCase.execute P settings m data)
      (fun _ _ => True) := by
  unfold AddDocumentVersionUseCase.execute
  refine refuses_query ?_
  refine refuses_of_except kept_refl ?_
  rintro ⟨document, extension⟩ _
  refine refuses_query ?_
  refine refuses_effect ?_
  refine refuses_write (insert_no_domain _ _ _ _) ?_
  intro db _
  refine refuses_effect ?_
  exact refuses_pure trivial

theorem update_metadata_refuses {data : UpdateDocumentMetadataInput} :
    Refuses (Kept w) w (UpdateDocumentMetadataUseCase.execute m data) (fun _ _ => True) := by
  unfold UpdateDocumentMetadataUseCase.execute
  refine refuses_query ?_
  refine refuses_of_except kept_refl ?_
  intro document _
  refine refuses_write (fun e he => by cases he) ?_
  intro db _
  refine refuses_effect ?_
  exact refuses_pure trivial

theorem delete_refuses {data : GetDocumentInput} :
    Refuses (Kept w) w (DeleteDocumentUseCase.execute m data) (fun _ _ => True) := by
  unfold DeleteDocumentUseCase.execute
  refine refuses_query ?_
  refine refuses_of_except kept_refl ?_
  intro document _
  refine refuses_write (fun e he => by cases he) ?_
  intro db _
  unfold publish
  rw [← bind_pure (effect _)]
  refine refuses_effect ?_
  exact refuses_pure trivial

theorem create_job_refuses {data : CreateProcessingJobInput} :
    Refuses (Kept w) w (create_job settings m data) (fun _ _ => True) := by
  unfold create_job
  refine refuses_query ?_
  refine refuses_of_except kept_refl ?_
  intro _ _
  refine refuses_write ?_ ?_
  · intro e he
    unfold insert_job at he
    split at he
    · cases he
    · cases he
  · intro db _
    refine refuses_effect ?_
    refine refuses_effect ?_
    exact refuses_pure trivial

/-- A question changes no store that a rollback does not cover. -/
theorem answer_kept {data : AnswerQuestionInput} :
    Ends w (AnswerQuestionUseCase.execute P settings m data) (fun _ w' => Kept w w')
      (fun w' => Kept w w') := by
  unfold AnswerQuestionUseCase.execute
  refine ends_bind (retrieve_ends _ _ _ kept_refl) ?_
  rintro results w1 ⟨_, hw1⟩
  rw [hw1]
  refine ends_bind (load_conversation_ends data kept_refl) ?_
  rintro conversation w1 ⟨_, hw1⟩
  rw [hw1]
  unfold AnswerQuestionUseCase.complete
  rw [bind_assoc]
  refine ends_effect kept_refl ?_
  refine ends_of_except ⟨rfl, rfl, rfl, rfl⟩ ?_
  intro answer _
  refine ends_write ⟨rfl, rfl, rfl, rfl⟩ ?_
  intro db _
  exact ends_pure ⟨rfl, rfl, rfl, rfl⟩

/-- An ingestion that comes to its end has either stored no point or called the
outside five times. -/
theorem indexed_document_faults {tenant_id : String} {document_id : UUID}
    {document : KnowledgeDocument} {c d : Call}
    (h : indexed_document P tenant_id document_id c = (.ok document, d)) :
    d.world = c.world ∨ d.faults = c.faults.drop 5 := by
  unfold indexed_document StorageProvider.load at h
  simp only [bind_assoc] at h
  obtain ⟨loaded, c1, hquery, h⟩ := bind_ok.mp h
  obtain ⟨_, _, _, rfl⟩ := query_ok.mp hquery
  obtain ⟨⟨document', version⟩, c2, hload, h⟩ := bind_ok.mp h
  obtain ⟨_, rfl⟩ := of_except_ok.mp hload
  obtain ⟨_, c3, hext, h⟩ := bind_ok.mp h
  obtain ⟨_, rfl⟩ := external_ok.mp hext
  obtain ⟨content, c4, hlook, h⟩ := bind_ok.mp h
  obtain ⟨_, rfl⟩ := look_ok.mp hlook
  obtain ⟨_, c5, hext, h⟩ := bind_ok.mp h
  obtain ⟨_, rfl⟩ := external_ok.mp hext
  obtain ⟨parsed, c6, hparsed, h⟩ := bind_ok.mp h
  obtain ⟨_, rfl⟩ := of_except_ok.mp hparsed
  obtain ⟨_, c7, hindex, h⟩ := bind_ok.mp h
  obtain ⟨_, rfl⟩ := pure_ok.mp h
  unfold ProcessDocumentUseCase.index_chunks FastEmbedEmbeddingProvider.embed_batch
    QdrantVectorRepository.upsert at hindex
  split at hindex
  · simp only [bind_assoc] at hindex
    obtain ⟨_, c8, hext, hindex⟩ := bind_ok.mp hindex
    obtain ⟨_, rfl⟩ := external_ok.mp hext
    obtain ⟨vectors, c9, hembed, hindex⟩ := bind_ok.mp hindex
    obtain ⟨_, rfl⟩ := of_except_ok.mp hembed
    obtain ⟨points, c10, hpoints, hindex⟩ := bind_ok.mp hindex
    obtain ⟨_, rfl⟩ := of_except_ok.mp hpoints
    obtain ⟨_, rfl⟩ := effect_ok.mp hindex
    right
    simp only [← List.drop_one, List.drop_drop]
  · obtain ⟨_, rfl⟩ := pure_ok.mp hindex
    exact Or.inl rfl

/-- Once an ingestion has stored its points no call is left that may refuse. -/
theorem process_kept {tenant_id : String} {document_id : UUID}
    {faults : List (Option Interruption)} (hno : NoDomain (faults.drop 5)) {i : Interruption}
    (h : (session (do
      ProcessDocumentUseCase.execute P m tenant_id document_id
      return Response.Done) ⟨w, faults, false⟩).1 = .error i) (hi : refusal i) :
    Kept w (session (do
      ProcessDocumentUseCase.execute P m tenant_id document_id
      return Response.Done) ⟨w, faults, false⟩).2.world := by
  rw [execute_eq, bind_assoc] at h ⊢
  rcases hp : indexed_document P tenant_id document_id ⟨w, faults, false⟩ with ⟨i' | document, c⟩
  · have hstill : c.world = w := by
      have hgives := indexed_document_ends (P := P) tenant_id document_id ⟨w, faults, false⟩ rfl
      rw [hp] at hgives
      exact hgives
    rw [session_cut hp, hstill]
    exact kept_refl
  · rcases indexed_document_faults hp with hsame | hlater
    · refine session_past hp
        (fun w' db hw' => ⟨hw'.blobs, hw'.points, hw'.queue, hw'.events⟩) ?_
      rw [hsame]
      refine ends_write kept_refl ?_
      intro db _
      exact ends_pure ⟨rfl, rfl, rfl, rfl⟩
    · rw [session_rest hp] at h
      refine (session_refused (K := fun _ => False) (Q := fun _ _ => True) ?_
        (fun _ _ hfalse => hfalse) (hlater ▸ hno) h hi).elim
      refine refuses_write (fun e he => by cases he) ?_
      intro db _
      exact refuses_pure trivial

/-! ## Every operation -/

/-- The world in which the program of an operation starts. -/
def opened (w : World) (d : Demand) : World := { w with issued := d.moment.ids.all ++ w.issued }

/-- An operation of the rules, without a DomainError from outside. -/
theorem perform_kept {d : Demand} {α : Type} {p : Service α} {f : α → Response}
    (hp : d.work.program P settings d.moment = (do return f (← p)))
    (hno : NoDomain d.moment.faults)
    (hrefuses : Refuses (Kept (opened w d)) (opened w d) p (fun _ _ => True)) {e : DomainError}
    (h : (perform P settings w d).1 = .error (.Raised (.Domain e))) :
    Kept (opened w d) (perform P settings w d).2 := by
  unfold perform at h ⊢
  rw [hp] at h ⊢
  exact session_refused (Q := fun _ _ => True)
    (refuses_bind hrefuses (fun _ _ _ => refuses_pure trivial))
    (fun w' db hw' => ⟨hw'.blobs, hw'.points, hw'.queue, hw'.events⟩) hno h ⟨e, rfl⟩

theorem kept_of_refused {d : Demand} {calls : List Outside} {e : DomainError}
    (hfree : ∀ j ∈ w.db.jobs, j.document_id ≠ d.moment.ids.document)
    (hcalls : d.work.calls = some calls) (hhonest : Honest calls d.moment.faults)
    (h : (perform P settings w d).1 = .error (.Raised (.Domain e))) :
    Kept (opened w d) (perform P settings w d).2 := by
  obtain ⟨m, operation | data⟩ := d
  · cases operation with
    | Upload data =>
      cases hcalls
      exact perform_kept rfl (no_domain_of_quiet hhonest (by decide)) (upload_refuses hfree) h
    | AddVersion data =>
      cases hcalls
      exact perform_kept rfl (no_domain_of_quiet hhonest (by decide)) add_version_refuses h
    | UpdateMetadata data =>
      cases hcalls
      exact perform_kept rfl (no_domain_of_quiet hhonest (by decide)) update_metadata_refuses h
    | Delete data =>
      cases hcalls
      refine perform_kept (f := fun _ => .Done) rfl (no_domain_of_quiet hhonest (by decide)) ?_ h
      exact delete_refuses
    | Process data =>
      -- the load, the parser and the embedder may refuse, so the rules do not apply
      cases hcalls
      exact process_kept (no_domain_of_honest 5 hhonest (by decide)) h ⟨e, rfl⟩
    | Answer data =>
      refine session_leaves (w := opened w ⟨m, .Serve (.Answer data)⟩)
        (G := Kept (opened w ⟨m, .Serve (.Answer data)⟩)) ?_ m.faults
      refine ends_bind (ends_weaken answer_kept (fun _ _ hw' => hw') ?_) ?_
      · exact fun w' hw' => ⟨hw'.blobs, hw'.points, hw'.queue, hw'.events⟩
      · intro output w' hw'
        exact ends_pure ⟨hw', hw'.blobs, hw'.points, hw'.queue, hw'.events⟩
    | Get data => cases hcalls
    | List data => cases hcalls
    | ListVersions data => cases hcalls
    | GetJob data => cases hcalls
    | ListJobs data => cases hcalls
    | Handle message => cases hcalls
    | Search data => cases hcalls
  · cases hcalls
    exact perform_kept rfl (no_domain_of_quiet hhonest (by decide)) create_job_refuses h

/-! ## Every run -/

theorem create_job_sound {data : CreateProcessingJobInput} (hs : Sound P w)
    (hnew : ∀ j ∈ w.db.jobs, j.id ≠ m.ids.job) (hissued : m.ids.job ∈ w.issued) :
    Leaves w (create_job settings m data) (Sound P) := by
  have hback : Sound P (rolled_back w w) := ⟨hs.rows, hs.points⟩
  unfold create_job
  refine ends_query hback ?_
  refine ends_of_except hback ?_
  intro _ _
  refine ends_write hback ?_
  intro db hdb
  unfold insert_job at hdb
  split at hdb
  · rename_i hdocument
    obtain rfl := Except.ok.inj hdb
    have hrows : RowsSound { w.db with
        jobs := SqlAlchemyProcessingJobRepository.add w.db.jobs m.db_now
          (CreateProcessingJobUseCase.new_job settings.processing data m.ids.job (m.clock 0)) }
        w.issued := rows_sound_add_job hs.rows hnew hissued hdocument
    refine ends_effect ⟨hs.rows, hs.points⟩ ?_
    refine ends_effect ⟨hs.rows, hs.points⟩ ?_
    exact ends_pure ⟨⟨hrows, points_sound_owners hs.points (fun _ ho => ho)⟩,
      ⟨hs.rows, hs.points⟩⟩
  · cases hdb

theorem world_step_of_serve {operation : Operation} :
    step P settings w ⟨m, .Serve operation⟩ = World.step P settings w ⟨m, operation⟩ := by
  unfold step World.step World.fresh
  simp only [decide_eq_true_eq]
  rfl

theorem sound_step {d : Demand} (hs : Sound P w) (h : step P settings w d = some w') :
    Sound P w' := by
  obtain ⟨m, operation | data⟩ := d
  · rw [world_step_of_serve] at h
    exact sound_keeps hs h
  · unfold step perform at h
    split at h
    · rename_i hids
      obtain rfl := Option.some.inj h
      have hsound : Sound P (opened w ⟨m, .CreateJob data⟩) :=
        ⟨rows_sound_issued hs.rows, hs.points⟩
      have hjob : m.ids.job ∈ m.ids.all := by simp [FreshIds.all]
      have hleaves : Leaves (opened w ⟨m, .CreateJob data⟩) (create_job settings m data)
          (Sound P) :=
        create_job_sound hsound (fun j hj heq => hids.2 _ hjob (heq ▸ hs.rows.job_ids j hj))
          (List.mem_append_left _ hjob)
      refine session_leaves (w := opened w ⟨m, .CreateJob data⟩) (G := Sound P) ?_ m.faults
      exact ends_bind hleaves (fun _ w' hw' => ends_pure hw')
    · cases h

/-- An upload, a new version, a change of metadata, a deletion, an ingestion, a
question or a job that ends in a DomainError leaves every store as it was. -/
theorem refused_operations_have_no_effect {ds : List Demand}
    (hrun : run (step P settings) {} ds = some w) {d : Demand} {calls : List Outside}
    (hcalls : d.work.calls = some calls) (hnew : ∀ id ∈ d.moment.ids.all, id ∉ w.issued)
    (hhonest : Honest calls d.moment.faults) {e : DomainError}
    (hrefused : (perform P settings w d).1 = .error (.Raised (.Domain e))) :
    let after := (perform P settings w d).2
    after.db = w.db ∧ after.blobs = w.blobs ∧ after.points = w.points ∧
      after.queue = w.queue ∧ after.events = w.events := by
  have hs : Sound P w := run_invariant (fun _ _ _ => sound_step) (sound_init P) hrun
  have hfree : ∀ j ∈ w.db.jobs, j.document_id ≠ d.moment.ids.document := by
    intro j hj heq
    obtain ⟨x, hx, hid⟩ := List.mem_map.mp (hs.rows.ordered j hj)
    refine hnew d.moment.ids.document (by simp [FreshIds.all]) ?_
    rw [← heq, ← hid]
    exact hs.rows.document_ids x hx
  have hkept := kept_of_refused hfree hcalls hhonest hrefused
  have hdb : (perform P settings w d).2.db = w.db := by
    unfold perform at hrefused ⊢
    exact session_error (Prod.ext hrefused rfl)
  exact ⟨hdb, hkept.blobs, hkept.points, hkept.queue, hkept.events⟩

/-- The same bytes a second time, after the upload of a PDF. -/
def second_upload : Demand := ⟨plain.moment 1, .Serve (plain.upload [65])⟩

/-- The second upload ends in a conflict and leaves no blob of its own. -/
theorem a_second_upload_leaves_no_trace :
    ∃ w, run (step plain.providers {}) {} [⟨plain.moment 0, .Serve (plain.upload [65])⟩] =
        some w ∧
      (perform plain.providers {} w second_upload).1 = .error (.Raised (.Domain (.ConflictError
        ("Document already exists with checksum A (id=" ++ (plain.ids 0).document.str ++ ").")))) ∧
      (perform plain.providers {} w second_upload).2.blobs = w.blobs := by
  have hfirst : (run (step plain.providers {}) {}
      [⟨plain.moment 0, .Serve (plain.upload [65])⟩]).map (fun w =>
        decide ((∀ id ∈ second_upload.moment.ids.all, id ∉ w.issued) ∧
          (perform plain.providers {} w second_upload).1 = .error (.Raised (.Domain (.ConflictError
            ("Document already exists with checksum A (id=" ++ (plain.ids 0).document.str ++
              ").")))))) = some true := by
    decide +kernel
  obtain ⟨w, hw, hboth⟩ := Option.map_eq_some_iff.mp hfirst
  obtain ⟨hnew, hrefused⟩ := of_decide_eq_true hboth
  have hhonest : Honest [.Read, .Save, .Write, .Publish, .Read, .Write, .Publish, .Enqueue]
      second_upload.moment.faults := fun k e h => by cases h
  exact ⟨w, hw, hrefused,
    (refused_operations_have_no_effect hw rfl hnew hhonest hrefused).2.1⟩

end cortex_rag.refusals
