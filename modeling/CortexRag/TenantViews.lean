-- What belongs to a tenant in the stores of the service, and that an operation
-- of another tenant leaves it as it is.
import CortexRag.ServiceSound
import Mathlib.Data.Set.Function

open keyed_rows

namespace cortex_rag.service

/-! ## The view of a tenant -/

/-- The conversations by id and tenant: no operation changes these columns. -/
def holders (db : Database) : List (UUID × String) :=
  db.conversations.map (fun c => (c.id, c.tenant_id))

/-- The rows, the blobs and the points of a tenant. A version belongs to the
tenant of its document, a blob to that of its version, and a message to that
of its conversation. -/
structure View where
  documents : Set KnowledgeDocumentModel
  versions : Set KnowledgeDocumentVersionModel
  blobs : Set (String × Option Bytes)
  jobs : Set ProcessingJobModel
  conversations : Set ConversationModel
  messages : Set ConversationMessageModel
  points : Set VectorPoint

def view (tenant_id : String) (w : World) : View where
  documents := {m | m ∈ w.db.documents ∧ m.tenant_id = tenant_id}
  versions := {v | v ∈ w.db.versions ∧ (v.document_id, tenant_id) ∈ owners w.db}
  blobs := {b | ∃ v ∈ w.db.versions, (v.document_id, tenant_id) ∈ owners w.db ∧
    b = (v.storage_path, w.blobs v.storage_path)}
  jobs := {j | j ∈ w.db.jobs ∧ j.tenant_id = tenant_id}
  conversations := {c | c ∈ w.db.conversations ∧ c.tenant_id = tenant_id}
  messages := {m | m ∈ w.db.messages ∧ (m.conversation_id, tenant_id) ∈ holders w.db}
  points := {p | p ∈ w.points ∧ p.payload.tenant_id = tenant_id}

/-- The rows of the tenant are the same in both databases. -/
structure SameRows (tenant_id : String) (db db' : Database) : Prop where
  documents : ∀ m, m.tenant_id = tenant_id → (m ∈ db.documents ↔ m ∈ db'.documents)
  versions : ∀ v : KnowledgeDocumentVersionModel, (v.document_id, tenant_id) ∈ owners db →
    (v ∈ db.versions ↔ v ∈ db'.versions)
  jobs : ∀ j, j.tenant_id = tenant_id → (j ∈ db.jobs ↔ j ∈ db'.jobs)
  conversations : ∀ c, c.tenant_id = tenant_id → (c ∈ db.conversations ↔ c ∈ db'.conversations)
  messages : ∀ m : ConversationMessageModel, (m.conversation_id, tenant_id) ∈ holders db →
    (m ∈ db.messages ↔ m ∈ db'.messages)

/-- The blobs of the versions of the tenant are the same. -/
def SameBlobs (tenant_id : String) (db : Database) (blobs blobs' : Blobs) : Prop :=
  ∀ v ∈ db.versions, (v.document_id, tenant_id) ∈ owners db →
    blobs v.storage_path = blobs' v.storage_path

/-- The points of the tenant are the same in both indexes. -/
def SamePoints (tenant_id : String) (points points' : List VectorPoint) : Prop :=
  ∀ p, p.payload.tenant_id = tenant_id → (p ∈ points ↔ p ∈ points')

/-- What a tenant has is the same in both worlds. -/
structure Same (tenant_id : String) (w w' : World) : Prop where
  rows : SameRows tenant_id w.db w'.db
  blobs : SameBlobs tenant_id w.db w.blobs w'.blobs
  points : SamePoints tenant_id w.points w'.points

variable {t : String} {db db' : Database} {w w' : World}

theorem owners_of_same (h : ∀ m, m.tenant_id = t → (m ∈ db.documents ↔ m ∈ db'.documents))
    (d : UUID) : (d, t) ∈ owners db ↔ (d, t) ∈ owners db' := by
  simp only [owners, List.mem_map, Prod.mk.injEq]
  constructor
  · rintro ⟨m, hm, hid, htenant⟩
    exact ⟨m, (h m htenant).mp hm, hid, htenant⟩
  · rintro ⟨m, hm, hid, htenant⟩
    exact ⟨m, (h m htenant).mpr hm, hid, htenant⟩

theorem holders_of_same
    (h : ∀ c, c.tenant_id = t → (c ∈ db.conversations ↔ c ∈ db'.conversations)) (c : UUID) :
    (c, t) ∈ holders db ↔ (c, t) ∈ holders db' := by
  simp only [holders, List.mem_map, Prod.mk.injEq]
  constructor
  · rintro ⟨x, hx, hid, htenant⟩
    exact ⟨x, (h x htenant).mp hx, hid, htenant⟩
  · rintro ⟨x, hx, hid, htenant⟩
    exact ⟨x, (h x htenant).mpr hx, hid, htenant⟩

theorem same_rows_refl (t : String) (db : Database) : SameRows t db db :=
  ⟨fun _ _ => Iff.rfl, fun _ _ => Iff.rfl, fun _ _ => Iff.rfl, fun _ _ => Iff.rfl,
    fun _ _ => Iff.rfl⟩

theorem same_rows_symm (h : SameRows t db db') : SameRows t db' db where
  documents m hm := (h.documents m hm).symm
  versions v hv := (h.versions v ((owners_of_same h.documents _).mpr hv)).symm
  jobs j hj := (h.jobs j hj).symm
  conversations c hc := (h.conversations c hc).symm
  messages m hm := (h.messages m ((holders_of_same h.conversations _).mpr hm)).symm

theorem same_rows_trans {db'' : Database} (h : SameRows t db db') (h' : SameRows t db' db'') :
    SameRows t db db'' where
  documents m hm := (h.documents m hm).trans (h'.documents m hm)
  versions v hv := (h.versions v hv).trans
    (h'.versions v ((owners_of_same h.documents _).mp hv))
  jobs j hj := (h.jobs j hj).trans (h'.jobs j hj)
  conversations c hc := (h.conversations c hc).trans (h'.conversations c hc)
  messages m hm := (h.messages m hm).trans
    (h'.messages m ((holders_of_same h.conversations _).mp hm))

/-- Two worlds give a tenant one view when its rows, its blobs and its points are
the same. -/
theorem view_eq_iff : view t w = view t w' ↔ Same t w w' := by
  constructor
  · intro h
    simp only [view, View.mk.injEq, Set.ext_iff, Set.mem_ofPred_eq] at h
    obtain ⟨hdocuments, hversions, hblobs, hjobs, hconversations, hmessages, hpoints⟩ := h
    have hdoc : ∀ m, m.tenant_id = t → (m ∈ w.db.documents ↔ m ∈ w'.db.documents) :=
      fun m hm => by simpa [hm] using hdocuments m
    have hconv : ∀ c, c.tenant_id = t → (c ∈ w.db.conversations ↔ c ∈ w'.db.conversations) :=
      fun c hc => by simpa [hc] using hconversations c
    refine ⟨⟨hdoc, ?_, ?_, hconv, ?_⟩, ?_, ?_⟩
    · intro v hv
      simpa [hv, (owners_of_same hdoc _).mp hv] using hversions v
    · exact fun j hj => by simpa [hj] using hjobs j
    · intro m hm
      simpa [hm, (holders_of_same hconv _).mp hm] using hmessages m
    · intro v hv howner
      obtain ⟨v', _, _, heq⟩ := (hblobs (v.storage_path, w.blobs v.storage_path)).mp
        ⟨v, hv, howner, rfl⟩
      rw [Prod.mk.injEq] at heq
      rw [heq.2, heq.1]
    · exact fun p hp => by simpa [hp] using hpoints p
  · rintro ⟨hrows, hblobs, hpoints⟩
    have howners := owners_of_same hrows.documents
    have hholders := holders_of_same hrows.conversations
    simp only [view, View.mk.injEq, Set.ext_iff, Set.mem_ofPred_eq]
    refine ⟨?_, ?_, ?_, ?_, ?_, ?_, ?_⟩
    · intro m
      rw [and_congr_left_iff]
      exact hrows.documents m
    · intro v
      rw [← howners, and_congr_left_iff]
      exact hrows.versions v
    · intro b
      constructor
      · rintro ⟨v, hv, howner, rfl⟩
        exact ⟨v, (hrows.versions v howner).mp hv, (howners _).mp howner, by
          rw [hblobs v hv howner]⟩
      · rintro ⟨v, hv, howner, rfl⟩
        rw [← howners] at howner
        have hv := (hrows.versions v howner).mpr hv
        exact ⟨v, hv, howner, by rw [hblobs v hv howner]⟩
    · intro j
      rw [and_congr_left_iff]
      exact hrows.jobs j
    · intro c
      rw [and_congr_left_iff]
      exact hrows.conversations c
    · intro m
      rw [← hholders, and_congr_left_iff]
      exact hrows.messages m
    · intro p
      rw [and_congr_left_iff]
      exact hpoints p

/-! ## What an operation of another tenant leaves -/

theorem owner_unique (hk : Keyed KnowledgeDocumentModel.id db.documents) {d : UUID}
    {tenant_id : String} (h : (d, t) ∈ owners db) (h' : (d, tenant_id) ∈ owners db) :
    t = tenant_id := by
  simp only [owners, List.mem_map, Prod.mk.injEq] at h h'
  obtain ⟨m, hm, hid, rfl⟩ := h
  obtain ⟨m', hm', hid', rfl⟩ := h'
  rw [eq_of_key _ hk hm hm' (hid.trans hid'.symm)]

theorem holder_unique (hk : Keyed ConversationModel.id db.conversations) {c : UUID}
    {tenant_id : String} (h : (c, t) ∈ holders db) (h' : (c, tenant_id) ∈ holders db) :
    t = tenant_id := by
  simp only [holders, List.mem_map, Prod.mk.injEq] at h h'
  obtain ⟨x, hx, hid, rfl⟩ := h
  obtain ⟨x', hx', hid', rfl⟩ := h'
  rw [eq_of_key _ hk hx hx' (hid.trans hid'.symm)]

theorem same_rows_modify {k : UUID} {f : KnowledgeDocumentModel → KnowledgeDocumentModel}
    (htenant : ∀ m, (f m).tenant_id = m.tenant_id)
    (hother : ∀ m ∈ db.documents, m.id = k → m.tenant_id ≠ t) :
    SameRows t db { db with documents := modify KnowledgeDocumentModel.id k f db.documents } :=
  { same_rows_refl t db with
    documents := fun _ hm => (mem_modify_other _ htenant hother hm).symm }

theorem same_rows_jobs {jobs : List ProcessingJobModel}
    (h : ∀ j, j.tenant_id = t → (j ∈ db.jobs ↔ j ∈ jobs)) : SameRows t db { db with jobs } :=
  { same_rows_refl t db with jobs := h }

theorem same_rows_update_job (db_now : DateTime) (job : ProcessingJob)
    (hother : ∀ j ∈ db.jobs, j.id = job.id → j.tenant_id ≠ t) :
    SameRows t db { db with jobs := SqlAlchemyProcessingJobRepository.update db.jobs db_now job } :=
  same_rows_jobs (fun _ hj => (mem_modify_other _
    (SqlAlchemyProcessingJobRepository.update_columns_tenant_id db_now job) hother hj).symm)

theorem same_rows_add_job {db_now : DateTime} {job : ProcessingJob} (h : job.tenant_id ≠ t) :
    SameRows t db { db with jobs := SqlAlchemyProcessingJobRepository.add db.jobs db_now job } := by
  refine same_rows_jobs ?_
  intro j hj
  unfold SqlAlchemyProcessingJobRepository.add
  rw [List.mem_append, List.mem_singleton]
  constructor
  · exact Or.inl
  · rintro (hmem | rfl)
    · exact hmem
    · exact absurd hj h

theorem same_rows_insert_version {v : KnowledgeDocumentVersionModel}
    (h : (v.document_id, t) ∉ owners db) :
    SameRows t db { db with versions := db.versions ++ [v] } :=
  { same_rows_refl t db with
    versions := by
      intro x hx
      simp only [List.mem_append, List.mem_singleton]
      constructor
      · exact Or.inl
      · rintro (hmem | rfl)
        · exact hmem
        · exact absurd hx h }

theorem same_rows_insert_document {d : KnowledgeDocumentModel} (h : d.tenant_id ≠ t) :
    SameRows t db { db with documents := db.documents ++ [d] } :=
  { same_rows_refl t db with
    documents := by
      intro m hm
      simp only [List.mem_append, List.mem_singleton]
      constructor
      · exact Or.inl
      · rintro (hmem | rfl)
        · exact hmem
        · exact absurd hm h }

theorem same_rows_converse {rows : List ConversationMessageModel}
    {conversations : List ConversationModel}
    (hrows : ∀ m ∈ rows, (m.conversation_id, t) ∉ holders db)
    (hconversations : ∀ c ∈ conversations, c.tenant_id ≠ t) :
    SameRows t db { db with
      messages := db.messages ++ rows
      conversations := db.conversations ++ conversations } :=
  { same_rows_refl t db with
    conversations := by
      intro c hc
      rw [List.mem_append]
      constructor
      · exact Or.inl
      · rintro (hmem | hmem)
        · exact hmem
        · exact absurd hc (hconversations c hmem)
    messages := by
      intro m hm
      rw [List.mem_append]
      constructor
      · exact Or.inl
      · rintro (hmem | hmem)
        · exact hmem
        · exact absurd hm (hrows m hmem) }

/-- The names that are hashed for the points of the index. -/
def chunk_names (points : List VectorPoint) : Set String :=
  {name | ∃ p ∈ points, ∃ d : UUID, p.payload.document_id = d.str ∧
    name = chunk_name d p.payload.chunk_index}

theorem document_of_chunk_name {d d' : UUID} {i i' : Nat}
    (h : chunk_name d i = chunk_name d' i') : d = d' := by
  have hchars := congrArg String.toList h
  unfold chunk_name at hchars
  simp only [String.toList_append, List.append_assoc] at hchars
  have hrest := List.append_cancel_left hchars
  have hd := (List.append_inj hrest (by simp [UUID.str, UUID.length_chars])).1
  exact UUID.str_injective _ _ (String.toList_injective hd)

variable {P : Providers} {settings : Settings} {names : Set String}

/-- The chunks of another tenant take the place of no point of the tenant, as
long as no two names in use have one hash. -/
theorem same_points_indexed {tenant_id : String} {d : UUID} {chunks : List TextChunk}
    {before after : List VectorPoint} (hk : Keyed KnowledgeDocumentModel.id db.documents)
    (hp : PointsSound P db before) (ho : (d, tenant_id) ∈ owners db) (hother : tenant_id ≠ t)
    (hi : Indexed P tenant_id d chunks before after) (hinj : Set.InjOn P.uuid5 names)
    (hbefore : chunk_names before ⊆ names) (hafter : chunk_names after ⊆ names) :
    SamePoints t before after := by
  intro p htenant
  constructor
  · intro hmem
    have hid : p.id ∈ after.map VectorPoint.id := by
      have hid : p.id ∈ before.map VectorPoint.id := List.mem_map.mpr ⟨p, hmem, rfl⟩
      rcases hi with ⟨_, rfl⟩ | ⟨vectors, rows, _, _, rfl⟩
      · exact hid
      · exact mem_key_upserts _ hid
    obtain ⟨p', hmem', hid⟩ := List.mem_map.mp hid
    rcases mem_of_indexed hi hmem' with hold | ⟨_, hdocument', hid'⟩
    · exact eq_of_key _ hp.keyed hold hmem hid ▸ hmem'
    · obtain ⟨dp, hdp, hdocument, hidp⟩ := hp.owned p hmem
      have hhash := hid'.symm.trans (hid.trans hidp)
      have hname := hinj (hafter ⟨p', hmem', d, hdocument', rfl⟩)
        (hbefore ⟨p, hmem, dp, hdocument, rfl⟩) hhash
      rw [← document_of_chunk_name hname, htenant] at hdp
      exact absurd (owner_unique hk ho hdp) hother
  · intro hmem
    rcases mem_of_indexed hi hmem with hold | ⟨hnew, _⟩
    · exact hold
    · exact absurd (hnew.symm.trans htenant) hother

theorem same_blobs_refl (t : String) (db : Database) (blobs : Blobs) :
    SameBlobs t db blobs blobs := fun _ _ _ => rfl

/-- A blob under the key of a new version is the blob of no stored one. -/
theorem same_blobs_save {issued : List UUID} (h : RowsSound db issued) {version_id : UUID}
    (hnew : ∀ v ∈ db.versions, v.id ≠ version_id) {tenant_id : String} {document_id : UUID}
    {extension : String} {at_ : DateTime} (hdot : '.' ∉ extension.toList) (blobs : Blobs)
    (content : Bytes) :
    SameBlobs t db blobs (blobs.save
      (build_document_version_key tenant_id document_id version_id extension at_) content) := by
  intro v hv _
  obtain ⟨_, _, extension', _, hdot', hpath⟩ := h.keyholders v hv
  rw [Blobs.save_ne]
  intro he
  rw [hpath] at he
  exact hnew v hv (version_id_of_key hdot' hdot he)

/-- The rows of a document that `get` returns are of the asking tenant. -/
theorem other_rows_of_get {issued : List UUID} (h : RowsSound db issued) {tenant_id : String}
    {document_id : UUID} {document : KnowledgeDocument} (changed : KnowledgeDocument)
    (hget : SqlAlchemyDocumentRepository.get db tenant_id document_id = some document)
    (hid : changed.id = document.id) (hother : tenant_id ≠ t) (db_now : DateTime) :
    SameRows t db (SqlAlchemyDocumentRepository.update db db_now changed) := by
  refine same_rows_modify (by simp) ?_
  intro m hm hk
  rw [(pointer_of_get h hget m hm (hk.trans hid)).2.1]
  exact hother

theorem same_rows_executed {m : Moment} {job : ProcessingJob} (h : Sound P w)
    (hjob : ∀ j ∈ w.db.jobs, j.id = job.id → j.tenant_id ≠ t) (hother : job.tenant_id ≠ t)
    (he : Executed P settings m w job w') : SameRows t w.db w'.db := by
  have hafter : ∀ (job' : ProcessingJob) db_now, ∀ j ∈
      SqlAlchemyProcessingJobRepository.update w.db.jobs db_now job', j.id = job.id →
      j.tenant_id ≠ t := by
    intro job' db_now j hj hid
    rcases SqlAlchemyProcessingJobRepository.mem_update hj with ⟨hj, _⟩ | ⟨j0, hj0, _, rfl⟩
    · exact hjob j hj hid
    · rw [SqlAlchemyProcessingJobRepository.update_columns_id] at hid
      rw [SqlAlchemyProcessingJobRepository.update_columns_tenant_id]
      exact hjob j0 hj0 hid
  cases he with
  | refused job' events hrefused hb =>
    rw [hb.db]
    refine same_rows_update_job m.db_now job' ?_
    rw [(WorkerExecutor.refused_ok hrefused).1]
    exact hjob
  | failed name text job1 job2 events more enqueued points hstarted hfinished _ hb =>
    have hid := (WorkerExecutor.started_ok hstarted).2.1
    rw [hb.db]
    refine same_rows_trans (same_rows_update_job m.db_now job1 ?_)
      (same_rows_update_job m.db_now job2 ?_)
    · rw [hid]
      exact hjob
    · rw [(WorkerExecutor.finished_ok hfinished).1, hid]
      exact hafter job1 m.db_now
  | completed name job1 job2 events more enqueued document points hstarted hfinished hi hb =>
    have hid := (WorkerExecutor.started_ok hstarted).2.1
    rw [hb.db]
    refine same_rows_trans (other_rows_of_get h.rows (ProcessDocumentUseCase.processed document)
      hi.got rfl hother m.db_now) ?_
    refine same_rows_trans (same_rows_update_job m.db_now job1 ?_)
      (same_rows_update_job m.db_now job2 ?_)
    · rw [hid]
      exact hjob
    · rw [(WorkerExecutor.finished_ok hfinished).1, hid]
      exact hafter job1 m.db_now

theorem same_points_ingested {tenant_id : String} {document_id : UUID}
    {document : KnowledgeDocument} {points : List VectorPoint} (h : Sound P w)
    (hother : tenant_id ≠ t) (hi : Ingested P w tenant_id document_id document points)
    (hinj : Set.InjOn P.uuid5 names) (hbefore : chunk_names w.points ⊆ names)
    (hafter : chunk_names points ⊆ names) : SamePoints t w.points points := by
  obtain ⟨_, _, _, _, _, _, hindexed⟩ := hi.indexed
  exact same_points_indexed h.rows.documents h.points (document_id_of_get hi.got).1 hother hindexed
    hinj hbefore hafter

/-- What an execution leaves of the blobs and the points. -/
theorem executed_stores {m : Moment} {job : ProcessingJob} (he : Executed P settings m w job w') :
    w'.blobs = w.blobs ∧ Partial P w job.tenant_id job.document_id w'.points := by
  cases he with
  | refused job' events _ hb => exact ⟨hb.blobs, Or.inl hb.points⟩
  | failed name text job1 job2 events more enqueued points _ _ hpartial hb =>
    exact ⟨hb.blobs, hb.points ▸ hpartial⟩
  | completed name job1 job2 events more enqueued document points _ _ hi hb =>
    exact ⟨hb.blobs, hb.points ▸ Or.inr ⟨document, hi⟩⟩

/-- The rows that a turn of another tenant stores belong to that tenant. -/
theorem same_rows_stored {issued : List UUID} (h : RowsSound db issued) {fresh_id : UUID}
    (hfresh : ∀ c ∈ db.conversations, c.id ≠ fresh_id) {data : AnswerQuestionInput}
    {conversation changed : Conversation} {db_now : DateTime} (hother : data.tenant_id ≠ t)
    (hload : AnswerQuestionUseCase.load_or_create_conversation db fresh_id data =
      .ok conversation)
    (hstored : AnswerQuestionUseCase.stored db db_now data changed = .ok db')
    (hid : changed.id = conversation.id) (htenant : changed.tenant_id = conversation.tenant_id) :
    SameRows t db db' := by
  rw [← conversation_log.committed_written] at hstored
  obtain ⟨hinsert, hdb⟩ := conversation_log.committed_ok hstored
  obtain ⟨hsaid, hnew⟩ := written_rows db db_now data changed
  rw [hdb, (insert_messages_ok hinsert).1]
  have hheld : (changed.id, t) ∉ holders db := by
    rcases load_conversation_ok hload with ⟨_, rfl⟩ | ⟨id, _, hget⟩
    · intro hin
      obtain ⟨c, hc, he⟩ := List.mem_map.mp hin
      rw [Prod.mk.injEq] at he
      exact hfresh c hc (he.1.trans hid)
    · obtain ⟨c, hc, hcid, hctenant, hconversation, _⟩ := conversation_row hget
      intro hin
      refine hother (holder_unique h.conversations ?_ hin)
      rw [hid, hconversation, ← hcid, ← hctenant]
      exact List.mem_map.mpr ⟨c, hc, rfl⟩
  refine same_rows_converse ?_ ?_
  · intro m hm
    rw [hsaid m hm]
    exact hheld
  · rcases hnew with ⟨hnone, c, hc, _, hctenant⟩ | ⟨_, hc⟩
    · rw [hc]
      intro x hx
      rw [List.mem_singleton] at hx
      rcases load_conversation_ok hload with ⟨_, rfl⟩ | ⟨id, hsome, _⟩
      · rw [hx, hctenant, htenant]
        exact hother
      · rw [hnone] at hsome
        cases hsome
    · rw [hc]
      simp

/-- No operation of another tenant changes the view of a tenant. -/
theorem view_kept {r : Request} (h : Sound P w) (hw : w.step P settings r = some w')
    (hother : r.operation.tenant_id ≠ t) (hinj : Set.InjOn P.uuid5 names)
    (hbefore : chunk_names w.points ⊆ names) (hafter : chunk_names w'.points ⊆ names) :
    view t w' = view t w := by
  obtain ⟨_, hnew, hm⟩ := moved_of_step hw
  have hdocument : ∀ d ∈ w.db.documents, d.id ≠ r.moment.ids.document :=
    ne_of_fresh h.rows.document_ids (hnew _ (by simp [FreshIds.all]))
  have hversion : ∀ v ∈ w.db.versions, v.id ≠ r.moment.ids.version :=
    ne_of_fresh h.rows.version_ids (hnew _ (by simp [FreshIds.all]))
  have hconversation : ∀ c ∈ w.db.conversations, c.id ≠ r.moment.ids.conversation :=
    ne_of_fresh h.rows.conversation_ids (hnew _ (by simp [FreshIds.all]))
  have ho : Sound P (opened w r) := opened_sound h
  generalize r.operation = operation at hm hother
  suffices hsame : SameRows t w.db w'.db ∧ SameBlobs t w.db w.blobs w'.blobs ∧
      SamePoints t w.points w'.points from (view_eq_iff.mpr ⟨hsame.1, hsame.2.1, hsame.2.2⟩).symm
  cases hm with
  | still _ _ hb =>
    rw [hb.db, hb.blobs, hb.points]
    exact ⟨same_rows_refl t _, same_blobs_refl t _ _, fun _ _ => Iff.rfl⟩
  | saved _ _ tenant_id document_id extension at_ content hdot hb =>
    rw [hb.db, hb.blobs, hb.points]
    exact ⟨same_rows_refl t _, same_blobs_save h.rows hversion hdot _ _, fun _ _ => Iff.rfl⟩
  | uploaded _ data extension version document job hdot _ hv hd hj _ hb =>
    rw [hb.db, hb.blobs, hb.points]
    have howner : ((version_to_model r.moment.db_now version).document_id, t) ∉ owners w.db := by
      intro hin
      obtain ⟨x, hx, he⟩ := List.mem_map.mp hin
      rw [Prod.mk.injEq, hv] at he
      exact hdocument x hx he.1
    have hinserted := same_rows_trans (same_rows_insert_version howner)
      (same_rows_insert_document (d := doc_to_model r.moment.db_now document)
        (by rw [hd]; exact hother))
    refine ⟨same_rows_trans hinserted (same_rows_add_job ?_), ?_, fun _ _ => Iff.rfl⟩
    · rw [hj, hd]
      exact hother
    · rw [hv]
      exact same_blobs_save h.rows hversion hdot _ _
  | version_added _ data extension document version hdot hget hv _ hb =>
    rw [hb.db, hb.blobs, hb.points]
    have howner : ((version_to_model r.moment.db_now version).document_id, t) ∉ owners w.db := by
      rw [hv]
      intro hin
      exact hother (owner_unique h.rows.documents (document_id_of_get hget).1 hin)
    refine ⟨same_rows_trans (same_rows_insert_version howner) (same_rows_modify (by simp) ?_), ?_,
      fun _ _ => Iff.rfl⟩
    · intro m hm hk
      rw [(pointer_of_get h.rows hget m hm hk).2.1]
      exact hother
    · rw [hv]
      exact same_blobs_save h.rows hversion hdot _ _
  | updated _ data document hget hb =>
    rw [hb.db, hb.blobs, hb.points]
    exact ⟨other_rows_of_get h.rows (UpdateDocumentMetadataUseCase.merged data document) hget rfl
      hother _, same_blobs_refl t _ _, fun _ _ => Iff.rfl⟩
  | deleted _ data document hget hb =>
    rw [hb.db, hb.blobs, hb.points]
    exact ⟨other_rows_of_get h.rows (DeleteDocumentUseCase.marked (r.moment.clock 0) document)
      hget rfl hother _, same_blobs_refl t _ _, fun _ _ => Iff.rfl⟩
  | indexed _ _ document_id document points hi hb =>
    rw [hb.db, hb.blobs]
    rw [hb.points] at hafter ⊢
    have hpoints : SamePoints t (opened w r).points points :=
      same_points_ingested ho hother hi hinj hbefore hafter
    exact ⟨same_rows_refl t _, same_blobs_refl t _ _, hpoints⟩
  | processed _ data document points hi hb =>
    rw [hb.db, hb.blobs]
    rw [hb.points] at hafter ⊢
    have hpoints : SamePoints t (opened w r).points points :=
      same_points_ingested ho hother hi hinj hbefore hafter
    exact ⟨other_rows_of_get h.rows (ProcessDocumentUseCase.processed document) hi.got rfl hother _,
      same_blobs_refl t _ _, hpoints⟩
  | handled _ message job hget he =>
    obtain ⟨row, hrow, hrowid, hrowtenant, hjob⟩ := SqlAlchemyProcessingJobRepository.get_row hget
    have htenant : job.tenant_id ≠ t := by
      rw [hjob]
      exact fun he => hother (hrowtenant.symm.trans he)
    have hrows : ∀ j ∈ w.db.jobs, j.id = job.id → j.tenant_id ≠ t := by
      intro j hj hid
      rw [hjob] at hid
      rw [eq_of_key _ h.rows.jobs hj hrow hid]
      exact hrowtenant ▸ hother
    obtain ⟨hblobs, hpartial⟩ := executed_stores he
    rw [hblobs]
    have hsame : SameRows t (opened w r).db w'.db := same_rows_executed ho hrows htenant he
    refine ⟨hsame, same_blobs_refl t _ _, ?_⟩
    rcases hpartial with hpoints | ⟨document, hi⟩
    · rw [hpoints]
      exact fun _ _ => Iff.rfl
    · have hpoints : SamePoints t (opened w r).points w'.points :=
        same_points_ingested ho htenant hi hinj hbefore hafter
      exact hpoints
  | answered _ data conversation answer db hload hstored hb =>
    rw [hb.db, hb.blobs, hb.points]
    have hsame : SameRows t (opened w r).db db :=
      same_rows_stored ho.rows hconversation hother hload hstored rfl rfl
    exact ⟨hsame, same_blobs_refl t _ _, fun _ _ => Iff.rfl⟩

end cortex_rag.service
