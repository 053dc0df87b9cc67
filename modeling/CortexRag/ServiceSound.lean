-- What holds of the stores of the service after any operations: ids are
-- unique, and every version, job, message and point has its owner.
import CortexRag.ConversationLog
import CortexRag.ServiceSteps

open keyed_rows labelled_runs

namespace cortex_rag.service

/-! ## The rows -/

/-- The documents by id and tenant: no operation changes these columns. -/
def owners (db : Database) : List (UUID × String) := db.documents.map (fun d => (d.id, d.tenant_id))

/-- The pointer of a document names a version of its own. -/
def Pointed (db : Database) (d : KnowledgeDocumentModel) : Prop :=
  ∃ v ∈ db.versions, d.current_version_id = some v.id ∧ v.document_id = d.id

/-- The blob of a version stands under a key that ends in the version id. -/
def Keyholder (v : KnowledgeDocumentVersionModel) : Prop :=
  ∃ tenant_id document_id extension at_, '.' ∉ String.toList extension ∧
    v.storage_path = build_document_version_key tenant_id document_id v.id extension at_

/-- The rows are keyed, their ids were given out by `uuid4`, and each row has
the rows that it names. -/
structure RowsSound (db : Database) (issued : List UUID) : Prop where
  documents : Keyed KnowledgeDocumentModel.id db.documents
  versions : Keyed KnowledgeDocumentVersionModel.id db.versions
  numbers : Keyed KnowledgeDocumentVersionModel.number_key db.versions
  jobs : Keyed ProcessingJobModel.id db.jobs
  conversations : Keyed ConversationModel.id db.conversations
  places : Keyed ConversationMessageModel.seq_key db.messages
  document_ids : ∀ d ∈ db.documents, d.id ∈ issued
  version_ids : ∀ v ∈ db.versions, v.id ∈ issued
  job_ids : ∀ j ∈ db.jobs, j.id ∈ issued
  conversation_ids : ∀ c ∈ db.conversations, c.id ∈ issued
  owned : ∀ v ∈ db.versions, v.document_id ∈ db.documents.map (fun d => d.id)
  pointed : ∀ d ∈ db.documents, Pointed db d
  keyholders : ∀ v ∈ db.versions, Keyholder v
  ordered : ∀ j ∈ db.jobs, j.document_id ∈ db.documents.map (fun d => d.id)
  said : ∀ m ∈ db.messages, m.conversation_id ∈ db.conversations.map (fun c => c.id)

theorem rows_sound_init : RowsSound {} [] := by
  constructor <;> simp [Keyed]

theorem rows_sound_issued {db : Database} {issued more : List UUID} (h : RowsSound db issued) :
    RowsSound db (more ++ issued) :=
  { h with
    document_ids := fun d hd => List.mem_append_right _ (h.document_ids d hd)
    version_ids := fun v hv => List.mem_append_right _ (h.version_ids v hv)
    job_ids := fun j hj => List.mem_append_right _ (h.job_ids j hj)
    conversation_ids := fun c hc => List.mem_append_right _ (h.conversation_ids c hc) }

/-- No row has an id that is new. -/
theorem ne_of_fresh {α : Type} {key : α → UUID} {t : List α} {issued : List UUID} {id : UUID}
    (h : ∀ r ∈ t, key r ∈ issued) (hid : id ∉ issued) : ∀ r ∈ t, key r ≠ id :=
  fun r hr he => hid (he ▸ h r hr)

theorem rows_sound_insert {db : Database} {issued : List UUID} (h : RowsSound db issued)
    {d : KnowledgeDocumentModel} {v : KnowledgeDocumentVersionModel}
    (hd : ∀ x ∈ db.documents, x.id ≠ d.id) (hv : ∀ x ∈ db.versions, x.id ≠ v.id)
    (hdi : d.id ∈ issued) (hvi : v.id ∈ issued)
    (hnumber : v.number_key ∉ db.versions.map KnowledgeDocumentVersionModel.number_key)
    (hpointed : d.current_version_id = some v.id ∧ v.document_id = d.id) (hkey : Keyholder v) :
    RowsSound { db with versions := db.versions ++ [v], documents := db.documents ++ [d] } issued :=
  { h with
    documents := keyed_append _ h.documents hd
    versions := keyed_append _ h.versions hv
    numbers := keyed_append _ h.numbers (fun x hx he => hnumber (List.mem_map.mpr ⟨x, hx, he⟩))
    document_ids := forall_append h.document_ids hdi
    version_ids := forall_append h.version_ids hvi
    owned := by
      rw [List.map_append]
      exact forall_append (fun x hx => List.mem_append_left _ (h.owned x hx))
        (List.mem_append_right _ (by simp [hpointed.2]))
    pointed := by
      refine forall_append ?_ ⟨v, List.mem_append_right _ (List.mem_singleton_self v), hpointed⟩
      intro x hx
      obtain ⟨v', hv', hpointer⟩ := h.pointed x hx
      exact ⟨v', List.mem_append_left _ hv', hpointer⟩
    keyholders := forall_append h.keyholders hkey
    ordered := fun j hj => by
      rw [List.map_append]
      exact List.mem_append_left _ (h.ordered j hj) }

theorem rows_sound_add_job {db : Database} {issued : List UUID} (h : RowsSound db issued)
    {db_now : DateTime} {job : ProcessingJob} (hj : ∀ x ∈ db.jobs, x.id ≠ job.id)
    (hi : job.id ∈ issued) (hd : job.document_id ∈ db.documents.map (fun d => d.id)) :
    RowsSound { db with jobs := SqlAlchemyProcessingJobRepository.add db.jobs db_now job } issued :=
  { h with
    jobs := keyed_append _ h.jobs hj
    job_ids := forall_append h.job_ids hi
    ordered := forall_append h.ordered hd }

theorem rows_sound_update_job {db : Database} {issued : List UUID} (h : RowsSound db issued)
    (db_now : DateTime) (job : ProcessingJob) :
    RowsSound { db with jobs := SqlAlchemyProcessingJobRepository.update db.jobs db_now job }
      issued :=
  { h with
    jobs := keyed_modify _ (fun x hx => by simp [hx]) h.jobs
    job_ids := by
      intro x hx
      rcases SqlAlchemyProcessingJobRepository.mem_update hx with ⟨hx, _⟩ | ⟨x0, hx0, _, rfl⟩
      · exact h.job_ids x hx
      · rw [SqlAlchemyProcessingJobRepository.update_columns_id]
        exact h.job_ids x0 hx0
    ordered := by
      intro x hx
      rcases SqlAlchemyProcessingJobRepository.mem_update hx with ⟨hx, _⟩ | ⟨x0, hx0, _, rfl⟩
      · exact h.ordered x hx
      · obtain ⟨u, hu⟩ := SqlAlchemyProcessingJobRepository.update_columns_eq db_now job x0
        rw [hu]
        exact h.ordered x0 hx0 }

/-- A change of documents that keeps their ids and lets each point to a version
of its own. -/
theorem rows_sound_modify {db : Database} {issued : List UUID} (h : RowsSound db issued)
    {k : UUID} {f : KnowledgeDocumentModel → KnowledgeDocumentModel} (hf : ∀ d, (f d).id = d.id)
    (hpointed : ∀ d ∈ db.documents, d.id = k → Pointed db (f d)) :
    RowsSound { db with documents := modify KnowledgeDocumentModel.id k f db.documents }
      issued := by
  have hids : (modify KnowledgeDocumentModel.id k f db.documents).map (fun d => d.id) =
      db.documents.map (fun d => d.id) := map_modify _ (fun d _ => hf d) _
  exact { h with
    documents := keyed_modify _ (fun d hd => (hf d).trans hd) h.documents
    document_ids := by
      intro x hx
      rcases mem_of_modify _ hx with ⟨hx, _⟩ | ⟨d, hd, _, rfl⟩
      · exact h.document_ids x hx
      · rw [hf]
        exact h.document_ids d hd
    owned := fun v hv => by
      rw [hids]
      exact h.owned v hv
    pointed := by
      intro x hx
      rcases mem_of_modify _ hx with ⟨hx, _⟩ | ⟨d, hd, hk, rfl⟩
      · exact h.pointed x hx
      · exact hpointed d hd hk
    ordered := fun j hj => by
      rw [hids]
      exact h.ordered j hj }

theorem rows_sound_insert_version {db : Database} {issued : List UUID} (h : RowsSound db issued)
    {v : KnowledgeDocumentVersionModel} (hv : ∀ x ∈ db.versions, x.id ≠ v.id)
    (hvi : v.id ∈ issued)
    (hnumber : v.number_key ∉ db.versions.map KnowledgeDocumentVersionModel.number_key)
    (howned : v.document_id ∈ db.documents.map (fun d => d.id)) (hkey : Keyholder v) :
    RowsSound { db with versions := db.versions ++ [v] } issued :=
  { h with
    versions := keyed_append _ h.versions hv
    numbers := keyed_append _ h.numbers (fun x hx he => hnumber (List.mem_map.mpr ⟨x, hx, he⟩))
    version_ids := forall_append h.version_ids hvi
    owned := forall_append h.owned howned
    pointed := by
      intro x hx
      obtain ⟨v', hv', hpointer⟩ := h.pointed x hx
      exact ⟨v', List.mem_append_left _ hv', hpointer⟩
    keyholders := forall_append h.keyholders hkey }

theorem insert_messages_ok {t t' rows : List ConversationMessageModel}
    (h : SqlAlchemyConversationRepository.insert_messages t rows = .ok t') :
    t' = t ++ rows ∧
      (Keyed ConversationMessageModel.seq_key t → Keyed ConversationMessageModel.seq_key t') := by
  unfold SqlAlchemyConversationRepository.insert_messages at h
  induction rows generalizing t with
  | nil =>
    cases h
    exact ⟨(List.append_nil _).symm, id⟩
  | cons row rows ih =>
    rw [List.foldlM_cons] at h
    simp only [bind, Except.bind] at h
    split at h
    · cases h
    · rename_i t1 h1
      obtain ⟨hkey, rfl⟩ := insert_unique_ok.mp h1
      obtain ⟨rfl, hkeyed⟩ := ih h
      refine ⟨by simp, ?_⟩
      intro ht
      exact hkeyed (keyed_append _ ht (fun x hx he => hkey (List.mem_map.mpr ⟨x, hx, he⟩)))

theorem rows_sound_converse {db : Database} {issued : List UUID} (h : RowsSound db issued)
    {messages rows : List ConversationMessageModel} {conversations : List ConversationModel}
    (hinsert : SqlAlchemyConversationRepository.insert_messages db.messages rows = .ok messages)
    (hkeyed : Keyed ConversationModel.id (db.conversations ++ conversations))
    (hids : ∀ c ∈ conversations, c.id ∈ issued)
    (hsaid : ∀ m ∈ rows, m.conversation_id ∈
      (db.conversations ++ conversations).map (fun c => c.id)) :
    RowsSound { db with messages, conversations := db.conversations ++ conversations } issued := by
  obtain ⟨rfl, hplaces⟩ := insert_messages_ok hinsert
  exact { h with
    conversations := hkeyed
    places := hplaces h.places
    conversation_ids := by
      intro c hc
      rcases List.mem_append.mp hc with hc | hc
      · exact h.conversation_ids c hc
      · exact hids c hc
    said := by
      intro m hm
      rcases List.mem_append.mp hm with hm | hm
      · rw [List.map_append]
        exact List.mem_append_left _ (h.said m hm)
      · exact hsaid m hm }

/-! ## The operations on the rows -/

variable {P : Providers} {settings : Settings} {m : Moment} {w w' : World}

/-- The row of a document that `get` returns. -/
theorem pointer_of_get {db : Database} {issued : List UUID} (h : RowsSound db issued)
    {tenant_id : String} {document_id : UUID} {document : KnowledgeDocument}
    (hget : SqlAlchemyDocumentRepository.get db tenant_id document_id = some document) :
    ∀ d ∈ db.documents, d.id = document.id →
      d.current_version_id = document.current_version_id ∧ d.tenant_id = tenant_id ∧
        d.deleted_at = none := by
  intro d hd hid
  obtain ⟨d', hd', _, htenant, hlive, rfl⟩ := SqlAlchemyDocumentRepository.get_row hget
  obtain rfl := eq_of_key _ h.documents hd hd' hid
  exact ⟨rfl, htenant, hlive⟩

/-- A write of a copy with the pointer that was read. -/
theorem rows_sound_update {db : Database} {issued : List UUID} (h : RowsSound db issued)
    {tenant_id : String} {document_id : UUID} {document : KnowledgeDocument}
    (changed : KnowledgeDocument)
    (hget : SqlAlchemyDocumentRepository.get db tenant_id document_id = some document)
    (hid : changed.id = document.id)
    (hpointer : changed.current_version_id = document.current_version_id) (db_now : DateTime) :
    RowsSound (SqlAlchemyDocumentRepository.update db db_now changed) issued := by
  refine rows_sound_modify h (by simp) ?_
  intro d hd hk
  obtain ⟨v, hv, hcurrent, howner⟩ := h.pointed d hd
  refine ⟨v, hv, ?_, by simp [howner]⟩
  by_cases htenant : d.tenant_id = changed.tenant_id
  · obtain ⟨u, hu⟩ := SqlAlchemyDocumentRepository.update_columns_eq db_now htenant
    rw [hu, hpointer, ← (pointer_of_get h hget d hd (hk.trans hid)).1]
    exact hcurrent
  · rw [SqlAlchemyDocumentRepository.update_columns_other db_now htenant]
    exact hcurrent

theorem document_id_of_get {db : Database} {tenant_id : String} {document_id : UUID}
    {document : KnowledgeDocument}
    (h : SqlAlchemyDocumentRepository.get db tenant_id document_id = some document) :
    (document.id, tenant_id) ∈ owners db ∧ document.id = document_id ∧
      document.tenant_id = tenant_id := by
  obtain ⟨d, hd, hid, htenant, _, rfl⟩ := SqlAlchemyDocumentRepository.get_row h
  exact ⟨List.mem_map.mpr ⟨d, hd, by rw [htenant]; rfl⟩, hid, htenant⟩

theorem mem_ids_of_owner {db : Database} {d : UUID} {tenant_id : String}
    (h : (d, tenant_id) ∈ owners db) : d ∈ db.documents.map (fun d => d.id) := by
  obtain ⟨m, hm, he⟩ := List.mem_map.mp h
  cases he
  exact List.mem_map.mpr ⟨m, hm, rfl⟩

/-- The rows of a conversation that a turn stores. -/
theorem written_rows (db : Database) (db_now : DateTime) (data : AnswerQuestionInput)
    (conversation : Conversation) :
    (∀ r ∈ (conversation_log.written db db_now data conversation).messages,
      r.conversation_id = conversation.id) ∧
    ((data.conversation_id = none ∧
        ∃ c, (conversation_log.written db db_now data conversation).conversations = [c] ∧
          c.id = conversation.id ∧ c.tenant_id = conversation.tenant_id) ∨
      ((∃ id, data.conversation_id = some id) ∧
        (conversation_log.written db db_now data conversation).conversations = [])) := by
  unfold conversation_log.written
  rcases data.conversation_id with _ | id
  · refine ⟨?_, Or.inl ⟨rfl, _, rfl, rfl, rfl⟩⟩
    intro r hr
    obtain ⟨x, _, rfl⟩ := List.mem_map.mp hr
    rfl
  · dsimp only
    split
    · exact ⟨by simp, Or.inr ⟨⟨id, rfl⟩, rfl⟩⟩
    · refine ⟨?_, Or.inr ⟨⟨id, rfl⟩, rfl⟩⟩
      intro r hr
      obtain ⟨x, _, rfl⟩ := List.mem_map.mp hr
      rfl

/-- The conversation of a turn: a new one, or one that is stored. -/
theorem load_conversation_ok {db : Database} {fresh_id : UUID} {data : AnswerQuestionInput}
    {conversation : Conversation}
    (h : AnswerQuestionUseCase.load_or_create_conversation db fresh_id data = .ok conversation) :
    (data.conversation_id = none ∧ conversation = { id := fresh_id, tenant_id := data.tenant_id }) ∨
      ∃ id, data.conversation_id = some id ∧
        SqlAlchemyConversationRepository.get db data.tenant_id id = some conversation := by
  unfold AnswerQuestionUseCase.load_or_create_conversation at h
  split at h
  · rename_i hdata
    cases h
    exact Or.inl ⟨hdata, rfl⟩
  · rename_i id hdata
    split at h
    · cases h
    · rename_i conversation' hget
      cases h
      exact Or.inr ⟨id, hdata, hget⟩

/-- The row of a conversation that `get` returns. -/
theorem conversation_row {db : Database} {tenant_id : String} {c : UUID}
    {conversation : Conversation}
    (h : SqlAlchemyConversationRepository.get db tenant_id c = some conversation) :
    ∃ row ∈ db.conversations, row.id = c ∧ row.tenant_id = tenant_id ∧ conversation.id = c ∧
      conversation.tenant_id = tenant_id := by
  unfold SqlAlchemyConversationRepository.get at h
  split at h
  · cases h
  · rename_i row hrow
    split at h
    · cases h
    · rename_i htenant
      obtain ⟨hmem, hid⟩ := find_some _ hrow
      cases h
      exact ⟨row, hmem, hid, not_not.mp htenant, rfl, not_not.mp htenant⟩

theorem rows_sound_stored {db db' : Database} {issued : List UUID} (h : RowsSound db issued)
    {fresh_id : UUID} (hfresh : ∀ c ∈ db.conversations, c.id ≠ fresh_id) (hid : fresh_id ∈ issued)
    {data : AnswerQuestionInput} {conversation changed : Conversation} {db_now : DateTime}
    (hload : AnswerQuestionUseCase.load_or_create_conversation db fresh_id data =
      .ok conversation)
    (hstored : AnswerQuestionUseCase.stored db db_now data changed = .ok db')
    (hchanged : changed.id = conversation.id) : RowsSound db' issued := by
  rw [← conversation_log.committed_written] at hstored
  obtain ⟨hinsert, hdb⟩ := conversation_log.committed_ok hstored
  obtain ⟨hsaid, hnew⟩ := written_rows db db_now data changed
  rw [hdb]
  rcases hnew with ⟨hnone, c, hc, hcid, _⟩ | ⟨⟨id, hsome⟩, hc⟩
  · -- a new conversation comes in with its messages
    have hnew : c.id = fresh_id := by
      rcases load_conversation_ok hload with ⟨_, rfl⟩ | ⟨id, hsome, _⟩
      · exact hcid.trans hchanged
      · rw [hnone] at hsome
        cases hsome
    rw [hc]
    refine rows_sound_converse h hinsert ?_ ?_ ?_
    · exact keyed_append _ h.conversations (fun x hx => hnew ▸ hfresh x hx)
    · intro x hx
      rw [List.mem_singleton] at hx
      rw [hx, hnew]
      exact hid
    · intro r hr
      rw [hsaid r hr, List.map_append]
      exact List.mem_append_right _ (List.mem_singleton.mpr hcid.symm)
  · rcases load_conversation_ok hload with ⟨hnone, _⟩ | ⟨id', _, hget⟩
    · rw [hnone] at hsome
      cases hsome
    · obtain ⟨row, hrow, hrowid, _, hconversation, _⟩ := conversation_row hget
      rw [hc]
      refine rows_sound_converse h hinsert ?_ (by simp) ?_
      · rw [List.append_nil]
        exact h.conversations
      · intro r hr
        rw [hsaid r hr, List.append_nil, hchanged, hconversation, ← hrowid]
        exact List.mem_map.mpr ⟨row, hrow, rfl⟩

/-- The points are keyed, and each belongs to a document, with the tenant of
this document and the id of its chunk. -/
structure PointsSound (P : Providers) (db : Database) (points : List VectorPoint) : Prop where
  keyed : Keyed VectorPoint.id points
  owned : ∀ p ∈ points, ∃ d, (d, p.payload.tenant_id) ∈ owners db ∧
    p.payload.document_id = d.str ∧ p.id = chunk_vector_id P d p.payload.chunk_index

theorem points_sound_owners {db db' : Database} {points : List VectorPoint}
    (h : PointsSound P db points) (ho : ∀ o ∈ owners db, o ∈ owners db') :
    PointsSound P db' points := by
  refine ⟨h.keyed, ?_⟩
  intro p hp
  obtain ⟨d, hd, hdocument, hid⟩ := h.owned p hp
  exact ⟨d, ho _ hd, hdocument, hid⟩

/-- The points of an ingestion run are those of its chunks. -/
theorem mem_points_of {tenant_id : String} {document_id : UUID} {chunks : List TextChunk}
    {vectors : List Vector} {points : List VectorPoint}
    (h : ProcessDocumentUseCase.points_of P tenant_id document_id chunks vectors = .ok points) :
    chunks.length = vectors.length ∧ ∀ p ∈ points, ∃ chunk ∈ chunks, ∃ vector ∈ vectors,
      p = ProcessDocumentUseCase.point P tenant_id document_id chunk vector := by
  unfold ProcessDocumentUseCase.points_of at h
  split at h
  · rename_i hlength
    cases h
    refine ⟨hlength, ?_⟩
    intro p hp
    rw [← List.map_uncurry_zip_eq_zipWith] at hp
    obtain ⟨⟨chunk, vector⟩, hzip, rfl⟩ := List.mem_map.mp hp
    exact ⟨chunk, (List.of_mem_zip hzip).1, vector, (List.of_mem_zip hzip).2, rfl⟩
  · cases h

/-- A point of the index after a run is an old one, or one of the document. -/
theorem mem_of_indexed {tenant_id : String} {document_id : UUID} {chunks : List TextChunk}
    {before after : List VectorPoint} (hi : Indexed P tenant_id document_id chunks before after)
    {p : VectorPoint} (hp : p ∈ after) :
    p ∈ before ∨ (p.payload.tenant_id = tenant_id ∧ p.payload.document_id = document_id.str ∧
      p.id = chunk_vector_id P document_id p.payload.chunk_index) := by
  rcases hi with ⟨_, rfl⟩ | ⟨vectors, points, _, hpoints, rfl⟩
  · exact Or.inl hp
  · rcases mem_of_upserts _ hp with hp | hp
    · obtain ⟨chunk, _, vector, _, rfl⟩ := (mem_points_of hpoints).2 p hp
      exact Or.inr ⟨rfl, rfl, rfl⟩
    · exact Or.inl hp

theorem keyed_indexed {tenant_id : String} {document_id : UUID} {chunks : List TextChunk}
    {before after : List VectorPoint} (h : Keyed VectorPoint.id before)
    (hi : Indexed P tenant_id document_id chunks before after) : Keyed VectorPoint.id after := by
  rcases hi with ⟨_, rfl⟩ | ⟨vectors, points, _, _, rfl⟩
  · exact h
  · exact keyed_upserts _ points h

theorem points_sound_indexed {db : Database} {tenant_id : String} {document_id : UUID}
    {chunks : List TextChunk} {before after : List VectorPoint} (h : PointsSound P db before)
    (ho : (document_id, tenant_id) ∈ owners db)
    (hi : Indexed P tenant_id document_id chunks before after) : PointsSound P db after := by
  refine ⟨keyed_indexed h.keyed hi, ?_⟩
  intro p hp
  rcases mem_of_indexed hi hp with hp | ⟨rfl, hdocument, hid⟩
  · exact h.owned p hp
  · exact ⟨document_id, ho, hdocument, hid⟩

theorem owners_modify {db : Database} {k : UUID}
    {f : KnowledgeDocumentModel → KnowledgeDocumentModel} (hid : ∀ d, (f d).id = d.id)
    (htenant : ∀ d, (f d).tenant_id = d.tenant_id) :
    owners { db with documents := modify KnowledgeDocumentModel.id k f db.documents } =
      owners db := map_modify _ (fun d _ => by rw [hid, htenant]) _

theorem owners_update (db : Database) (db_now : DateTime) (document : KnowledgeDocument) :
    owners (SqlAlchemyDocumentRepository.update db db_now document) = owners db :=
  owners_modify (by simp) (by simp)

/-! ## The world -/

structure Sound (P : Providers) (w : World) : Prop where
  rows : RowsSound w.db w.issued
  points : PointsSound P w.db w.points

theorem sound_init (P : Providers) : Sound P {} :=
  ⟨rows_sound_init, by simp [Keyed], by simp⟩

theorem ingested_points (h : PointsSound P w.db w.points) {tenant_id : String}
    {document_id : UUID} {document : KnowledgeDocument} {points : List VectorPoint}
    (hi : Ingested P w tenant_id document_id document points) :
    PointsSound P w.db points := by
  obtain ⟨version, content, parsed, _, _, _, hindexed⟩ := hi.indexed
  exact points_sound_indexed h (document_id_of_get hi.got).1 hindexed

theorem partial_points (h : PointsSound P w.db w.points) {tenant_id : String}
    {document_id : UUID} {points : List VectorPoint}
    (hi : Partial P w tenant_id document_id points) : PointsSound P w.db points := by
  rcases hi with rfl | ⟨document, hi⟩
  · exact h
  · exact ingested_points h hi

theorem sound_of_becomes {db : Database} {blobs : Blobs} {points : List VectorPoint}
    (hb : Becomes w w' db blobs points) (hrows : RowsSound db w.issued)
    (hpoints : PointsSound P db points) : Sound P w' := by
  obtain ⟨rfl, _, rfl, hissued⟩ := hb
  exact ⟨hissued ▸ hrows, hpoints⟩

theorem sound_executed (h : Sound P w) {job : ProcessingJob}
    (he : Executed P settings m w job w') : Sound P w' := by
  cases he with
  | refused job' events _ hb =>
    exact sound_of_becomes hb (rows_sound_update_job h.rows _ _)
      (points_sound_owners h.points (fun _ ho => ho))
  | failed name text job1 job2 events more enqueued points _ _ hpartial hb =>
    exact sound_of_becomes hb (rows_sound_update_job (rows_sound_update_job h.rows _ _) _ _)
      (points_sound_owners (partial_points h.points hpartial) (fun _ ho => ho))
  | completed name job1 job2 events more enqueued document points _ _ hi hb =>
    have hrows := rows_sound_update h.rows (ProcessDocumentUseCase.processed document) hi.got rfl
      rfl m.db_now
    refine sound_of_becomes hb
      (rows_sound_update_job (rows_sound_update_job hrows m.db_now job1) m.db_now job2) ?_
    refine points_sound_owners (ingested_points h.points hi) ?_
    intro o ho
    exact (owners_update w.db m.db_now (ProcessDocumentUseCase.processed document)) ▸ ho

theorem opened_sound {r : Request} (h : Sound P w) : Sound P (opened w r) :=
  ⟨rows_sound_issued h.rows, h.points⟩

theorem sound_moved {r : Request} {operation : Operation} (h : Sound P w)
    (hnew : ∀ id ∈ r.moment.ids.all, id ∉ w.issued)
    (hm : Moved P settings r.moment (opened w r) operation w') : Sound P w' := by
  have ho : Sound P (opened w r) := opened_sound h
  have hgiven : ∀ id ∈ r.moment.ids.all, id ∈ (opened w r).issued :=
    fun id hid => List.mem_append_left _ hid
  have hdocument : r.moment.ids.document ∈ r.moment.ids.all := by simp [FreshIds.all]
  have hversion : r.moment.ids.version ∈ r.moment.ids.all := by simp [FreshIds.all]
  have hjob : r.moment.ids.job ∈ r.moment.ids.all := by simp [FreshIds.all]
  have hconversation : r.moment.ids.conversation ∈ r.moment.ids.all := by simp [FreshIds.all]
  cases hm with
  | still _ _ hb => exact sound_of_becomes hb ho.rows ho.points
  | saved _ _ tenant_id document_id extension at_ content _ hb =>
    exact sound_of_becomes hb ho.rows ho.points
  | uploaded _ data extension version document job hdot _ hv hd hj hnumber hb =>
    have hinserted := rows_sound_insert ho.rows
      (d := doc_to_model r.moment.db_now document) (v := version_to_model r.moment.db_now version)
      (by rw [hd]; exact ne_of_fresh h.rows.document_ids (hnew _ hdocument))
      (by rw [hv]; exact ne_of_fresh h.rows.version_ids (hnew _ hversion))
      (by rw [hd]; exact hgiven _ hdocument) (by rw [hv]; exact hgiven _ hversion) hnumber
      (by rw [hd, hv]; exact ⟨rfl, rfl⟩)
      (by rw [hv]; exact ⟨_, _, extension, _, hdot, rfl⟩)
    refine sound_of_becomes hb (rows_sound_add_job hinserted ?_ ?_ ?_) ?_
    · rw [hj]
      exact ne_of_fresh h.rows.job_ids (hnew _ hjob)
    · rw [hj]
      exact hgiven _ hjob
    · rw [List.map_append, hj]
      exact List.mem_append_right _ (List.mem_singleton_self _)
    · refine points_sound_owners ho.points ?_
      intro o ho
      unfold owners
      rw [List.map_append]
      exact List.mem_append_left _ ho
  | version_added _ data extension document version hdot hget hv hnumber hb =>
    have howner := (document_id_of_get hget).1
    have hinserted := rows_sound_insert_version ho.rows
      (v := version_to_model r.moment.db_now version)
      (by rw [hv]; exact ne_of_fresh h.rows.version_ids (hnew _ hversion))
      (by rw [hv]; exact hgiven _ hversion) hnumber
      (by rw [hv]; exact mem_ids_of_owner howner)
      (by rw [hv]; exact ⟨_, _, extension, _, hdot, rfl⟩)
    refine sound_of_becomes hb (rows_sound_modify hinserted (by simp) ?_) ?_
    · intro d hd hid
      obtain ⟨u, hu⟩ := SqlAlchemyDocumentRepository.add_version_columns_eq r.moment.db_now
        (AddDocumentVersionUseCase.pointed document version.id) d
      refine ⟨_, List.mem_append_right _ (List.mem_singleton_self _), ?_, ?_⟩
      · rw [hu]
        rfl
      · rw [hu, hv]
        exact hid.symm
    · refine points_sound_owners ho.points ?_
      intro o ho
      exact (owners_modify (SqlAlchemyDocumentRepository.add_version_columns_id _ _)
        (SqlAlchemyDocumentRepository.add_version_columns_tenant_id _ _)).symm ▸ ho
  | updated _ data document hget hb =>
    refine sound_of_becomes hb (rows_sound_update ho.rows
      (UpdateDocumentMetadataUseCase.merged data document) hget rfl rfl _) ?_
    exact points_sound_owners ho.points (fun o ho => (owners_update _ _ _).symm ▸ ho)
  | deleted _ data document hget hb =>
    refine sound_of_becomes hb (rows_sound_update ho.rows
      (DeleteDocumentUseCase.marked (r.moment.clock 0) document) hget rfl rfl _) ?_
    exact points_sound_owners ho.points (fun o ho => (owners_update _ _ _).symm ▸ ho)
  | indexed _ _ document_id document points hi hb =>
    exact sound_of_becomes hb ho.rows (ingested_points ho.points hi)
  | processed _ data document points hi hb =>
    refine sound_of_becomes hb (rows_sound_update ho.rows
      (ProcessDocumentUseCase.processed document) hi.got rfl rfl _) ?_
    exact points_sound_owners (ingested_points ho.points hi)
      (fun o ho => (owners_update _ _ _).symm ▸ ho)
  | handled _ message job _ he => exact sound_executed ho he
  | answered _ data conversation answer db hload hstored hb =>
    have hrows := rows_sound_stored ho.rows
      (ne_of_fresh h.rows.conversation_ids (hnew _ hconversation)) (hgiven _ hconversation) hload
      hstored rfl
    refine sound_of_becomes hb hrows (points_sound_owners ho.points ?_)
    rw [← conversation_log.committed_written] at hstored
    rw [(conversation_log.committed_ok hstored).2]
    exact fun _ ho => ho

/-- What every operation keeps. -/
theorem sound_keeps {r : Request} (h : Sound P w) (hw : w.step P settings r = some w') :
    Sound P w' := by
  obtain ⟨_, hnew, hm⟩ := moved_of_step hw
  exact sound_moved h hnew hm

theorem sound_of_reachable (h : Reachable (World.step P settings) {} w) : Sound P w :=
  reachable_invariant (sound_init P) (fun _ _ _ hs hstep => sound_keeps hs hstep) h

end cortex_rag.service
