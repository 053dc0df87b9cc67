-- What an operation of a tenant reads and writes depends on the rows of this
-- tenant alone: a row of another tenant is as good as no row.
import CortexRag.TenantViews

open keyed_rows

namespace cortex_rag.service

variable {t : String} {db db' : Database} {issued issued' : List UUID}

/-! ## Documents -/

theorem live_row_iff (hk : Keyed KnowledgeDocumentModel.id db.documents) {d : UUID}
    {m : KnowledgeDocumentModel} : SqlAlchemyDocumentRepository.live_row db t d = some m ↔
      m ∈ db.documents ∧ m.id = d ∧ m.tenant_id = t ∧ m.deleted_at = none := by
  constructor
  · exact SqlAlchemyDocumentRepository.live_row_some
  · rintro ⟨hm, rfl, rfl, hlive⟩
    exact SqlAlchemyDocumentRepository.live_row_of_mem hk hm hlive

theorem owner_of_mem {m : KnowledgeDocumentModel} (hm : m ∈ db.documents)
    (htenant : m.tenant_id = t) : (m.id, t) ∈ owners db :=
  List.mem_map.mpr ⟨m, hm, by rw [htenant]⟩

/-- Rows that come newest first stand in one order, whatever the table. -/
theorem newest_first_settled {α : Type} (created_at : α → DateTime) (order : RowOrder)
    {id : α → UUID} {rows rows' : List α} (hkeyed : Keyed id rows) (hperm : rows.Perm rows') :
    ordered (fun a b => (created_at b).le (created_at a)) order id rows =
      ordered (fun a b => (created_at b).le (created_at a)) order id rows' :=
  ordered_settled order id (fun a b => DateTime.le_total (created_at b) (created_at a))
    (fun _ _ _ hab hbc => DateTime.le_trans hbc hab) hkeyed hperm

section Reads

variable (h : RowsSound db issued) (h' : RowsSound db' issued') (hs : SameRows t db db')
include h h' hs

theorem load_version_same {m : KnowledgeDocumentModel} (hm : m ∈ db.documents)
    (htenant : m.tenant_id = t) :
    SqlAlchemyDocumentRepository.load_version db m.current_version_id =
      SqlAlchemyDocumentRepository.load_version db' m.current_version_id := by
  obtain ⟨v, hv, hpointer, howner⟩ := h.pointed m hm
  have hv' : v ∈ db'.versions :=
    (hs.versions v (howner.symm ▸ owner_of_mem hm htenant)).mp hv
  rw [hpointer]
  unfold SqlAlchemyDocumentRepository.load_version
  dsimp only
  rw [find_of_mem _ h.versions hv, find_of_mem _ h'.versions hv']

theorem get_same (d : UUID) :
    SqlAlchemyDocumentRepository.get db t d = SqlAlchemyDocumentRepository.get db' t d := by
  have hrow : SqlAlchemyDocumentRepository.live_row db t d =
      SqlAlchemyDocumentRepository.live_row db' t d := by
    apply Option.ext
    intro m
    rw [live_row_iff h.documents, live_row_iff h'.documents]
    constructor
    · rintro ⟨hm, hid, htenant, hlive⟩
      exact ⟨(hs.documents m htenant).mp hm, hid, htenant, hlive⟩
    · rintro ⟨hm, hid, htenant, hlive⟩
      exact ⟨(hs.documents m htenant).mpr hm, hid, htenant, hlive⟩
  unfold SqlAlchemyDocumentRepository.get
  rw [← hrow]
  rcases hm : SqlAlchemyDocumentRepository.live_row db t d with _ | m
  · rfl
  · obtain ⟨hmem, _, htenant, _⟩ := (live_row_iff h.documents).mp hm
    dsimp only
    rw [load_version_same h h' hs hmem htenant]

omit h h' in
theorem checksum_rows_same (checksum : String) (m : KnowledgeDocumentModel) :
    m ∈ SqlAlchemyDocumentRepository.checksum_rows db t checksum ↔
      m ∈ SqlAlchemyDocumentRepository.checksum_rows db' t checksum := by
  have hone : ∀ {a b : Database}, SameRows t a b →
      m ∈ SqlAlchemyDocumentRepository.checksum_rows a t checksum →
      m ∈ SqlAlchemyDocumentRepository.checksum_rows b t checksum := by
    intro a b hab hm
    obtain ⟨hm, htenant, hlive, v, hv, howner, hsum⟩ :=
      SqlAlchemyDocumentRepository.mem_checksum_rows.mp hm
    exact SqlAlchemyDocumentRepository.mem_checksum_rows.mpr
      ⟨(hab.documents m htenant).mp hm, htenant, hlive, v,
        (hab.versions v (howner.symm ▸ owner_of_mem hm htenant)).mp hv, howner, hsum⟩
  exact ⟨hone hs, hone (same_rows_symm hs)⟩

theorem get_by_checksum_same (order : RowOrder) (checksum : String) :
    SqlAlchemyDocumentRepository.get_by_checksum order db t checksum =
      SqlAlchemyDocumentRepository.get_by_checksum order db' t checksum := by
  have hhead := head_ordered_settled order KnowledgeDocumentModel.id
    (fun a ha b hb hid => eq_of_key _ h.documents
      (SqlAlchemyDocumentRepository.mem_checksum_rows.mp ha).1
      (SqlAlchemyDocumentRepository.mem_checksum_rows.mp hb).1 hid)
    (checksum_rows_same hs checksum)
  unfold SqlAlchemyDocumentRepository.get_by_checksum
  rw [← hhead]
  split
  · rfl
  · rename_i m hm
    have hmem := (perm_ordered _ _ _ _).mem_iff.mp (List.mem_of_mem_head? hm)
    obtain ⟨hmem, htenant, _⟩ := SqlAlchemyDocumentRepository.mem_checksum_rows.mp hmem
    rw [load_version_same h h' hs hmem htenant]

theorem list_documents_same (order : RowOrder) (knowledge_space_id : Option UUID)
    (limit offset : Nat) :
    SqlAlchemyDocumentRepository.list_documents order db t knowledge_space_id limit offset =
      SqlAlchemyDocumentRepository.list_documents order db' t knowledge_space_id limit offset := by
  have hkeyed : ∀ {x : Database}, Keyed KnowledgeDocumentModel.id x.documents →
      Keyed KnowledgeDocumentModel.id
        (x.documents.filter (SqlAlchemyDocumentRepository.listed t knowledge_space_id)) :=
    keyed_filter _ _
  have hperm : (db.documents.filter (SqlAlchemyDocumentRepository.listed t knowledge_space_id)).Perm
      (db'.documents.filter (SqlAlchemyDocumentRepository.listed t knowledge_space_id)) := by
    refine perm_of_same_rows _ (hkeyed h.documents) (hkeyed h'.documents) ?_
    intro m
    rw [List.mem_filter, List.mem_filter, and_congr_left_iff]
    intro hm
    simp only [SqlAlchemyDocumentRepository.listed, decide_eq_true_eq] at hm
    exact hs.documents m hm.1
  have hrows := newest_first_settled KnowledgeDocumentModel.created_at order
    (hkeyed h.documents) hperm
  unfold SqlAlchemyDocumentRepository.list_documents
  dsimp only
  rw [← hrows, hperm.length_eq, Prod.mk.injEq]
  refine ⟨?_, rfl⟩
  apply List.map_congr_left
  intro m hm
  rw [SqlAlchemyDocumentRepository.load_listed_version h.versions hm,
    SqlAlchemyDocumentRepository.load_listed_version h'.versions hm]
  have hmem := (perm_ordered _ _ _ _).mem_iff.mp (List.mem_of_mem_drop (List.mem_of_mem_take hm))
  obtain ⟨hmem, hlisted⟩ := List.mem_filter.mp hmem
  simp only [SqlAlchemyDocumentRepository.listed, decide_eq_true_eq] at hlisted
  rw [load_version_same h h' hs hmem hlisted.1]

theorem list_versions_same {d : UUID} (howner : (d, t) ∈ owners db) :
    SqlAlchemyDocumentRepository.list_versions db d =
      SqlAlchemyDocumentRepository.list_versions db' d := by
  have hperm : (db.versions.filter (fun v => v.document_id = d)).Perm
      (db'.versions.filter (fun v => v.document_id = d)) := by
    refine perm_of_same_rows KnowledgeDocumentVersionModel.id
      (keyed_filter _ _ h.versions)
      (keyed_filter _ _ h'.versions) ?_
    intro v
    rw [List.mem_filter, List.mem_filter, and_congr_left_iff]
    intro hv
    rw [decide_eq_true_eq] at hv
    exact hs.versions v (hv ▸ howner)
  have hsort : (db.versions.filter (fun v => v.document_id = d)).insertionSort
        (fun a b => b.version_number ≤ a.version_number) =
      (db'.versions.filter (fun v => v.document_id = d)).insertionSort
        (fun a b => b.version_number ≤ a.version_number) := by
    have : Std.Total (fun a b : KnowledgeDocumentVersionModel =>
      b.version_number ≤ a.version_number) := ⟨fun a b => by omega⟩
    have : IsTrans KnowledgeDocumentVersionModel (fun a b =>
      b.version_number ≤ a.version_number) := ⟨fun a b c => by omega⟩
    refine sort_settled ?_ hperm
    intro a ha b hb hab hba
    obtain ⟨ha, had⟩ := List.mem_filter.mp ha
    obtain ⟨hb, hbd⟩ := List.mem_filter.mp hb
    rw [decide_eq_true_eq] at had hbd
    refine eq_of_key _ h.numbers ha hb ?_
    unfold KnowledgeDocumentVersionModel.number_key
    rw [had, hbd, Nat.le_antisymm hba hab]
  unfold SqlAlchemyDocumentRepository.list_versions
  rw [hsort]

/-! ## Jobs -/

theorem get_job_same (j : UUID) :
    SqlAlchemyProcessingJobRepository.get db.jobs t j =
      SqlAlchemyProcessingJobRepository.get db'.jobs t j := by
  have hone : ∀ {a b : Database}, Keyed ProcessingJobModel.id b.jobs → SameRows t a b → ∀ job,
      SqlAlchemyProcessingJobRepository.get a.jobs t j = some job →
      SqlAlchemyProcessingJobRepository.get b.jobs t j = some job := by
    intro a b hk hab job hget
    obtain ⟨m, hm, rfl, rfl, rfl⟩ := SqlAlchemyProcessingJobRepository.get_row hget
    exact SqlAlchemyProcessingJobRepository.get_of_mem hk ((hab.jobs m rfl).mp hm)
  apply Option.ext
  intro job
  exact ⟨hone h'.jobs hs job, hone h.jobs (same_rows_symm hs) job⟩

theorem list_jobs_same (order : RowOrder) (document_id : Option UUID)
    (status : Option ProcessingJobStatus) (limit offset : Nat) :
    SqlAlchemyProcessingJobRepository.list_jobs order db.jobs t document_id status limit offset =
      SqlAlchemyProcessingJobRepository.list_jobs order db'.jobs t document_id status limit
        offset := by
  have hkeyed : ∀ {x : Database}, Keyed ProcessingJobModel.id x.jobs →
      Keyed ProcessingJobModel.id
        (x.jobs.filter (SqlAlchemyProcessingJobRepository.listed t document_id status)) :=
    keyed_filter _ _
  have hperm :
      (db.jobs.filter (SqlAlchemyProcessingJobRepository.listed t document_id status)).Perm
        (db'.jobs.filter (SqlAlchemyProcessingJobRepository.listed t document_id status)) := by
    refine perm_of_same_rows _ (hkeyed h.jobs) (hkeyed h'.jobs) ?_
    intro m
    rw [List.mem_filter, List.mem_filter, and_congr_left_iff]
    intro hm
    simp only [SqlAlchemyProcessingJobRepository.listed, decide_eq_true_eq] at hm
    exact hs.jobs m hm.1
  have hrows := newest_first_settled ProcessingJobModel.created_at order (hkeyed h.jobs) hperm
  unfold SqlAlchemyProcessingJobRepository.list_jobs
  dsimp only
  rw [← hrows, hperm.length_eq]

/-! ## Conversations -/

theorem message_rows_same {c : UUID} (hc : (c, t) ∈ holders db) :
    SqlAlchemyConversationRepository.message_rows db c =
      SqlAlchemyConversationRepository.message_rows db' c := by
  have hkeyed : ∀ {x : Database}, Keyed ConversationMessageModel.seq_key x.messages →
      Keyed ConversationMessageModel.seq_key
        (x.messages.filter (fun m => m.conversation_id = c)) :=
    keyed_filter _ _
  have hperm : (db.messages.filter (fun m => m.conversation_id = c)).Perm
      (db'.messages.filter (fun m => m.conversation_id = c)) := by
    refine perm_of_same_rows _ (hkeyed h.places) (hkeyed h'.places) ?_
    intro m
    rw [List.mem_filter, List.mem_filter, and_congr_left_iff]
    intro hm
    rw [decide_eq_true_eq] at hm
    exact hs.messages m (hm ▸ hc)
  have : Std.Total (fun a b : ConversationMessageModel => a.seq ≤ b.seq) :=
    ⟨fun a b => by omega⟩
  have : IsTrans ConversationMessageModel (fun a b => a.seq ≤ b.seq) := ⟨fun a b c => by omega⟩
  refine sort_settled ?_ hperm
  intro a ha b hb hab hba
  obtain ⟨ha, hac⟩ := List.mem_filter.mp ha
  obtain ⟨hb, hbc⟩ := List.mem_filter.mp hb
  rw [decide_eq_true_eq] at hac hbc
  refine eq_of_key _ h.places ha hb ?_
  unfold ConversationMessageModel.seq_key
  rw [hac, hbc, Nat.le_antisymm hab hba]

/-- The conversation of another tenant reads as one that is not there. -/
theorem get_conversation_same (c : UUID) :
    SqlAlchemyConversationRepository.get db t c =
      SqlAlchemyConversationRepository.get db' t c := by
  have hone : ∀ {a b : Database} {i j : List UUID}, RowsSound a i → RowsSound b j →
      SameRows t a b → ∀ conversation,
      SqlAlchemyConversationRepository.get a t c = some conversation →
      SqlAlchemyConversationRepository.get b t c = some conversation := by
    intro a b i j ha hb hab conversation hget
    unfold SqlAlchemyConversationRepository.get at hget ⊢
    split at hget
    · cases hget
    · rename_i row hrow
      split at hget
      · cases hget
      · rename_i htenant
        rw [not_not] at htenant
        obtain ⟨hmem, hid⟩ := find_some _ hrow
        have hholder : (c, t) ∈ holders a := List.mem_map.mpr ⟨row, hmem, by rw [hid, htenant]⟩
        have hfind := find_of_mem _ hb.conversations ((hab.conversations row htenant).mp hmem)
        rw [hid] at hfind
        rw [hfind]
        dsimp only
        rw [if_neg (not_not.mpr htenant), ← message_rows_same ha hb hab hholder]
        exact hget
  apply Option.ext
  intro conversation
  exact ⟨hone h h' hs conversation, hone h' h (same_rows_symm hs) conversation⟩

end Reads

/-! ## Points -/

/-- The filter of a search lets the same points through. -/
theorem filtered_same {points points' : List VectorPoint} (hk : Keyed VectorPoint.id points)
    (hk' : Keyed VectorPoint.id points') (hs : SamePoints t points points') :
    (QdrantVectorRepository.filtered points t).Perm
      (QdrantVectorRepository.filtered points' t) := by
  unfold QdrantVectorRepository.filtered
  refine perm_of_same_rows VectorPoint.id (keyed_filter _ _ hk)
    (keyed_filter _ _ hk') ?_
  intro p
  rw [List.mem_filter, List.mem_filter, and_congr_left_iff]
  intro hp
  rw [decide_eq_true_eq] at hp
  exact hs p hp

/-! ## Writes -/

section Writes

variable (hs : SameRows t db db')
include hs

theorem same_rows_modify_both {k : UUID} {f : KnowledgeDocumentModel → KnowledgeDocumentModel}
    (hid : ∀ m, (f m).id = m.id) (htenant : ∀ m, (f m).tenant_id = m.tenant_id) :
    SameRows t { db with documents := modify KnowledgeDocumentModel.id k f db.documents }
      { db' with documents := modify KnowledgeDocumentModel.id k f db'.documents } := by
  have hone : ∀ {a b : Database}, SameRows t a b → ∀ m, m.tenant_id = t →
      m ∈ modify KnowledgeDocumentModel.id k f a.documents →
      m ∈ modify KnowledgeDocumentModel.id k f b.documents := by
    intro a b hab m hm hmem
    obtain ⟨r, hr, rfl⟩ := (mem_modify _).mp hmem
    refine (mem_modify _).mpr ⟨r, (hab.documents r ?_).mp hr, rfl⟩
    split at hm
    · exact (htenant r).symm.trans hm
    · exact hm
  exact { hs with
    documents := fun m hm => ⟨hone hs m hm, hone (same_rows_symm hs) m hm⟩
    versions := by
      intro v hv
      rw [owners_modify hid htenant] at hv
      exact hs.versions v hv }

theorem same_rows_update_both (db_now : DateTime) (document : KnowledgeDocument) :
    SameRows t (SqlAlchemyDocumentRepository.update db db_now document)
      (SqlAlchemyDocumentRepository.update db' db_now document) :=
  same_rows_modify_both hs (by simp) (by simp)

theorem same_rows_version_both (v : KnowledgeDocumentVersionModel) :
    SameRows t { db with versions := db.versions ++ [v] }
      { db' with versions := db'.versions ++ [v] } :=
  { hs with
    versions := by
      intro x hx
      rw [List.mem_append, List.mem_append, hs.versions x hx] }

/-- A new document in both databases, of which neither has a version. -/
theorem same_rows_document_both {d : KnowledgeDocumentModel}
    (hd : ∀ v ∈ db.versions, v.document_id ≠ d.id)
    (hd' : ∀ v ∈ db'.versions, v.document_id ≠ d.id) :
    SameRows t { db with documents := db.documents ++ [d] }
      { db' with documents := db'.documents ++ [d] } :=
  { hs with
    documents := by
      intro m hm
      rw [List.mem_append, List.mem_append, hs.documents m hm]
    versions := by
      intro v hv
      unfold owners at hv
      rw [List.map_append, List.mem_append, List.map_cons, List.map_nil, List.mem_singleton,
        Prod.mk.injEq] at hv
      rcases hv with hv | ⟨hid, _⟩
      · exact hs.versions v hv
      · exact ⟨fun hmem => absurd hid (hd v hmem), fun hmem => absurd hid (hd' v hmem)⟩ }

theorem same_rows_add_job_both (db_now : DateTime) (job : ProcessingJob) :
    SameRows t { db with jobs := SqlAlchemyProcessingJobRepository.add db.jobs db_now job }
      { db' with jobs := SqlAlchemyProcessingJobRepository.add db'.jobs db_now job } :=
  { hs with
    jobs := by
      intro j hj
      unfold SqlAlchemyProcessingJobRepository.add
      rw [List.mem_append, List.mem_append, hs.jobs j hj] }

theorem same_rows_update_job_both (db_now : DateTime) (job : ProcessingJob) :
    SameRows t { db with jobs := SqlAlchemyProcessingJobRepository.update db.jobs db_now job }
      { db' with jobs := SqlAlchemyProcessingJobRepository.update db'.jobs db_now job } := by
  have hone : ∀ {a b : Database}, SameRows t a b → ∀ j, j.tenant_id = t →
      j ∈ SqlAlchemyProcessingJobRepository.update a.jobs db_now job →
      j ∈ SqlAlchemyProcessingJobRepository.update b.jobs db_now job := by
    intro a b hab j hj hmem
    obtain ⟨r, hr, rfl⟩ := (mem_modify _).mp hmem
    refine (mem_modify _).mpr ⟨r, (hab.jobs r ?_).mp hr, rfl⟩
    split at hj
    · exact (SqlAlchemyProcessingJobRepository.update_columns_tenant_id db_now job r).symm.trans hj
    · exact hj
  exact { hs with jobs := fun j hj => ⟨hone hs j hj, hone (same_rows_symm hs) j hj⟩ }

/-- New messages in both databases, and new conversations of which neither has a
message. -/
theorem same_rows_converse_both (rows : List ConversationMessageModel)
    (conversations : List ConversationModel)
    (hc : ∀ c ∈ conversations, ∀ m ∈ db.messages, m.conversation_id ≠ c.id)
    (hc' : ∀ c ∈ conversations, ∀ m ∈ db'.messages, m.conversation_id ≠ c.id) :
    SameRows t
      { db with
        messages := db.messages ++ rows
        conversations := db.conversations ++ conversations }
      { db' with
        messages := db'.messages ++ rows
        conversations := db'.conversations ++ conversations } :=
  { hs with
    conversations := by
      intro c hmem
      rw [List.mem_append, List.mem_append, hs.conversations c hmem]
    messages := by
      intro m hm
      unfold holders at hm
      rw [List.map_append, List.mem_append] at hm
      rw [List.mem_append, List.mem_append]
      rcases hm with hm | hm
      · rw [hs.messages m hm]
      · obtain ⟨c, hcmem, he⟩ := List.mem_map.mp hm
        rw [Prod.mk.injEq] at he
        have hno : m ∉ db.messages := fun hmem => hc c hcmem m hmem he.1.symm
        have hno' : m ∉ db'.messages := fun hmem => hc' c hcmem m hmem he.1.symm
        simp only [hno, hno'] }

end Writes

/-- Messages of one conversation are stored in both tables, or in neither. -/
theorem insert_messages_both {t t' rows : List ConversationMessageModel} {c : UUID}
    (hrows : ∀ m ∈ rows, m.conversation_id = c)
    (hs : ∀ m, m.conversation_id = c → (m ∈ t ↔ m ∈ t')) :
    (SqlAlchemyConversationRepository.insert_messages t rows = .error IntegrityError ∧
      SqlAlchemyConversationRepository.insert_messages t' rows = .error IntegrityError) ∨
    (SqlAlchemyConversationRepository.insert_messages t rows = .ok (t ++ rows) ∧
      SqlAlchemyConversationRepository.insert_messages t' rows = .ok (t' ++ rows)) := by
  unfold SqlAlchemyConversationRepository.insert_messages
  induction rows generalizing t t' with
  | nil =>
    right
    simp [pure, Except.pure]
  | cons row rows ih =>
    have hrow := hrows row List.mem_cons_self
    have hkey : row.seq_key ∈ t.map ConversationMessageModel.seq_key ↔
        row.seq_key ∈ t'.map ConversationMessageModel.seq_key := by
      simp only [List.mem_map, ConversationMessageModel.seq_key, Prod.mk.injEq]
      constructor
      · rintro ⟨m, hm, hmc, hseq⟩
        exact ⟨m, (hs m (hmc.trans hrow)).mp hm, hmc, hseq⟩
      · rintro ⟨m, hm, hmc, hseq⟩
        exact ⟨m, (hs m (hmc.trans hrow)).mpr hm, hmc, hseq⟩
    rw [List.foldlM_cons, List.foldlM_cons]
    by_cases hin : row.seq_key ∈ t.map ConversationMessageModel.seq_key
    · left
      simp [insert_unique, hin, hkey.mp hin, bind, Except.bind]
    · have hin' : row.seq_key ∉ t'.map ConversationMessageModel.seq_key := fun h => hin (hkey.mpr h)
      have hs' : ∀ m, m.conversation_id = c → (m ∈ t ++ [row] ↔ m ∈ t' ++ [row]) := by
        intro m hm
        rw [List.mem_append, List.mem_append, hs m hm]
      have hnext := ih (fun m hm => hrows m (List.mem_cons_of_mem _ hm)) hs'
      rw [insert_unique_ok.mpr ⟨hin, rfl⟩, insert_unique_ok.mpr ⟨hin', rfl⟩]
      simpa [bind, Except.bind, List.append_assoc] using hnext

/-- The rows that a turn adds to a conversation of the tenant. -/
theorem new_rows_same (hs : SameRows t db db') (db_now : DateTime) {conversation : Conversation}
    (hc : (conversation.id, t) ∈ holders db) :
    SqlAlchemyConversationRepository.new_rows db db_now conversation =
      SqlAlchemyConversationRepository.new_rows db' db_now conversation := by
  have hids : ∀ id, id ∈ (db.messages.filter (fun m => m.conversation_id = conversation.id)).map
        (fun m => m.id) ↔
      id ∈ (db'.messages.filter (fun m => m.conversation_id = conversation.id)).map
        (fun m => m.id) := by
    intro id
    simp only [List.mem_map, List.mem_filter, decide_eq_true_eq]
    constructor
    · rintro ⟨m, ⟨hm, hmc⟩, rfl⟩
      exact ⟨m, ⟨(hs.messages m (hmc ▸ hc)).mp hm, hmc⟩, rfl⟩
    · rintro ⟨m, ⟨hm, hmc⟩, rfl⟩
      exact ⟨m, ⟨(hs.messages m (hmc ▸ hc)).mpr hm, hmc⟩, rfl⟩
  unfold SqlAlchemyConversationRepository.new_rows
  simp only [hids]

theorem no_message_of_fresh (h : RowsSound db issued) {fresh_id : UUID}
    (hfresh : ∀ c ∈ db.conversations, c.id ≠ fresh_id) :
    ∀ m ∈ db.messages, m.conversation_id ≠ fresh_id := by
  intro m hm he
  obtain ⟨c, hc, hcid⟩ := List.mem_map.mp (h.said m hm)
  exact hfresh c hc (hcid.trans he)

/-- A turn is stored in both databases, with the same rows, or refused in both. -/
theorem stored_both (h : RowsSound db issued) (h' : RowsSound db' issued')
    (hs : SameRows t db db') {fresh_id : UUID}
    (hfresh : ∀ c ∈ db.conversations, c.id ≠ fresh_id)
    (hfresh' : ∀ c ∈ db'.conversations, c.id ≠ fresh_id) {data : AnswerQuestionInput}
    (htenant : data.tenant_id = t) {conversation : Conversation} (db_now : DateTime)
    (hload : AnswerQuestionUseCase.load_or_create_conversation db fresh_id data =
      .ok conversation) (changed : Conversation) (hid : changed.id = conversation.id) :
    (∃ e, AnswerQuestionUseCase.stored db db_now data changed = .error e ∧
      AnswerQuestionUseCase.stored db' db_now data changed = .error e) ∨
    ∃ a b, AnswerQuestionUseCase.stored db db_now data changed = .ok a ∧
      AnswerQuestionUseCase.stored db' db_now data changed = .ok b ∧ SameRows t a b := by
  -- the rows to write are the same, and none of a new conversation is stored
  have hrows : conversation_log.written db db_now data changed =
        conversation_log.written db' db_now data changed ∧
      ∀ m, m.conversation_id = changed.id → (m ∈ db.messages ↔ m ∈ db'.messages) := by
    rcases load_conversation_ok hload with ⟨hnone, rfl⟩ | ⟨id, hsome, hget⟩
    · refine ⟨by simp [conversation_log.written, hnone], ?_⟩
      intro m hm
      exact ⟨fun hmem => absurd (hm.trans hid) (no_message_of_fresh h hfresh m hmem),
        fun hmem => absurd (hm.trans hid) (no_message_of_fresh h' hfresh' m hmem)⟩
    · obtain ⟨row, hrow, hrowid, hrowtenant, hconversation, _⟩ := conversation_row hget
      rw [htenant] at hrowtenant
      have hrow' := (hs.conversations row hrowtenant).mp hrow
      have hrowid : row.id = changed.id := hrowid.trans (hconversation.symm.trans hid.symm)
      have hholder : (changed.id, t) ∈ holders db :=
        List.mem_map.mpr ⟨row, hrow, by rw [hrowid, hrowtenant]⟩
      have hfind := find_of_mem _ h.conversations hrow
      have hfind' := find_of_mem _ h'.conversations hrow'
      rw [hrowid] at hfind hfind'
      refine ⟨?_, fun m hm => hs.messages m (hm ▸ hholder)⟩
      simp only [conversation_log.written, hsome, hfind, hfind', new_rows_same hs db_now hholder]
  obtain ⟨hwritten, hmessages⟩ := hrows
  obtain ⟨hsaid, hnew⟩ := written_rows db db_now data changed
  rw [← conversation_log.committed_written, ← conversation_log.committed_written, ← hwritten]
  rcases insert_messages_both hsaid hmessages with ⟨he, he'⟩ | ⟨hok, hok'⟩
  · exact Or.inl ⟨IntegrityError, by simp [conversation_log.committed, he, bind, Except.bind],
      by simp [conversation_log.committed, he', bind, Except.bind]⟩
  · refine Or.inr ⟨_, _, conversation_log.committed_of_insert hok,
      conversation_log.committed_of_insert hok', ?_⟩
    have hnone : ∀ c ∈ (conversation_log.written db db_now data changed).conversations,
        c.id = fresh_id := by
      intro c hc
      rcases hnew with ⟨hdata, c0, hc0, hcid, _⟩ | ⟨_, hc0⟩
      · rcases load_conversation_ok hload with ⟨_, rfl⟩ | ⟨id, hsome, _⟩
        · rw [hc0, List.mem_singleton] at hc
          rw [hc, hcid, hid]
        · rw [hdata] at hsome
          cases hsome
      · rw [hc0] at hc
        cases hc
    exact same_rows_converse_both hs _ _
      (fun c hc m hm => hnone c hc ▸ no_message_of_fresh h hfresh m hm)
      (fun c hc m hm => hnone c hc ▸ no_message_of_fresh h' hfresh' m hm)

end cortex_rag.service
