-- The documents that are not deleted: an upload brings one in, a deletion takes
-- one away, and no other step changes which they are.
import CortexRag.ServiceSound

open keyed_rows

namespace cortex_rag.service

/-- A document of the tenant that is not deleted. -/
def Live (db : Database) (tenant_id : String) (document_id : UUID) : Prop :=
  ∃ m ∈ db.documents, m.id = document_id ∧ m.tenant_id = tenant_id ∧ m.deleted_at = none

instance (db : Database) (tenant_id : String) (document_id : UUID) :
    Decidable (Live db tenant_id document_id) :=
  inferInstanceAs (Decidable (∃ m ∈ db.documents, m.id = document_id ∧ m.tenant_id = tenant_id ∧
    m.deleted_at = none))

variable {P : Providers} {settings : Settings} {w w' : World} {db : Database}
  {issued : List UUID} {tenant_id : String} {d : UUID}

theorem live_of_get {document : KnowledgeDocument}
    (h : SqlAlchemyDocumentRepository.get db tenant_id d = some document) :
    Live db tenant_id document.id := by
  obtain ⟨m, hm, _, htenant, hlive, rfl⟩ := SqlAlchemyDocumentRepository.get_row h
  exact ⟨m, hm, rfl, htenant, hlive⟩

theorem get_of_live (hk : Keyed KnowledgeDocumentModel.id db.documents)
    (h : Live db tenant_id d) :
    ∃ document, SqlAlchemyDocumentRepository.get db tenant_id d = some document := by
  obtain ⟨m, hm, rfl, rfl, hlive⟩ := h
  exact ⟨_, SqlAlchemyDocumentRepository.get_of_row hk hm hlive⟩

/-! ## A change of one document -/

section Modify

variable {k : UUID} {f : KnowledgeDocumentModel → KnowledgeDocumentModel}

/-- A change that makes no deleted document live. -/
theorem live_of_modify (hid : ∀ m, (f m).id = m.id) (htenant : ∀ m, (f m).tenant_id = m.tenant_id)
    (hlive : ∀ m ∈ db.documents, m.id = k → (f m).deleted_at = none → m.deleted_at = none)
    (h : Live { db with documents := modify KnowledgeDocumentModel.id k f db.documents }
      tenant_id d) : Live db tenant_id d := by
  obtain ⟨m, hm, rfl, rfl, hm'⟩ := h
  rcases mem_of_modify _ hm with ⟨hm, _⟩ | ⟨m0, hm0, hk, rfl⟩
  · exact ⟨m, hm, rfl, rfl, hm'⟩
  · exact ⟨m0, hm0, (hid m0).symm, (htenant m0).symm, hlive m0 hm0 hk hm'⟩

/-- A document stays live through a change of another one, or one that does not
delete it. -/
theorem live_modify (hid : ∀ m, (f m).id = m.id) (htenant : ∀ m, (f m).tenant_id = m.tenant_id)
    (hlive : d = k → ∀ m ∈ db.documents, m.id = k → m.deleted_at = none →
      (f m).deleted_at = none) (h : Live db tenant_id d) :
    Live { db with documents := modify KnowledgeDocumentModel.id k f db.documents }
      tenant_id d := by
  obtain ⟨m, hm, rfl, rfl, hm'⟩ := h
  by_cases hk : m.id = k
  · refine ⟨f m, (mem_modify _).mpr ⟨m, hm, if_pos hk⟩, hid m, htenant m, ?_⟩
    exact hlive hk m hm hk hm'
  · exact ⟨m, (mem_modify _).mpr ⟨m, hm, if_neg hk⟩, rfl, rfl, hm'⟩

end Modify

section Update

variable {document : KnowledgeDocument} {db_now : DateTime} {owner : String} {k : UUID}

theorem live_of_update (changed : KnowledgeDocument) (h : RowsSound db issued)
    (hget : SqlAlchemyDocumentRepository.get db owner k = some document)
    (hid : changed.id = document.id)
    (hlive : Live (SqlAlchemyDocumentRepository.update db db_now changed) tenant_id d) :
    Live db tenant_id d :=
  live_of_modify (by simp) (by simp)
    (fun m hm hk _ => (pointer_of_get h hget m hm (hk.trans hid)).2.2) hlive

theorem live_update {changed : KnowledgeDocument}
    (hchanged : d = changed.id → changed.deleted_at = none) (hlive : Live db tenant_id d) :
    Live (SqlAlchemyDocumentRepository.update db db_now changed) tenant_id d := by
  refine live_modify (by simp) (by simp) ?_ hlive
  intro hd m _ _ hm
  by_cases htenant : m.tenant_id = changed.tenant_id
  · obtain ⟨u, hu⟩ := SqlAlchemyDocumentRepository.update_columns_eq db_now htenant
    rw [hu]
    exact hchanged hd
  · rw [SqlAlchemyDocumentRepository.update_columns_other db_now htenant]
    exact hm

end Update

theorem live_add_version (db_now : DateTime) (document : KnowledgeDocument)
    (versions : List KnowledgeDocumentVersionModel) :
    Live { db with
      versions
      documents := modify KnowledgeDocumentModel.id document.id
        (SqlAlchemyDocumentRepository.add_version_columns db_now document) db.documents }
      tenant_id d ↔ Live db tenant_id d := by
  have hdeleted : ∀ m, (SqlAlchemyDocumentRepository.add_version_columns db_now document
      m).deleted_at = m.deleted_at := by
    intro m
    obtain ⟨u, hu⟩ := SqlAlchemyDocumentRepository.add_version_columns_eq db_now document m
    rw [hu]
  constructor
  · intro h
    exact live_of_modify (by simp) (by simp) (fun m _ _ hm => (hdeleted m).symm.trans hm) h
  · intro h
    exact live_modify (by simp) (by simp) (fun _ m _ _ hm => (hdeleted m).trans hm) h

theorem live_insert {m : KnowledgeDocumentModel} :
    Live { db with documents := db.documents ++ [m] } tenant_id d ↔
      Live db tenant_id d ∨ (m.id = d ∧ m.tenant_id = tenant_id ∧ m.deleted_at = none) := by
  simp [Live, or_and_right, exists_or]

/-! ## The steps -/

/-- A live document was live before the operation, or an upload has brought it
in. -/
theorem live_before {r : Request} (h : Sound P w) (hw : w.step P settings r = some w')
    (hlive : Live w'.db tenant_id d) :
    Live w.db tenant_id d ∨ ∃ data, r.operation = .Upload data ∧ d = r.moment.ids.document ∧
      tenant_id = data.tenant_id := by
  obtain ⟨_, _, hm⟩ := moved_of_step hw
  generalize r.operation = operation at hm
  cases hm with
  | still _ _ hb => exact Or.inl (hb.db ▸ hlive)
  | saved _ _ tenant_id document_id extension at_ content _ hb => exact Or.inl (hb.db ▸ hlive)
  | uploaded _ data extension version document job _ _ hv hd _ _ hb =>
    rw [hb.db] at hlive
    rcases live_insert.mp hlive with hlive | ⟨hid, htenant, _⟩
    · exact Or.inl hlive
    · rw [hd] at hid htenant
      exact Or.inr ⟨data, rfl, hid.symm, htenant.symm⟩
  | version_added _ data extension document version _ _ _ _ hb =>
    rw [hb.db] at hlive
    exact Or.inl ((live_add_version _
      (AddDocumentVersionUseCase.pointed document version.id) _).mp hlive)
  | updated _ data document hget hb =>
    rw [hb.db] at hlive
    exact Or.inl (live_of_update
      (UpdateDocumentMetadataUseCase.merged data document) h.rows hget rfl hlive)
  | deleted _ data document hget hb =>
    rw [hb.db] at hlive
    exact Or.inl (live_of_update
      (DeleteDocumentUseCase.marked (r.moment.clock 0) document) h.rows hget rfl hlive)
  | indexed _ _ document_id document points _ hb => exact Or.inl (hb.db ▸ hlive)
  | processed _ data document points hi hb =>
    rw [hb.db] at hlive
    exact Or.inl (live_of_update
      (ProcessDocumentUseCase.processed document) h.rows hi.got rfl hlive)
  | handled _ message job _ he =>
    cases he with
    | refused job' events _ hb =>
      rw [hb.db] at hlive
      exact Or.inl hlive
    | failed name text job1 job2 events more enqueued points _ _ _ hb =>
      rw [hb.db] at hlive
      exact Or.inl hlive
    | completed name job1 job2 events more enqueued document points _ _ hi hb =>
      rw [hb.db] at hlive
      exact Or.inl (live_of_update
      (ProcessDocumentUseCase.processed document) h.rows hi.got rfl hlive)
  | answered _ data conversation answer db _ hstored hb =>
    rw [← conversation_log.committed_written] at hstored
    rw [hb.db, (conversation_log.committed_ok hstored).2] at hlive
    exact Or.inl hlive

/-- A live document stays live, or the operation deletes it. -/
theorem live_after {r : Request} (hw : w.step P settings r = some w')
    (hlive : Live w.db tenant_id d) :
    Live w'.db tenant_id d ∨ ∃ data, r.operation = .Delete data ∧ d = data.document_id := by
  obtain ⟨_, _, hm⟩ := moved_of_step hw
  generalize r.operation = operation at hm
  have hkept : ∀ {changed : KnowledgeDocument} {owner : String} {k : UUID}
      {document : KnowledgeDocument} {db_now : DateTime},
      SqlAlchemyDocumentRepository.get w.db owner k = some document →
      changed.deleted_at = document.deleted_at →
      Live (SqlAlchemyDocumentRepository.update w.db db_now changed) tenant_id d := by
    intro changed owner k document db_now hget hdeleted
    obtain ⟨m, _, _, _, hm, rfl⟩ := SqlAlchemyDocumentRepository.get_row hget
    exact live_update (fun _ => hdeleted.trans hm) hlive
  cases hm with
  | still _ _ hb => exact Or.inl (hb.db.symm ▸ hlive)
  | saved _ _ tenant_id document_id extension at_ content _ hb =>
    exact Or.inl (hb.db.symm ▸ hlive)
  | uploaded _ data extension version document job _ _ hv hd _ _ hb =>
    rw [hb.db]
    exact Or.inl (live_insert.mpr (Or.inl hlive))
  | version_added _ data extension document version _ _ _ _ hb =>
    rw [hb.db]
    exact Or.inl ((live_add_version _
      (AddDocumentVersionUseCase.pointed document version.id) _).mpr hlive)
  | updated _ data document hget hb =>
    rw [hb.db]
    exact Or.inl (hkept hget rfl)
  | deleted _ data document hget hb =>
    by_cases hd : d = data.document_id
    · exact Or.inr ⟨data, rfl, hd⟩
    · rw [hb.db]
      refine Or.inl (live_update (fun hid => absurd ?_ hd) hlive)
      exact hid.trans (document_id_of_get hget).2.1
  | indexed _ _ document_id document points _ hb => exact Or.inl (hb.db.symm ▸ hlive)
  | processed _ data document points hi hb =>
    rw [hb.db]
    exact Or.inl (hkept hi.got rfl)
  | handled _ message job _ he =>
    cases he with
    | refused job' events _ hb =>
      rw [hb.db]
      exact Or.inl hlive
    | failed name text job1 job2 events more enqueued points _ _ _ hb =>
      rw [hb.db]
      exact Or.inl hlive
    | completed name job1 job2 events more enqueued document points _ _ hi hb =>
      rw [hb.db]
      exact Or.inl (hkept hi.got rfl)
  | answered _ data conversation answer db _ hstored hb =>
    rw [← conversation_log.committed_written] at hstored
    rw [hb.db, (conversation_log.committed_ok hstored).2]
    exact Or.inl hlive

end cortex_rag.service
