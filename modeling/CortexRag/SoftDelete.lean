-- The laws of the soft deletion. The commit of a copy that was read before the
-- deletion brings the document back, and nothing else does.
import CortexRag.DocumentTransactions

open keyed_rows labelled_runs

namespace cortex_rag.soft_delete

open document_transactions

/-- The row of the document is marked as deleted, and no read returns the
document. -/
structure Deleted (db : Database) (d : UUID) : Prop where
  marked : ∃ m, find KnowledgeDocumentModel.id d db.documents = some m ∧
    m.deleted_at ≠ none ∧ m.status = .Deleted
  not_got : ∀ tenant_id, SqlAlchemyDocumentRepository.get db tenant_id d = none
  not_listed : ∀ order tenant_id knowledge_space_id limit offset,
    ∀ document ∈ (SqlAlchemyDocumentRepository.list_documents order db tenant_id
      knowledge_space_id limit offset).1, document.id ≠ d
  not_found : ∀ order tenant_id checksum document,
    SqlAlchemyDocumentRepository.get_by_checksum order db tenant_id checksum = some document →
      document.id ≠ d

/-- Every document whose deletion has committed is deleted. -/
def DeletionsLast (s : Transactions) : Prop :=
  ∀ d, (d, .Delete) ∈ s.history → Deleted s.db d

/-- The row of the document carries a deletion time. -/
def RowDeleted (s : Transactions) (d : UUID) : Prop :=
  ∃ m, s.row d = some m ∧ m.deleted_at ≠ none

/-- The commits that write a copy to a row that is deleted by now: a metadata
update, an ingestion run, and a new version with a number that is still free. -/
def Resurrects (s : Transactions) : Action → Prop
  | .Commit i _ _ _ _ =>
    match s.sessions i with
    | some (.Opened (.UpdateMetadata _) document _) => RowDeleted s document.id
    | some (.Opened .Process document _) => RowDeleted s document.id
    | some (.Adding _ _ document version _) =>
      RowDeleted s document.id ∧ (version.document_id, version.version_number) ∉
        s.db.versions.map KnowledgeDocumentVersionModel.number_key
    | _ => False
  | _ => False

/-! ## The reads -/

theorem deleted_of_row {db : Database} (hk : Keyed KnowledgeDocumentModel.id db.documents)
    {d : UUID} {m : KnowledgeDocumentModel}
    (hm : find KnowledgeDocumentModel.id d db.documents = some m) (hdel : m.deleted_at ≠ none)
    (hstatus : m.status = .Deleted) : Deleted db d := by
  obtain ⟨hmem, hid⟩ := find_some _ hm
  -- a live row has another id than the deleted one
  have hlive : ∀ m' ∈ db.documents, m'.deleted_at = none → m'.id ≠ d := by
    intro m' hm' hnone heq
    exact hdel (eq_of_key _ hk hm' hmem (heq.trans hid.symm) ▸ hnone)
  refine ⟨⟨m, hm, hdel, hstatus⟩, ?_, ?_, ?_⟩
  · intro tenant_id
    rcases hg : SqlAlchemyDocumentRepository.get db tenant_id d with _ | document
    · rfl
    · obtain ⟨m', hm', hid', _, hnone, _⟩ := SqlAlchemyDocumentRepository.get_row hg
      exact absurd hid' (hlive m' hm' hnone)
  · intro order tenant_id knowledge_space_id limit offset document hdoc
    obtain ⟨m', hm', _, hnone, _, rfl⟩ := SqlAlchemyDocumentRepository.list_documents_row hdoc
    exact hlive m' hm' hnone
  · intro order tenant_id checksum document hdoc
    obtain ⟨m', hrows, rfl⟩ := SqlAlchemyDocumentRepository.get_by_checksum_row hdoc
    obtain ⟨hm', _, hnone, _⟩ := SqlAlchemyDocumentRepository.mem_checksum_rows.mp hrows
    exact hlive m' hm' hnone

/-! ## Every run -/

/-- A row without a deletion time is not DELETED and a row with one comes from
a committed deletion; a copy was live when it was read. -/
structure Lively (s : Transactions) : Prop where
  rows : ∀ d m, s.row d = some m → m.deleted_at = none → m.status ≠ .Deleted
  deletions : ∀ d m, s.row d = some m → m.deleted_at ≠ none → (d, .Delete) ∈ s.history
  copies : ∀ i session copy, s.sessions i = some session → session.copy = some copy →
    copy.deleted_at = none ∧ copy.status ≠ .Deleted
  uploads : ∀ i document version, s.sessions i = some (.Stored document version) →
    document.deleted_at = none ∧ document.status ≠ .Deleted

theorem lively_init : Lively {} := by
  constructor <;> simp [Transactions.row, find]

/-- The copy that a live copy becomes is live too, but for a deletion. -/
theorem applied_live (now : DateTime) {change : Change} {document : KnowledgeDocument}
    (hchange : change ≠ .Delete) (hlive : document.deleted_at = none)
    (hstatus : document.status ≠ .Deleted) :
    (change.applied now document).deleted_at = none ∧
      (change.applied now document).status ≠ .Deleted := by
  cases change with
  | AddVersion data extension => exact ⟨hlive, hstatus⟩
  | UpdateMetadata data => exact ⟨hlive, hstatus⟩
  | Delete => exact absurd rfl hchange
  | Process => exact ⟨hlive, by simp [Change.applied, ProcessDocumentUseCase.processed]⟩

section Lively

variable {sha256_hex : Bytes → String} {settings : Settings} {s t : Transactions} {a : Action}

theorem live_rows_step (htied : Tied s) (hs : Lively s) (h : Moved sha256_hex settings s a t)
    {d : UUID} {m : KnowledgeDocumentModel} (hm : t.row d = some m)
    (hnone : m.deleted_at = none) : m.status ≠ .Deleted := by
  cases row_moved htied h d with
  | kept _ others hrow => exact hs.rows d m (hrow ▸ hm) hnone
  | inserted _ i document version db_now hi _ _ hrow =>
    rw [hrow, Option.some.injEq] at hm
    subst hm
    exact (hs.uploads i document version hi).2
  | updated i order now db_now job_id change document since m0 hi _ _ hm0 htenant hrow =>
    rw [hrow, Option.some.injEq] at hm
    subst hm
    obtain ⟨u, hu⟩ := SqlAlchemyDocumentRepository.update_columns_eq db_now
      (htenant.trans (applied_tenant_id now change document).symm)
    rw [hu] at hnone ⊢
    by_cases hdelete : change = .Delete
    · subst hdelete
      simp [Change.applied, DeleteDocumentUseCase.marked] at hnone
    · obtain ⟨hlive, hstatus⟩ := hs.copies i _ document hi rfl
      exact (applied_live _ hdelete hlive hstatus).2
  | added i order now db_now job_id data extension document version since m0 hi _ _ hm0 _ hrow =>
    rw [hrow, Option.some.injEq] at hm
    subst hm
    obtain ⟨u, hu⟩ := SqlAlchemyDocumentRepository.add_version_columns_eq db_now document m0
    rw [hu]
    exact (hs.copies i _ document hi rfl).2

/-- The deletion time of a row comes from the commit of a deletion. -/
theorem deletions_committed_step (htied : Tied s) (hs : Lively s)
    (h : Moved sha256_hex settings s a t) {d : UUID} {m : KnowledgeDocumentModel}
    (hm : t.row d = some m) (hdel : m.deleted_at ≠ none) : (d, .Delete) ∈ t.history := by
  cases row_moved htied h d with
  | kept _ others hrow hhist =>
    rw [hhist]
    exact List.mem_append_left _ (hs.deletions d m (hrow ▸ hm) hdel)
  | inserted _ i document version db_now hi _ _ hrow =>
    rw [hrow, Option.some.injEq] at hm
    subst hm
    exact absurd (hs.uploads i document version hi).1 hdel
  | updated i order now db_now job_id change document since m0 hi _ _ hm0 htenant hrow hhist _ =>
    rw [hrow, Option.some.injEq] at hm
    subst hm
    obtain ⟨u, hu⟩ := SqlAlchemyDocumentRepository.update_columns_eq db_now
      (htenant.trans (applied_tenant_id now change document).symm)
    rw [hu] at hdel
    rw [hhist]
    by_cases hdelete : change = .Delete
    · rw [hdelete]
      simp
    · obtain ⟨hlive, hstatus⟩ := hs.copies i _ document hi rfl
      exact absurd (applied_live _ hdelete hlive hstatus).1 hdel
  | added i order now db_now job_id data extension document version since m0 _ _ _ hm0 _ hrow
      hhist _ =>
    rw [hrow, Option.some.injEq] at hm
    subst hm
    obtain ⟨u, hu⟩ := SqlAlchemyDocumentRepository.add_version_columns_eq db_now document m0
    rw [hu] at hdel
    rw [hhist]
    exact List.mem_append_left _ (hs.deletions d m0 hm0 hdel)

theorem live_copies_step (htied : Tied s) (hs : Lively s) (h : Moved sha256_hex settings s a t)
    {j : Nat} {session : Session} {copy : KnowledgeDocument} (hj : t.sessions j = some session)
    (hcopy : session.copy = some copy) : copy.deleted_at = none ∧ copy.status ≠ .Deleted := by
  cases session_moved h hj with
  | kept _ hsj => exact hs.copies j session copy hsj hcopy
  | checked data extension hdot => cases hcopy
  | opened change document tenant_id document_id hc hget =>
    cases hcopy
    obtain ⟨m, hm, hid, _, hnone, rfl⟩ := SqlAlchemyDocumentRepository.get_row hget
    exact ⟨hnone, hs.rows m.id m (find_of_mem _ htied.documents_keyed hm) hnone⟩
  | stored => cases hcopy
  | adding data extension document since version_id now version hopened =>
    cases hcopy
    exact hs.copies j _ document hopened rfl

theorem live_uploads_step (hs : Lively s) (h : Moved sha256_hex settings s a t) {j : Nat}
    {document : KnowledgeDocument} {version : KnowledgeDocumentVersion}
    (hj : t.sessions j = some (.Stored document version)) :
    document.deleted_at = none ∧ document.status ≠ .Deleted := by
  cases session_moved h hj with
  | kept _ hsj => exact hs.uploads j document version hsj
  | stored data extension document_id version_id now _ _ _ _ _ _ _ _ _ hde _ =>
    rw [hde]
    exact ⟨rfl, by simp [UploadDocumentUseCase.new_document]⟩

theorem lively_step (htied : Tied s) (hs : Lively s) (h : Moved sha256_hex settings s a t) :
    Lively t where
  rows := fun _ _ => live_rows_step htied hs h
  deletions := fun _ _ => deletions_committed_step htied hs h
  copies := fun _ _ _ => live_copies_step htied hs h
  uploads := fun _ _ _ => live_uploads_step hs h

end Lively

/-! ## The laws -/

/-- A step that resurrects no document keeps every deletion. -/
theorem deletions_last_step {sha256_hex : Bytes → String} {settings : Settings}
    {s t : Transactions} {a : Action} (htied : Tied s) (hs : DeletionsLast s)
    (hgood : ¬ Resurrects s a) (h : Moved sha256_hex settings s a t) : DeletionsLast t := by
  have hkeyed := (tied_step htied h).documents_keyed
  intro d hd
  cases row_moved htied h d with
  | kept _ others hrow hhist hothers _ =>
    rw [hhist, List.mem_append] at hd
    rcases hd with hd | hd
    · obtain ⟨m, hm, hdel, hstatus⟩ := (hs d hd).marked
      exact deleted_of_row hkeyed (hrow.trans hm) hdel hstatus
    · exact absurd rfl (hothers _ hd)
  | inserted _ i document version db_now hi _ hnone hrow hhist _ =>
    obtain ⟨m, hm, _⟩ := (hs d (hhist ▸ hd)).marked
    exact absurd (hnone.symm.trans hm) (by simp)
  | updated i order now db_now job_id change document since m hi hc hdoc hm htenant hrow hhist _ =>
    by_cases hdelete : change = .Delete
    · obtain ⟨u, hu⟩ := SqlAlchemyDocumentRepository.update_columns_eq db_now
        (htenant.trans (applied_tenant_id now change document).symm)
      rw [hu, hdelete] at hrow
      exact deleted_of_row hkeyed hrow (by simp [Change.applied, DeleteDocumentUseCase.marked])
        rfl
    · have hd : (d, Change.Delete) ∈ s.history := by
        rw [hhist, List.mem_append] at hd
        rcases hd with hd | hd
        · exact hd
        · simp only [List.mem_singleton, Prod.mk.injEq, true_and] at hd
          exact absurd hd.symm hdelete
      obtain ⟨m', hm', hdel, _⟩ := (hs d hd).marked
      have hrowdel : RowDeleted s document.id := ⟨m', hdoc ▸ hm', hdel⟩
      refine absurd ?_ hgood
      simp only [Resurrects, hi]
      cases change with
      | AddVersion data extension => exact absurd rfl (hc data extension)
      | UpdateMetadata data => exact hrowdel
      | Delete => exact absurd rfl hdelete
      | Process => exact hrowdel
  | added i order now db_now job_id data extension document version since m hi hk hdoc hm _ hrow
      hhist _ =>
    have hd : (d, Change.Delete) ∈ s.history := by
      rw [hhist, List.mem_append] at hd
      rcases hd with hd | hd
      · exact hd
      · simp at hd
    obtain ⟨m', hm', hdel, _⟩ := (hs d hd).marked
    refine absurd ?_ hgood
    simp only [Resurrects, hi]
    exact ⟨⟨m', hdoc ▸ hm', hdel⟩, hk⟩

/-- After a live copy is written to a deleted row, the deletion is in the
history and the row is not DELETED. -/
theorem written_live {s t : Transactions} {d : UUID} {m : KnowledgeDocumentModel}
    (hs : Lively s) (hdel : RowDeleted s d) (hhist : ∀ e ∈ s.history, e ∈ t.history)
    (hrow : t.row d = some m) (hstatus : m.status ≠ .Deleted) : ¬ DeletionsLast t := by
  intro hlast
  obtain ⟨m0, hm0, hdel⟩ := hdel
  obtain ⟨m', hm', _, hstatus'⟩ := (hlast d (hhist _ (hs.deletions d m0 hm0 hdel))).marked
  have heq : m = m' := Option.some.inj (hrow.symm.trans hm')
  exact hstatus (heq ▸ hstatus')

theorem update_breaks {s : Transactions} {i : Nat} (now db_now : DateTime) {change : Change}
    {document : KnowledgeDocument} {since : Nat} (htied : Tied s) (hs : Lively s)
    (hi : s.sessions i = some (.Opened change document since)) (hchange : change ≠ .Delete)
    (hdel : RowDeleted s document.id) :
    ¬ DeletionsLast { s.set i none with
      db := SqlAlchemyDocumentRepository.update s.db db_now (change.applied now document)
      history := s.history ++ [(document.id, change)] } := by
  obtain ⟨m, hm, htenant⟩ := copy_row htied hi rfl
  obtain ⟨hlive, hstatus⟩ := hs.copies i _ document hi rfl
  rw [← applied_id now change] at hm hdel
  obtain ⟨u, hu⟩ := SqlAlchemyDocumentRepository.update_columns_eq db_now
    (htenant.trans (applied_tenant_id now change document).symm)
  have hrow := SqlAlchemyDocumentRepository.find_updated db_now _ hm
  rw [hu] at hrow
  exact written_live hs hdel (fun e he => List.mem_append_left _ he) hrow
    (applied_live now hchange hlive hstatus).2

theorem add_version_breaks {s : Transactions} {i : Nat} (db_now : DateTime)
    {data : AddDocumentVersionInput} {extension : String} {document : KnowledgeDocument}
    {version : KnowledgeDocumentVersion} {since : Nat} (htied : Tied s) (hs : Lively s)
    (hi : s.sessions i = some (.Adding data extension document version since))
    (hdel : RowDeleted s document.id) :
    ¬ DeletionsLast { s.set i none with
      db := { s.db with
        versions := s.db.versions ++ [version_to_model db_now version]
        documents := modify KnowledgeDocumentModel.id document.id
          (SqlAlchemyDocumentRepository.add_version_columns db_now document) s.db.documents }
      history := s.history ++ [(document.id, .AddVersion data extension)] } := by
  obtain ⟨m, hm, _⟩ := copy_row htied hi rfl
  obtain ⟨u, hu⟩ := SqlAlchemyDocumentRepository.add_version_columns_eq db_now document m
  have hrow := SqlAlchemyDocumentRepository.find_pointed db_now hm
  rw [hu] at hrow
  exact written_live hs hdel (fun e he => List.mem_append_left _ he) hrow
    (hs.copies i _ document hi rfl).2

/-- A step that resurrects a document breaks its deletion. -/
theorem resurrects_breaks {sha256_hex : Bytes → String} {settings : Settings}
    {s : Transactions} {a : Action} (htied : Tied s) (hs : Lively s) (hbad : Resurrects s a) :
    ∃ t, s.step sha256_hex settings a = some t ∧ ¬ DeletionsLast t := by
  cases a with
  | Open i order request => exact absurd hbad (by simp [Resurrects])
  | Store i now document_id version_id => exact absurd hbad (by simp [Resurrects])
  | Abort i => exact absurd hbad (by simp [Resurrects])
  | Commit i order now db_now job_id =>
    simp only [Resurrects] at hbad
    split at hbad
    · rename_i data document since hi
      exact ⟨_, by simp only [Transactions.step, hi, Option.bind_some, Transactions.commit],
        update_breaks now db_now htied hs hi (by simp) hbad⟩
    · rename_i document since hi
      exact ⟨_, by simp only [Transactions.step, hi, Option.bind_some, Transactions.commit],
        update_breaks now db_now htied hs hi (by simp) hbad⟩
    · rename_i data extension document version since hi
      have hok : SqlAlchemyDocumentRepository.add_version s.db db_now document version = .ok _ :=
        SqlAlchemyDocumentRepository.add_version_ok.mpr ⟨hbad.2, rfl⟩
      exact ⟨_, by simp only [Transactions.step, hi, Option.bind_some, Transactions.commit, hok],
        add_version_breaks db_now htied hs hi hbad.1⟩
    · exact absurd hbad id

theorem lively_keeps {sha256_hex : Bytes → String} {settings : Settings} (s : Transactions)
    (a : Action) (t : Transactions) (hs : Tied s ∧ Lively s)
    (h : s.step sha256_hex settings a = some t) : Tied t ∧ Lively t :=
  ⟨tied_step hs.1 (moved_of_step h), lively_step hs.1 hs.2 (moved_of_step h)⟩

/-- The deletions that commit in a run last through the run exactly when no
step writes a copy from before a deletion to the deleted row. -/
theorem a_deletion_lasts_unless_an_older_copy_is_written (sha256_hex : Bytes → String)
    (settings : Settings) (as : List Action) :
    Throughout (Transactions.step sha256_hex settings) DeletionsLast {} as ↔
      Along (Transactions.step sha256_hex settings) (fun s a => ¬ Resurrects s a) {} as := by
  refine throughout_iff_along (I := fun s => Tied s ∧ Lively s)
    (fun s a t hs _ _ => lively_keeps s a t hs) ?_ ?_ ⟨tied_init, lively_init⟩ ?_ as
  · intro s a t hs hlast hgood ht
    exact deletions_last_step hs.1 hlast hgood (moved_of_step ht)
  · intro s a hs _ hbad
    exact resurrects_breaks hs.1 hs.2 (not_not.mp hbad)
  · intro d hd
    cases hd

/-- A new title that was asked for before a deletion, and is committed after it. -/
def late_title : List Action :=
  one_upload ++
    [.Open 1 (fun _ => 0)
        (.UpdateMetadata { tenant_id := "acme", document_id := ⟨1⟩, title := some "Plan" }),
      .Open 2 (fun _ => 0) (.Delete { tenant_id := "acme", document_id := ⟨1⟩ }),
      .Commit 2 (fun _ => 0) noon noon ⟨4⟩,
      .Commit 1 (fun _ => 0) noon noon ⟨5⟩]

theorem a_late_title_brings_a_deleted_document_back :
    ¬ Throughout (Transactions.step pdf_sha256 {}) DeletionsLast {} late_title := by
  intro h
  have hrun : (run (Transactions.step pdf_sha256 {}) {} late_title).map (fun s =>
      (decide ((⟨1⟩, .Delete) ∈ s.history),
        (SqlAlchemyDocumentRepository.get s.db "acme" ⟨1⟩).isSome)) = some (true, true) := by
    decide +kernel
  obtain ⟨s, hs, heq⟩ := Option.map_eq_some_iff.mp hrun
  simp only [Prod.mk.injEq, decide_eq_true_eq] at heq
  have hdeleted := h late_title [] s (List.append_nil _).symm hs ⟨1⟩ heq.1
  rw [hdeleted.not_got "acme"] at heq
  exact absurd heq.2 (by simp)

end cortex_rag.soft_delete
