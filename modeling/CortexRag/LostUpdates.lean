-- The laws of overlapping changes of a live document: what a commit may undo.
-- A change is lost exactly when a commit writes back a column that differs
-- from the row and that the change is not meant to set.
import CortexRag.VersionHistory

open keyed_rows labelled_runs

namespace cortex_rag.lost_updates

open document_transactions version_history

/-! ## The fields of a metadata update -/

/-- A column that only a metadata update is meant to set: its value in the row
and in the copy, and the value that an update supplies. -/
structure Field (β : Type) where
  row : KnowledgeDocumentModel → β
  copy : KnowledgeDocument → β
  input : UpdateDocumentMetadataInput → Option β
  read : ∀ m version, copy (doc_to_entity m version) = row m
  merged : ∀ data document,
    copy (UpdateDocumentMetadataUseCase.merged data document) = (input data).getD (copy document)
  processed : ∀ document, copy (ProcessDocumentUseCase.processed document) = copy document
  updated : ∀ db_now document m, m.tenant_id = document.tenant_id →
    row (SqlAlchemyDocumentRepository.update_columns db_now document m) = copy document
  version_added : ∀ db_now document m,
    row (SqlAlchemyDocumentRepository.add_version_columns db_now document m) = row m

def title_field : Field String where
  row := fun m => m.title
  copy := fun document => document.title
  input := fun data => data.title
  read := fun _ _ => rfl
  merged := fun _ _ => rfl
  processed := fun _ => rfl
  updated := by
    intro db_now document m h
    obtain ⟨u, hu⟩ := SqlAlchemyDocumentRepository.update_columns_eq db_now h
    rw [hu]
  version_added := by
    intro db_now document m
    obtain ⟨u, hu⟩ := SqlAlchemyDocumentRepository.add_version_columns_eq db_now document m
    rw [hu]

def space_field : Field (Option UUID) where
  row := fun m => m.knowledge_space_id
  copy := fun document => document.knowledge_space_id
  input := fun data => data.knowledge_space_id.map some
  read := fun _ _ => rfl
  merged := by
    intro data document
    cases h : data.knowledge_space_id <;> simp [UpdateDocumentMetadataUseCase.merged, h]
  processed := fun _ => rfl
  updated := by
    intro db_now document m h
    obtain ⟨u, hu⟩ := SqlAlchemyDocumentRepository.update_columns_eq db_now h
    rw [hu]
  version_added := by
    intro db_now document m
    obtain ⟨u, hu⟩ := SqlAlchemyDocumentRepository.add_version_columns_eq db_now document m
    rw [hu]

def metadata_field : Field KnowledgeMetadata where
  row := fun m => m.metadata
  copy := fun document => document.metadata
  input := fun data => data.metadata
  read := fun _ _ => rfl
  merged := fun _ _ => rfl
  processed := fun _ => rfl
  updated := by
    intro db_now document m h
    obtain ⟨u, hu⟩ := SqlAlchemyDocumentRepository.update_columns_eq db_now h
    rw [hu]
  version_added := by
    intro db_now document m
    obtain ⟨u, hu⟩ := SqlAlchemyDocumentRepository.add_version_columns_eq db_now document m
    rw [hu]

/-- The value that a change is meant to give to the field. -/
def Field.supplies {β : Type} (f : Field β) : Change → Option β
  | .UpdateMetadata data => f.input data
  | _ => none

/-- Whether a change sets the status on purpose, and to PROCESSED. A new version
only means to move the pointer. -/
def sets_processed : Change → Option Bool
  | .AddVersion _ _ => none
  | .UpdateMetadata _ => none
  | .Delete => some false
  | .Process => some true

/-- What the last commit of the document that sets something has set. -/
def last_set {γ : Type} (sets : Change → Option γ) (d : UUID) (history : List (UUID × Change)) :
    Option γ :=
  history.reverse.findSome? (fun e => if e.1 = d then sets e.2 else none)

theorem last_set_append {γ : Type} (sets : Change → Option γ) (d : UUID)
    (h1 h2 : List (UUID × Change)) :
    last_set sets d (h1 ++ h2) = (last_set sets d h2).or (last_set sets d h1) := by
  unfold last_set
  rw [List.reverse_append, List.findSome?_append]

theorem last_set_others {γ : Type} (sets : Change → Option γ) {d : UUID}
    {others : List (UUID × Change)} (h : ∀ e ∈ others, e.1 ≠ d) :
    last_set sets d others = none := by
  unfold last_set
  rw [List.findSome?_eq_none_iff]
  intro e he
  exact if_neg (h e (List.mem_reverse.mp he))

theorem last_set_append_others {γ : Type} (sets : Change → Option γ) {d : UUID}
    (history : List (UUID × Change)) {others : List (UUID × Change)} (h : ∀ e ∈ others, e.1 ≠ d) :
    last_set sets d (history ++ others) = last_set sets d history := by
  rw [last_set_append, last_set_others sets h, Option.none_or]

theorem last_set_snoc {γ : Type} (sets : Change → Option γ) (d : UUID)
    (history : List (UUID × Change)) (change : Change) :
    last_set sets d (history ++ [(d, change)]) = (sets change).or (last_set sets d history) := by
  rw [last_set_append]
  simp [last_set]

/-! ## The property and the condition -/

def Field.Kept {β : Type} (f : Field β) (s : Transactions) (d : UUID)
    (m : KnowledgeDocumentModel) : Prop :=
  ∀ v, last_set f.supplies d s.history = some v → f.row m = v

/-- The pointer designates the version of the document with the highest number. -/
def Newest (s : Transactions) (d : UUID) (pointer : Option UUID) : Prop :=
  ∃ v ∈ s.db.versions, pointer = some v.id ∧ v.document_id = d ∧
    ∀ w ∈ s.db.versions, w.document_id = d → w.version_number ≤ v.version_number

/-- The row holds what the commits have meant to set: the last values that
were supplied, the version with the highest number, and PROCESSED after an
ingestion run. -/
structure Kept (s : Transactions) (d : UUID) (m : KnowledgeDocumentModel) : Prop where
  title : title_field.Kept s d m
  knowledge_space_id : space_field.Kept s d m
  metadata : metadata_field.Kept s d m
  newest : Newest s d m.current_version_id
  processed : last_set sets_processed d s.history = some true → m.status = .Processed

/-- No committed change of a document that was never deleted is lost. -/
def NothingLost (s : Transactions) : Prop :=
  ∀ d m, s.row d = some m → (d, .Delete) ∉ s.history → Kept s d m

def Field.Stale {β : Type} (f : Field β) (change : Change) (copy : KnowledgeDocument)
    (m : KnowledgeDocumentModel) : Prop :=
  f.supplies change = none ∧ f.copy copy ≠ f.row m

/-- An ingestion run was the last to set the status of the document, and the copy
does not have it. -/
def StaleStatus (s : Transactions) (copy : KnowledgeDocument) : Prop :=
  last_set sets_processed copy.id s.history = some true ∧ copy.status ≠ .Processed

/-- The copy differs from the row where the change does not mean to set it:
in a field, in the pointer, or in a status that an ingestion run has set. -/
def Stale (s : Transactions) (change : Change) (copy : KnowledgeDocument)
    (m : KnowledgeDocumentModel) : Prop :=
  title_field.Stale change copy m ∨ space_field.Stale change copy m ∨
    metadata_field.Stale change copy m ∨ copy.current_version_id ≠ m.current_version_id ∨
    (change ≠ .Process ∧ StaleStatus s copy)

/-- The commits of a stale copy to a document that was never deleted: by a metadata
update or an ingestion run, which write all columns, or by a new version, which
writes the pointer and the status, if no index refuses it. -/
def Overwrites (s : Transactions) : Action → Prop
  | .Commit i _ _ _ _ =>
    match s.sessions i with
    | some (.Opened (.UpdateMetadata data) copy _) =>
      (copy.id, .Delete) ∉ s.history ∧
        ∃ m, s.row copy.id = some m ∧ Stale s (.UpdateMetadata data) copy m
    | some (.Opened .Process copy _) =>
      (copy.id, .Delete) ∉ s.history ∧ ∃ m, s.row copy.id = some m ∧ Stale s .Process copy m
    | some (.Adding _ _ copy version _) =>
      (copy.id, .Delete) ∉ s.history ∧ StaleStatus s copy ∧
        (version.document_id, version.version_number) ∉
          s.db.versions.map KnowledgeDocumentVersionModel.number_key
    | _ => False
  | _ => False

/-! ## The copies of a run without stale commits -/

/-- A copy has the value of the row, unless a later commit has supplied one. -/
def Field.Fresh {β : Type} (f : Field β) (s : Transactions) : Prop :=
  ∀ i change copy since, s.sessions i = some (.Opened change copy since) →
    (copy.id, .Delete) ∉ s.history →
    last_set f.supplies copy.id (s.history.drop since) = none →
    ∀ m, s.row copy.id = some m → f.copy copy = f.row m

/-- What a run keeps as long as it commits no stale copy. -/
structure Windows (sha256_hex : Bytes → String) (s : Transactions) : Prop where
  sound : Sound sha256_hex s
  logged : ∀ e ∈ s.history, ∃ m, s.row e.1 = some m
  since_le : ∀ i change copy since, s.sessions i = some (.Opened change copy since) →
    since ≤ s.history.length
  title : title_field.Fresh s
  knowledge_space_id : space_field.Fresh s
  metadata : metadata_field.Fresh s

theorem windows_init (sha256_hex : Bytes → String) : Windows sha256_hex {} := by
  refine ⟨sound_init sha256_hex, ?_, ?_, ?_, ?_, ?_⟩ <;> simp [Field.Fresh]

/-- The value that a change leaves in the copy. -/
theorem applied_field {β : Type} (f : Field β) {now : DateTime} {change : Change}
    (hchange : change ≠ .Delete) (document : KnowledgeDocument) :
    f.copy (change.applied now document) = (f.supplies change).getD (f.copy document) := by
  cases change with
  | AddVersion data extension => rfl
  | UpdateMetadata data => exact f.merged data document
  | Delete => exact absurd rfl hchange
  | Process => exact f.processed document

/-- A commit writes to the field what it supplies, and else the value of its
copy. -/
theorem updated_field {β : Type} (f : Field β) {now db_now : DateTime} {change : Change}
    (hchange : change ≠ .Delete) {document : KnowledgeDocument} {m : KnowledgeDocumentModel}
    (htenant : m.tenant_id = document.tenant_id) :
    f.row (SqlAlchemyDocumentRepository.update_columns db_now (change.applied now document) m) =
      (f.supplies change).getD (f.copy document) := by
  rw [f.updated, applied_field f hchange]
  exact htenant.trans (applied_tenant_id now change document).symm

theorem fresh_step {sha256_hex : Bytes → String} {settings : Settings} {s t : Transactions}
    {a : Action} {β : Type} (f : Field β) (hs : Tied s)
    (hsince : ∀ i change copy since, s.sessions i = some (.Opened change copy since) →
      since ≤ s.history.length)
    (hf : f.Fresh s) (h : Moved sha256_hex settings s a t)
    (hgood : ∀ i order now db_now job_id change copy since m,
      a = .Commit i order now db_now job_id → s.sessions i = some (.Opened change copy since) →
      (∀ data extension, change ≠ .AddVersion data extension) → change ≠ .Delete →
      (copy.id, .Delete) ∉ s.history → s.row copy.id = some m → ¬ f.Stale change copy m) :
    f.Fresh t := by
  intro j change copy since hj hlive hnone m hm
  cases session_moved h hj with
  | opened _ _ tenant_id document_id hc hget hdb hhist =>
    obtain ⟨m', hm', _, _, _, rfl⟩ := SqlAlchemyDocumentRepository.get_row hget
    have hrow : t.row m'.id = some m' := by
      unfold Transactions.row
      rw [hdb]
      exact row_of_mem hs hm'
    have heq : m' = m := Option.some.inj (hrow.symm.trans hm)
    rw [f.read, heq]
  | kept _ hsj =>
    have hle := hsince j change copy since hsj
    cases row_moved hs h copy.id with
    | kept _ others hrow hhist hothers _ =>
      rw [hhist] at hlive hnone
      rw [List.drop_append_of_le_length hle, last_set_append_others _ _ hothers] at hnone
      exact hf j change copy since hsj (fun hd => hlive (List.mem_append_left _ hd)) hnone m
        (hrow ▸ hm)
    | inserted _ i document version db_now hi _ hnorow =>
      obtain ⟨m', hm', _⟩ := copy_row hs hsj rfl
      exact absurd (hnorow.symm.trans hm') (by simp)
    | updated i order now db_now job_id change' document since' m' hi hc hd hm' htenant hrow hhist
        _ =>
      rw [hhist] at hlive hnone
      rw [List.drop_append_of_le_length hle, last_set_snoc, Option.or_eq_none_iff] at hnone
      have hlive' : (copy.id, Change.Delete) ∉ s.history :=
        fun hd => hlive (List.mem_append_left _ hd)
      have hchange : change' ≠ .Delete := by
        rintro rfl
        exact hlive (by simp)
      have hsame := hf j change copy since hsj hlive' hnone.2 m' hm'
      have hnot := hgood i order now db_now job_id change' document since' m' rfl hi hc hchange
        (hd ▸ hlive') (hd ▸ hm')
      rw [hrow, Option.some.injEq] at hm
      rw [← hm, updated_field f hchange htenant, hnone.1, Option.getD_none, hsame]
      by_contra hne
      exact hnot ⟨hnone.1, fun heq => hne heq.symm⟩
    | added i order now db_now job_id data extension document version since' m' hi hk hd hm' _ hrow
        hhist _ =>
      rw [hhist] at hlive hnone
      rw [List.drop_append_of_le_length hle, last_set_snoc, Option.or_eq_none_iff] at hnone
      have hsame := hf j change copy since hsj (fun hd => hlive (List.mem_append_left _ hd))
        hnone.2 m' hm'
      rw [hrow, Option.some.injEq] at hm
      rw [← hm, f.version_added, hsame]

/-- A commit that overwrites nothing writes no stale copy. -/
theorem not_stale {s : Transactions} {i : Nat} {order : RowOrder} {now db_now : DateTime}
    {job_id : UUID} {change : Change} {copy : KnowledgeDocument} {since : Nat}
    {m : KnowledgeDocumentModel} (hgood : ¬ Overwrites s (.Commit i order now db_now job_id))
    (hi : s.sessions i = some (.Opened change copy since))
    (hc : ∀ data extension, change ≠ .AddVersion data extension) (hdelete : change ≠ .Delete)
    (hlive : (copy.id, .Delete) ∉ s.history) (hm : s.row copy.id = some m) :
    ¬ Stale s change copy m := by
  intro hstale
  refine hgood ?_
  simp only [Overwrites, hi]
  cases change with
  | AddVersion data extension => exact absurd rfl (hc data extension)
  | UpdateMetadata data => exact ⟨hlive, m, hm, hstale⟩
  | Delete => exact absurd rfl hdelete
  | Process => exact ⟨hlive, m, hm, hstale⟩

theorem logged_step {sha256_hex : Bytes → String} {settings : Settings} {s t : Transactions}
    {a : Action} (hs : Tied s) (hlogged : ∀ e ∈ s.history, ∃ m, s.row e.1 = some m)
    (h : Moved sha256_hex settings s a t) : ∀ e ∈ t.history, ∃ m, t.row e.1 = some m := by
  intro e he
  have hold : e ∈ s.history → ∃ m, t.row e.1 = some m := by
    intro he
    obtain ⟨m, hm⟩ := hlogged e he
    exact row_stays hs h hm
  cases row_moved hs h e.1 with
  | kept _ others hrow hhist hothers _ =>
    rw [hhist] at he
    rcases List.mem_append.mp he with he | he
    · exact hold he
    · exact absurd rfl (hothers e he)
  | inserted _ i document version db_now hi _ _ hrow => exact ⟨_, hrow⟩
  | updated i order now db_now job_id change document since m hi hc hd hm htenant hrow =>
    exact ⟨_, hrow⟩
  | added i order now db_now job_id data extension document version since m hi hk hd hm _ hrow =>
    exact ⟨_, hrow⟩

theorem history_grows {sha256_hex : Bytes → String} {settings : Settings} {s t : Transactions}
    {a : Action} (h : Moved sha256_hex settings s a t) :
    s.history.length ≤ t.history.length := by
  cases h with
  | updated i order now db_now job_id change document since hi hc => simp
  | added i order now db_now job_id data extension document version since hi hk => simp
  | _ => exact Nat.le_refl _

theorem windows_keeps {sha256_hex : Bytes → String} {settings : Settings} (s : Transactions)
    (a : Action) (t : Transactions) (hs : Windows sha256_hex s) (hgood : ¬ Overwrites s a)
    (ht : s.step sha256_hex settings a = some t) : Windows sha256_hex t := by
  have h := moved_of_step ht
  have htied := hs.sound.tied
  refine ⟨sound_keeps s a t hs.sound ht, logged_step htied hs.logged h, ?_, ?_, ?_, ?_⟩
  · intro j change copy since hj
    cases session_moved h hj with
    | kept _ hsj => exact (hs.since_le j change copy since hsj).trans (history_grows h)
    | opened _ _ tenant_id document_id hc hget hdb hhist => rw [hhist]
  · refine fresh_step title_field htied hs.since_le hs.title h ?_
    rintro i order now db_now job_id change copy since m rfl hi hc hdelete hlive hm hstale
    exact not_stale hgood hi hc hdelete hlive hm (Or.inl hstale)
  · refine fresh_step space_field htied hs.since_le hs.knowledge_space_id h ?_
    rintro i order now db_now job_id change copy since m rfl hi hc hdelete hlive hm hstale
    exact not_stale hgood hi hc hdelete hlive hm (Or.inr (Or.inl hstale))
  · refine fresh_step metadata_field htied hs.since_le hs.metadata h ?_
    rintro i order now db_now job_id change copy since m rfl hi hc hdelete hlive hm hstale
    exact not_stale hgood hi hc hdelete hlive hm (Or.inr (Or.inr (Or.inl hstale)))

/-! ## A commit of a copy that is not stale loses nothing -/

theorem newest_of_versions {s t : Transactions} {d : UUID} {pointer : Option UUID}
    (ht : t.db.versions = s.db.versions) (h : Newest s d pointer) : Newest t d pointer := by
  unfold Newest at *
  rw [ht]
  exact h

theorem mem_numbers {db : Database} {d : UUID} {w : KnowledgeDocumentVersionModel}
    (hw : w ∈ db.versions) (hd : w.document_id = d) : w.version_number ∈ numbers db d := by
  unfold numbers
  exact List.mem_map.mpr ⟨w, List.mem_filter.mpr ⟨hw, by simpa using hd⟩, rfl⟩

/-- A version that comes in last has the highest number of its document. -/
theorem newest_of_inserted {sha256_hex : Bytes → String} {s t : Transactions}
    (hs : Sound sha256_hex s) {i : Nat} {session : Session} {v : KnowledgeDocumentVersion}
    {db_now : DateTime} (hi : s.sessions i = some session) (hv : session.pending = some v)
    (hfree : (version_to_model db_now v).number_key ∉
      s.db.versions.map KnowledgeDocumentVersionModel.number_key)
    (ht : t.db.versions = s.db.versions ++ [version_to_model db_now v]) :
    Newest t v.document_id (some v.id) := by
  have hnext := next_of_pending hs.tied hs.numbering hi hv hfree
  refine ⟨version_to_model db_now v, by rw [ht]; simp, rfl, rfl, ?_⟩
  intro w hw hd
  change w.version_number ≤ v.version_number
  rw [ht, List.mem_append, List.mem_singleton] at hw
  rcases hw with hw | hw
  · have hmem := (hs.numbering.no_gap v.document_id).mem_iff.mp (mem_numbers hw hd)
    rw [List.mem_range'_1] at hmem
    omega
  · rw [hw]
    exact Nat.le_refl _

theorem field_kept_updated {β : Type} (f : Field β) {s t : Transactions} {d : UUID}
    {now db_now : DateTime} {change : Change} {document : KnowledgeDocument}
    {m : KnowledgeDocumentModel} (hkept : f.Kept s d m) (hnot : ¬ f.Stale change document m)
    (hdelete : change ≠ .Delete) (htenant : m.tenant_id = document.tenant_id)
    (hhist : t.history = s.history ++ [(d, change)]) :
    f.Kept t d
      (SqlAlchemyDocumentRepository.update_columns db_now (change.applied now document) m) := by
  intro v hv
  rw [hhist, last_set_snoc] at hv
  rw [updated_field f hdelete htenant]
  cases hsupplies : f.supplies change with
  | some w =>
    rw [hsupplies] at hv
    simpa using hv
  | none =>
    rw [hsupplies, Option.none_or] at hv
    rw [Option.getD_none, ← hkept v hv]
    by_contra hne
    exact hnot ⟨hsupplies, hne⟩

theorem field_kept_others {β : Type} (f : Field β) {s t : Transactions} {d : UUID}
    {m : KnowledgeDocumentModel} {others : List (UUID × Change)} (hkept : f.Kept s d m)
    (hhist : t.history = s.history ++ others) (hothers : ∀ e ∈ others, e.1 ≠ d) :
    f.Kept t d m := by
  intro v hv
  rw [hhist, last_set_append_others _ _ hothers] at hv
  exact hkept v hv

theorem field_kept_added {β : Type} (f : Field β) {s t : Transactions} {d : UUID}
    {db_now : DateTime} {document : KnowledgeDocument} {m : KnowledgeDocumentModel}
    {data : AddDocumentVersionInput} {extension : String} (hkept : f.Kept s d m)
    (hhist : t.history = s.history ++ [(d, .AddVersion data extension)]) :
    f.Kept t d (SqlAlchemyDocumentRepository.add_version_columns db_now document m) := by
  intro v hv
  rw [hhist, last_set_snoc] at hv
  rw [f.version_added]
  exact hkept v hv

/-- The owner of the version that an open transaction is about to insert. -/
theorem inserts_owner {s : Transactions} (hn : Numbering s) {i : Nat}
    {document : KnowledgeDocument} {version : KnowledgeDocumentVersion}
    (h : s.Inserts i document version) : version.document_id = document.id := by
  rcases h with hi | ⟨data, extension, since, hi⟩
  · exact (hn.uploads i document version hi).1
  · exact (hn.additions i data extension document version since hi).1

/-- The version of another document is none of this one's. -/
theorem newest_of_inserted_elsewhere {s t : Transactions} (hn : Numbering s) {d : UUID}
    {pointer : Option UUID} {i : Nat} {document : KnowledgeDocument}
    {version : KnowledgeDocumentVersion} {db_now : DateTime}
    (hins : s.Inserts i document version) (hne : document.id ≠ d)
    (ht : t.db.versions = s.db.versions ++ [version_to_model db_now version])
    (h : Newest s d pointer) : Newest t d pointer := by
  obtain ⟨v, hv, hpointer, hd, hmax⟩ := h
  refine ⟨v, by rw [ht]; exact List.mem_append_left _ hv, hpointer, hd, ?_⟩
  intro w hw hwd
  rw [ht, List.mem_append, List.mem_singleton] at hw
  rcases hw with hw | rfl
  · exact hmax w hw hwd
  · exact absurd ((inserts_owner hn hins).symm.trans hwd) hne

/-- Where no change of a document has committed, only its pointer can be wrong. -/
theorem kept_of_no_change {s : Transactions} {d : UUID} {m : KnowledgeDocumentModel}
    (hothers : ∀ e ∈ s.history, e.1 ≠ d) (hnewest : Newest s d m.current_version_id) :
    Kept s d m := by
  have hset : ∀ {γ : Type} (sets : Change → Option γ), last_set sets d s.history = none :=
    fun sets => last_set_others sets hothers
  refine ⟨?_, ?_, ?_, hnewest, ?_⟩
  · intro v hv
    rw [hset] at hv
    cases hv
  · intro v hv
    rw [hset] at hv
    cases hv
  · intro v hv
    rw [hset] at hv
    cases hv
  · intro hlast
    rw [hset] at hlast
    cases hlast

/-- A commit of a copy that is not stale keeps what the row holds. -/
theorem kept_of_updated {s t : Transactions} {d : UUID} {now db_now : DateTime}
    {change : Change} {document : KnowledgeDocument} {m : KnowledgeDocumentModel}
    (hk : Kept s d m) (hnot : ¬ Stale s change document m) (hd : document.id = d)
    (hc : ∀ data extension, change ≠ .AddVersion data extension) (hdelete : change ≠ .Delete)
    (htenant : m.tenant_id = document.tenant_id)
    (hhist : t.history = s.history ++ [(d, change)]) (ht : t.db.versions = s.db.versions) :
    Kept t d
      (SqlAlchemyDocumentRepository.update_columns db_now (change.applied now document) m) := by
  unfold Stale at hnot
  simp only [not_or] at hnot
  obtain ⟨htitle, hspace, hmetadata, hpointer, hstatus⟩ := hnot
  obtain ⟨u, hu⟩ := SqlAlchemyDocumentRepository.update_columns_eq db_now
    (htenant.trans (applied_tenant_id now change document).symm)
  refine ⟨field_kept_updated _ hk.title htitle hdelete htenant hhist,
    field_kept_updated _ hk.knowledge_space_id hspace hdelete htenant hhist,
    field_kept_updated _ hk.metadata hmetadata hdelete htenant hhist, ?_, ?_⟩ <;> rw [hu]
  · have hsame : (change.applied now document).current_version_id = m.current_version_id :=
      (applied_pointer now change document).trans (not_not.mp hpointer)
    exact newest_of_versions ht (hsame ▸ hk.newest)
  · intro hlast
    rw [hhist, last_set_snoc] at hlast
    cases change with
    | AddVersion data extension => exact absurd rfl (hc data extension)
    | UpdateMetadata data =>
      rw [sets_processed, Option.none_or] at hlast
      by_contra hne
      exact hstatus ⟨by simp, by rw [hd]; exact hlast, hne⟩
    | Delete => exact absurd rfl hdelete
    | Process => rfl

theorem nothing_lost_step {sha256_hex : Bytes → String} {settings : Settings}
    {s t : Transactions} {a : Action} (hs : Windows sha256_hex s) (hkept : NothingLost s)
    (hgood : ¬ Overwrites s a) (h : Moved sha256_hex settings s a t) : NothingLost t := by
  intro d m hm hlive
  have htied := hs.sound.tied
  have hn := hs.sound.numbering
  cases row_moved htied h d with
  | kept _ others hrow hhist hothers hversions =>
    have hk := hkept d m (hrow ▸ hm) (fun hd => hlive (by simp [hhist, hd]))
    refine ⟨field_kept_others _ hk.title hhist hothers,
      field_kept_others _ hk.knowledge_space_id hhist hothers,
      field_kept_others _ hk.metadata hhist hothers, ?_, ?_⟩
    · rcases hversions with ht | ⟨i, document, version, db_now, hins, hne, ht⟩
      · exact newest_of_versions ht hk.newest
      · exact newest_of_inserted_elsewhere hn hins hne ht hk.newest
    · intro hlast
      rw [hhist, last_set_append_others _ _ hothers] at hlast
      exact hk.processed hlast
  | inserted _ i document version db_now hi hfree hnone hrow hhist ht =>
    rw [hrow, Option.some.injEq] at hm
    subst hm
    have hd : document.id = d := (find_some _ hrow).2
    obtain ⟨howner, hpointer, _⟩ := hn.uploads i document version hi
    apply kept_of_no_change
    · -- no change of the document has committed before its row was there
      rw [hhist]
      rintro e he rfl
      obtain ⟨m, hm⟩ := hs.logged e he
      rw [hnone] at hm
      cases hm
    · have hnewest := newest_of_inserted hs.sound hi rfl hfree ht
      rw [howner, hd, ← hpointer] at hnewest
      exact hnewest
  | updated i order now db_now job_id change document since m0 hi hc hd hm0 htenant hrow hhist
      ht =>
    rw [hrow, Option.some.injEq] at hm
    subst hm
    have hdelete : change ≠ .Delete := by
      rintro rfl
      exact hlive (by simp [hhist])
    have hlive0 : (d, Change.Delete) ∉ s.history := fun hd => hlive (by simp [hhist, hd])
    have hnot := not_stale hgood hi hc hdelete (hd ▸ hlive0) (hd ▸ hm0)
    exact kept_of_updated (hkept d m0 hm0 hlive0) hnot hd hc hdelete htenant hhist ht
  | added i order now db_now job_id data extension document version since m0 hi hfree hd hm0 _ hrow
      hhist ht =>
    rw [hrow, Option.some.injEq] at hm
    subst hm
    obtain ⟨howner, hpointer, _⟩ := hn.additions i data extension document version since hi
    have hk := hkept d m0 hm0 (fun hd => hlive (by simp [hhist, hd]))
    refine ⟨field_kept_added _ hk.title hhist, field_kept_added _ hk.knowledge_space_id hhist,
      field_kept_added _ hk.metadata hhist, ?_, ?_⟩
    · obtain ⟨u, hu⟩ := SqlAlchemyDocumentRepository.add_version_columns_eq db_now document m0
      have hnewest := newest_of_inserted hs.sound hi rfl hfree ht
      rw [howner, hd, ← hpointer] at hnewest
      rw [hu]
      exact hnewest
    · intro hlast
      obtain ⟨u, hu⟩ := SqlAlchemyDocumentRepository.add_version_columns_eq db_now document m0
      rw [hhist, last_set_snoc, sets_processed, Option.none_or] at hlast
      rw [hu]
      by_contra hne
      refine hgood ?_
      simp only [Overwrites, hi]
      exact ⟨fun hdeleted => hlive (by simp [hhist, ← hd, hdeleted]), ⟨hd ▸ hlast, hne⟩, hfree⟩

/-! ## A commit of a stale copy loses something -/

theorem newest_unique {sha256_hex : Bytes → String} {s : Transactions} (hs : Sound sha256_hex s)
    {d : UUID} {p q : Option UUID} (hp : Newest s d p) (hq : Newest s d q) : p = q := by
  obtain ⟨v, hv, rfl, hvd, hvmax⟩ := hp
  obtain ⟨w, hw, rfl, hwd, hwmax⟩ := hq
  have hnumber : v.version_number = w.version_number :=
    Nat.le_antisymm (hwmax v hv hvd) (hvmax w hw hwd)
  have hnodup : (numbers s.db d).Nodup :=
    (hs.numbering.no_gap d).nodup_iff.mpr List.nodup_range'
  have heq : v = w := List.inj_on_of_nodup_map hnodup
    (List.mem_filter.mpr ⟨hv, by simpa using hvd⟩) (List.mem_filter.mpr ⟨hw, by simpa using hwd⟩)
    hnumber
  rw [heq]

/-- A stale field of a copy comes from a later commit, whose value is lost. -/
theorem stale_field_lost {β : Type} (f : Field β) {s t : Transactions} {i : Nat} {now : DateTime}
    {db_now : DateTime} {change : Change} {copy : KnowledgeDocument} {since : Nat}
    {m : KnowledgeDocumentModel} (hfresh : f.Fresh s)
    (hi : s.sessions i = some (.Opened change copy since))
    (hlive : (copy.id, .Delete) ∉ s.history) (hm : s.row copy.id = some m)
    (hkept : f.Kept s copy.id m) (hdelete : change ≠ .Delete)
    (htenant : m.tenant_id = copy.tenant_id)
    (hhist : t.history = s.history ++ [(copy.id, change)]) (hstale : f.Stale change copy m) :
    ¬ f.Kept t copy.id
      (SqlAlchemyDocumentRepository.update_columns db_now (change.applied now copy) m) := by
  intro hlost
  obtain ⟨hnone, hne⟩ := hstale
  cases hset : last_set f.supplies copy.id (s.history.drop since) with
  | none => exact hne (hfresh i change copy since hi hlive hset m hm)
  | some v =>
    have hold : last_set f.supplies copy.id s.history = some v := by
      rw [← List.take_append_drop since s.history, last_set_append, hset, Option.some_or]
    have hnew : last_set f.supplies copy.id t.history = some v := by
      rw [hhist, last_set_snoc, hnone, Option.none_or, hold]
    have hrow := hlost v hnew
    rw [updated_field f hdelete htenant, hnone, Option.getD_none] at hrow
    exact hne (hrow.trans (hkept v hold).symm)

theorem stale_breaks {sha256_hex : Bytes → String} {s : Transactions} {i : Nat}
    (now db_now : DateTime) {change : Change} {copy : KnowledgeDocument} {since : Nat}
    {m : KnowledgeDocumentModel} (hs : Windows sha256_hex s) (hkept : NothingLost s)
    (hi : s.sessions i = some (.Opened change copy since))
    (hc : ∀ data extension, change ≠ .AddVersion data extension) (hdelete : change ≠ .Delete)
    (hlive : (copy.id, .Delete) ∉ s.history) (hm : s.row copy.id = some m)
    (hstale : Stale s change copy m) :
    ¬ NothingLost { s.set i none with
      db := SqlAlchemyDocumentRepository.update s.db db_now (change.applied now copy)
      history := s.history ++ [(copy.id, change)] } := by
  intro hlost
  obtain ⟨m', hm', htenant⟩ := copy_row hs.sound.tied hi rfl
  obtain rfl : m' = m := Option.some.inj (hm'.symm.trans hm)
  have hk := hkept copy.id m' hm hlive
  have hrow := SqlAlchemyDocumentRepository.find_updated db_now
    (change.applied now copy) (by rw [applied_id]; exact hm)
  rw [applied_id] at hrow
  have hlost := hlost copy.id _ hrow (by simp [hlive, hdelete.symm])
  rcases hstale with hstale | hstale | hstale | hstale | ⟨hprocess, hlast, hstatus⟩
  · exact stale_field_lost title_field hs.title hi hlive hm hk.title hdelete htenant rfl hstale
      hlost.title
  · exact stale_field_lost space_field hs.knowledge_space_id hi hlive hm hk.knowledge_space_id
      hdelete htenant rfl hstale hlost.knowledge_space_id
  · exact stale_field_lost metadata_field hs.metadata hi hlive hm hk.metadata hdelete htenant rfl
      hstale hlost.metadata
  · obtain ⟨u, hu⟩ := SqlAlchemyDocumentRepository.update_columns_eq db_now
      (htenant.trans (applied_tenant_id now change copy).symm)
    have hnewest := hlost.newest
    rw [hu] at hnewest
    have hsame := newest_unique hs.sound (newest_of_versions rfl hnewest) hk.newest
    exact hstale ((applied_pointer now change copy).symm.trans hsame)
  · obtain ⟨u, hu⟩ := SqlAlchemyDocumentRepository.update_columns_eq db_now
      (htenant.trans (applied_tenant_id now change copy).symm)
    have hprocessed := hlost.processed
    rw [hu] at hprocessed
    cases change with
    | AddVersion data extension => exact absurd rfl (hc data extension)
    | UpdateMetadata data =>
      refine hstatus (hprocessed ?_)
      simp only [last_set_snoc, sets_processed, Option.none_or]
      exact hlast
    | Delete => exact absurd rfl hdelete
    | Process => exact absurd rfl hprocess

/-- A new version that writes back a status from before an ingestion run. -/
theorem stale_status_breaks {sha256_hex : Bytes → String} {s : Transactions} {i : Nat}
    (db_now : DateTime) {data : AddDocumentVersionInput} {extension : String}
    {copy : KnowledgeDocument} {version : KnowledgeDocumentVersion} {since : Nat}
    (hs : Windows sha256_hex s)
    (hi : s.sessions i = some (.Adding data extension copy version since))
    (hlive : (copy.id, .Delete) ∉ s.history) (hstale : StaleStatus s copy) :
    ¬ NothingLost { s.set i none with
      db := { s.db with
        versions := s.db.versions ++ [version_to_model db_now version]
        documents := modify KnowledgeDocumentModel.id copy.id
          (SqlAlchemyDocumentRepository.add_version_columns db_now copy) s.db.documents }
      history := s.history ++ [(copy.id, .AddVersion data extension)] } := by
  intro hlost
  obtain ⟨hlast, hstatus⟩ := hstale
  obtain ⟨m, hm, _⟩ := copy_row hs.sound.tied hi rfl
  have hrow := SqlAlchemyDocumentRepository.find_pointed db_now hm
  have hprocessed := (hlost copy.id _ hrow (by simp [hlive])).processed
  obtain ⟨u, hu⟩ := SqlAlchemyDocumentRepository.add_version_columns_eq db_now copy m
  rw [hu] at hprocessed
  refine hstatus (hprocessed ?_)
  simp only [last_set_snoc, sets_processed, Option.none_or]
  exact hlast

theorem overwrites_breaks {sha256_hex : Bytes → String} {settings : Settings}
    {s : Transactions} {a : Action} (hs : Windows sha256_hex s) (hkept : NothingLost s)
    (hbad : Overwrites s a) :
    ∃ t, s.step sha256_hex settings a = some t ∧ ¬ NothingLost t := by
  cases a with
  | Open i order request => exact absurd hbad (by simp [Overwrites])
  | Store i now document_id version_id => exact absurd hbad (by simp [Overwrites])
  | Abort i => exact absurd hbad (by simp [Overwrites])
  | Commit i order now db_now job_id =>
    simp only [Overwrites] at hbad
    split at hbad
    · rename_i data copy since hi
      obtain ⟨hlive, m, hm, hstale⟩ := hbad
      exact ⟨_, by simp only [Transactions.step, hi, Option.bind_some, Transactions.commit],
        stale_breaks now db_now hs hkept hi (by simp) (by simp) hlive hm hstale⟩
    · rename_i copy since hi
      obtain ⟨hlive, m, hm, hstale⟩ := hbad
      exact ⟨_, by simp only [Transactions.step, hi, Option.bind_some, Transactions.commit],
        stale_breaks now db_now hs hkept hi (by simp) (by simp) hlive hm hstale⟩
    · rename_i data extension copy version since hi
      obtain ⟨hlive, hstale, hfree⟩ := hbad
      refine ⟨_, ?_, stale_status_breaks db_now hs hi hlive hstale⟩
      simp only [Transactions.step, hi, Option.bind_some, Transactions.commit]
      rw [SqlAlchemyDocumentRepository.add_version_ok.mpr ⟨hfree, rfl⟩]
    · exact absurd hbad id

/-- No committed change is lost in a run exactly when no commit in it writes a
stale copy. -/
theorem a_change_is_lost_only_to_a_stale_copy (sha256_hex : Bytes → String) (settings : Settings)
    (as : List Action) :
    Throughout (Transactions.step sha256_hex settings) NothingLost {} as ↔
      Along (Transactions.step sha256_hex settings) (fun s a => ¬ Overwrites s a) {} as := by
  refine throughout_iff_along (I := Windows sha256_hex)
    (fun s a t hs _ => windows_keeps s a t hs) ?_ ?_ (windows_init sha256_hex) ?_ as
  · intro s a t hs hkept hgood ht
    exact nothing_lost_step hs hkept hgood (moved_of_step ht)
  · intro s a hs hkept hbad
    exact overwrites_breaks hs hkept (not_not.mp hbad)
  · intro d m hm
    cases hm

/-- A new title that is committed while an ingestion run holds its copy. -/
def title_during_ingestion : List Action :=
  one_upload ++
    [.Open 1 (fun _ => 0) (.Process "acme" ⟨1⟩),
      .Open 2 (fun _ => 0)
        (.UpdateMetadata { tenant_id := "acme", document_id := ⟨1⟩, title := some "Plan" }),
      .Commit 2 (fun _ => 0) noon noon ⟨4⟩,
      .Commit 1 (fun _ => 0) noon noon ⟨5⟩]

theorem an_ingestion_run_undoes_a_new_title :
    ¬ Throughout (Transactions.step pdf_sha256 {}) NothingLost {} title_during_ingestion := by
  intro h
  have hrun : (run (Transactions.step pdf_sha256 {}) {} title_during_ingestion).map (fun s =>
      (s.history, (s.row ⟨1⟩).map (fun m => m.title))) =
      some ([(⟨1⟩, .UpdateMetadata {
        tenant_id := "acme", document_id := ⟨1⟩, title := some "Plan" }), (⟨1⟩, .Process)],
        some "plan.pdf") := by
    decide +kernel
  obtain ⟨s, hs, heq⟩ := Option.map_eq_some_iff.mp hrun
  simp only [Prod.mk.injEq] at heq
  obtain ⟨m, hm, htitle⟩ := Option.map_eq_some_iff.mp heq.2
  have hkept := h title_during_ingestion [] s (List.append_nil _).symm hs ⟨1⟩ m hm
    (by rw [heq.1]; decide)
  have hplan := hkept.title "Plan" (by rw [heq.1]; rfl)
  rw [show title_field.row m = m.title from rfl, htitle] at hplan
  exact absurd hplan (by decide)

end cortex_rag.lost_updates
