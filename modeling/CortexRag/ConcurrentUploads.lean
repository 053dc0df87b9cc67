-- The law of content under overlapping uploads. The search for a duplicate
-- and the insert are two steps, and no index of the tables refuses a second
-- document with the same content.
import CortexRag.DocumentTransactions

open keyed_rows labelled_runs

namespace cortex_rag.concurrent_uploads

open document_transactions SqlAlchemyDocumentRepository

/-- The live documents of the tenant with a version of the checksum. -/
def live_copies (db : Database) (tenant_id checksum_sha256 : String) :
    List KnowledgeDocumentModel :=
  db.documents.filter (fun m => m ∈ checksum_rows db tenant_id checksum_sha256)

/-- A tenant has at most one live document of each content. Each upload has
left its three rows, a document, a version and a job, or none of them. -/
structure ContentOnce (db : Database) : Prop where
  one_live : ∀ tenant_id checksum_sha256, (live_copies db tenant_id checksum_sha256).length ≤ 1
  versions : db.versions.map (fun v => v.document_id) = db.documents.map (fun m => m.id)
  jobs : db.jobs.map (fun j => j.document_id) = db.documents.map (fun m => m.id)

def Action.of_upload : Action → Bool
  | .Open _ _ (.Upload _) => true
  | .Open _ _ _ => false
  | _ => true

/-- A step of uploads alone. -/
def upload_step (sha256_hex : Bytes → String) (settings : Settings) (s : Transactions)
    (a : Action) : Option Transactions :=
  if Action.of_upload a then s.step sha256_hex settings a else none

/-- The commit of an upload, while a live document of its tenant with its
content has been committed by now: its check would fail by now. -/
def Late (s : Transactions) : Action → Prop
  | .Commit i _ _ _ job_id =>
    match s.sessions i with
    | some (.Stored document version) =>
      job_id ∉ s.issued ∧
        checksum_rows s.db document.tenant_id version.checksum_sha256 ≠ []
    | _ => False
  | _ => False

/-! ## The open uploads -/

def Session.uploads : Session → Prop
  | .Checked _ _ => True
  | .Stored document version => version.document_id = document.id ∧ document.deleted_at = none
  | _ => False

/-- Every open transaction is an upload. -/
def Uploading (s : Transactions) : Prop :=
  ∀ i session, s.sessions i = some session → Session.uploads session

/-- What a step of an upload does: it leaves the tables as they are, or inserts
the rows of the upload that it commits. -/
inductive UploadMoved (settings : Settings) (s t : Transactions) : Action → Prop where
  | kept (a : Action) : t.db = s.db → UploadMoved settings s t a
  | inserted (i : Nat) (order : RowOrder) (now db_now : DateTime) (job_id : UUID)
      (document : KnowledgeDocument) (version : KnowledgeDocumentVersion) :
    s.sessions i = some (.Stored document version) → job_id ∉ s.issued →
    t.db = UploadDocumentUseCase.inserted settings.processing s.db now db_now document version
      job_id →
    UploadMoved settings s t (.Commit i order now db_now job_id)

theorem upload_moved {sha256_hex : Bytes → String} {settings : Settings} {s t : Transactions}
    {a : Action} (hs : Uploading s) (h : upload_step sha256_hex settings s a = some t) :
    UploadMoved settings s t a := by
  obtain ⟨_, h⟩ := Option.ite_none_right_eq_some.mp h
  cases a with
  | Commit i order now db_now job_id =>
    simp only [Transactions.step, Option.bind_eq_some_iff] at h
    obtain ⟨session, hi, h⟩ := h
    cases session with
    | Checked data extension => cases h
    | Stored document version =>
      simp only [Transactions.commit] at h
      split at h
      · cases h
      · rename_i hfresh
        split at h
        · cases h
          exact .kept _ rfl
        · rename_i db hdb
          cases h
          obtain ⟨_, _, hdb⟩ := UploadDocumentUseCase.insert_iff.mp hdb
          exact .inserted i order now db_now job_id document version hi hfresh hdb
    | _ => exact absurd (hs i _ hi) (by simp [Session.uploads])
  | Store i now document_id version_id =>
    cases moved_of_step h <;> exact .kept _ rfl
  | Open i order request =>
    cases moved_of_step h <;> exact .kept _ rfl
  | Abort i =>
    cases moved_of_step h
    exact .kept _ rfl

/-- A new phase of one upload leaves the others as they are. -/
theorem uploading_of_set {s t : Transactions} {i : Nat} {session : Option Session}
    (hs : Uploading s) (ht : t.sessions = (s.set i session).sessions)
    (hsession : ∀ x, session = some x → Session.uploads x) : Uploading t := by
  intro j x hj
  rw [ht, set_sessions] at hj
  split at hj
  · exact hsession x hj
  · exact hs j x hj

theorem uploading_step {sha256_hex : Bytes → String} {settings : Settings} {s t : Transactions}
    {a : Action} (hs : Uploading s) (h : upload_step sha256_hex settings s a = some t) :
    Uploading t := by
  obtain ⟨hof, h⟩ := Option.ite_none_right_eq_some.mp h
  cases a with
  | Open i order request =>
    cases request with
    | Upload data =>
      simp only [Transactions.step, Request.opened, Except.map] at h
      split at h
      · cases h
      · split at h
        · cases h
          exact hs
        · rename_i session hsession
          cases h
          split at hsession
          · cases hsession
          · cases hsession
            apply uploading_of_set (i := i) hs rfl
            intro x hx
            cases hx
            trivial
    | _ => cases hof
  | Store i now document_id version_id =>
    have hmoved := moved_of_step h
    cases hmoved with
    | stored _ _ _ _ data extension version document hi hd hv hne hve hde =>
      apply uploading_of_set (i := i) hs rfl
      intro x hx
      cases hx
      subst hde hve
      exact ⟨rfl, rfl⟩
    | adding _ _ _ _ data extension document since version hi hv hve =>
      exact absurd (hs i _ hi) (by simp [Session.uploads])
  | Commit i order now db_now job_id =>
    have hmoved := moved_of_step h
    cases hmoved <;> exact uploading_of_set (i := i) hs rfl (by simp)
  | Abort i =>
    cases moved_of_step h
    exact uploading_of_set (i := i) hs rfl (by simp)

/-! ## The law -/

/-- A row of the join after an upload: an old one, or the one of the upload. -/
theorem checksum_rows_inserted {settings : ProcessingSettings} {db : Database}
    {now db_now : DateTime} {document : KnowledgeDocument} {version : KnowledgeDocumentVersion}
    {job_id : UUID} (hnew : ∀ m ∈ db.documents, m.id ≠ document.id)
    (howned : ∀ v ∈ db.versions, v.document_id ≠ document.id)
    (hversion : version.document_id = document.id) {tenant_id checksum_sha256 : String}
    {m : KnowledgeDocumentModel}
    (hm : m ∈ checksum_rows (UploadDocumentUseCase.inserted settings db now db_now document version
      job_id) tenant_id checksum_sha256) :
    m ∈ checksum_rows db tenant_id checksum_sha256 ∨
      (m = doc_to_model db_now document ∧ document.tenant_id = tenant_id ∧
        version.checksum_sha256 = checksum_sha256) := by
  obtain ⟨hm, htenant, hlive, v, hv, hvm, hsum⟩ := mem_checksum_rows.mp hm
  simp only [UploadDocumentUseCase.inserted, List.mem_append, List.mem_singleton] at hm hv
  rcases hm with hm | rfl
  · rcases hv with hv | rfl
    · exact Or.inl (mem_checksum_rows.mpr ⟨hm, htenant, hlive, v, hv, hvm, hsum⟩)
    · exact absurd (hvm.symm.trans hversion) (hnew m hm)
  · rcases hv with hv | rfl
    · exact absurd hvm (howned v hv)
    · exact Or.inr ⟨rfl, htenant, hsum⟩

/-- The versions and the jobs belong to documents, and a new upload has none. -/
theorem fresh_of_content_once {db : Database} (h : ContentOnce db) {d : UUID}
    (hnew : ∀ m ∈ db.documents, m.id ≠ d) :
    (∀ v ∈ db.versions, v.document_id ≠ d) ∧ ∀ j ∈ db.jobs, j.document_id ≠ d := by
  constructor
  · intro v hv heq
    have hin : d ∈ db.documents.map (fun m => m.id) := by
      rw [← h.versions]
      exact List.mem_map.mpr ⟨v, hv, heq⟩
    obtain ⟨m, hm, hid⟩ := List.mem_map.mp hin
    exact hnew m hm hid
  · intro j hj heq
    have hin : d ∈ db.documents.map (fun m => m.id) := by
      rw [← h.jobs]
      exact List.mem_map.mpr ⟨j, hj, heq⟩
    obtain ⟨m, hm, hid⟩ := List.mem_map.mp hin
    exact hnew m hm hid

theorem one_live_iff {db : Database} (hk : Keyed KnowledgeDocumentModel.id db.documents)
    {tenant_id checksum_sha256 : String} :
    (live_copies db tenant_id checksum_sha256).length ≤ 1 ↔
      ∀ a ∈ checksum_rows db tenant_id checksum_sha256,
        ∀ b ∈ checksum_rows db tenant_id checksum_sha256, a.id = b.id := by
  unfold live_copies
  rw [length_filter_le_one _ hk]
  simp only [decide_eq_true_eq]
  constructor
  · intro h a ha b hb
    exact h a (mem_checksum_rows.mp ha).1 b (mem_checksum_rows.mp hb).1 ha hb
  · intro h a _ b _ ha hb
    exact h a ha b hb

theorem content_once_step {sha256_hex : Bytes → String} {settings : Settings}
    {s t : Transactions} {a : Action} (htied : Tied s) (hup : Uploading s)
    (hs : ContentOnce s.db) (hgood : ¬ Late s a)
    (h : upload_step sha256_hex settings s a = some t) : ContentOnce t.db := by
  have htied' := tied_keeps s a t htied (Option.ite_none_right_eq_some.mp h).2
  cases upload_moved hup h with
  | kept _ ht =>
    rw [ht]
    exact hs
  | inserted i order now db_now job_id document version hi hfresh ht =>
    have hnew := htied.stored_new i document version hi
    have hversion := (hup i _ hi).1
    obtain ⟨howned, _⟩ := fresh_of_content_once hs hnew
    simp only [Late, hi, not_and, not_not] at hgood
    refine ⟨?_, ?_, ?_⟩
    · intro tenant_id checksum_sha256
      rw [one_live_iff htied'.documents_keyed]
      intro a ha b hb
      rw [ht] at ha hb
      rcases checksum_rows_inserted hnew howned hversion ha with ha | ⟨rfl, rfl, rfl⟩
      · rcases checksum_rows_inserted hnew howned hversion hb with hb | ⟨rfl, rfl, rfl⟩
        · exact (one_live_iff htied.documents_keyed).mp (hs.one_live _ _) a ha b hb
        · rw [hgood hfresh] at ha
          cases ha
      · rcases checksum_rows_inserted hnew howned hversion hb with hb | ⟨rfl, _, _⟩
        · rw [hgood hfresh] at hb
          cases hb
        · rfl
    · rw [ht]
      simp [UploadDocumentUseCase.inserted, hs.versions, version_to_model, doc_to_model, hversion]
    · rw [ht]
      simp [UploadDocumentUseCase.inserted, SqlAlchemyProcessingJobRepository.add, hs.jobs,
        doc_to_model, to_model, CreateProcessingJobUseCase.new_job, UploadDocumentUseCase.job_input]

/-- A late commit is not refused, and gives a second live document. -/
theorem late_breaks {sha256_hex : Bytes → String} {settings : Settings} {s : Transactions}
    {a : Action} (htied : Tied s) (hup : Uploading s) (hs : ContentOnce s.db) (hbad : Late s a) :
    ∃ t, upload_step sha256_hex settings s a = some t ∧ ¬ ContentOnce t.db := by
  cases a with
  | Commit i order now db_now job_id =>
    simp only [Late] at hbad
    split at hbad
    · rename_i document version hi
      obtain ⟨hfresh, hrows⟩ := hbad
      have hnew := htied.stored_new i document version hi
      obtain ⟨hversion, hlive⟩ := hup i _ hi
      obtain ⟨howned, hjobs⟩ := fresh_of_content_once hs hnew
      -- neither the index of the version numbers nor the check of the job refuses it
      have hinsert : UploadDocumentUseCase.insert settings.processing order s.db now db_now document
          version job_id = .ok (UploadDocumentUseCase.inserted settings.processing s.db now db_now
            document version job_id) := by
        refine UploadDocumentUseCase.insert_iff.mpr ⟨?_, ?_, rfl⟩
        · intro hkey
          obtain ⟨v, hv, hkey⟩ := List.mem_map.mp hkey
          exact howned v hv ((congrArg Prod.fst hkey).trans hversion)
        · exact CreateProcessingJobUseCase.check_of_no_job hjobs
      have hstep : s.step sha256_hex settings (.Commit i order now db_now job_id) =
          some { s.set i none with
            db := UploadDocumentUseCase.inserted settings.processing s.db now db_now document
              version job_id
            issued := job_id :: s.issued } := by
        simp only [Transactions.step, hi, Option.bind_some, Transactions.commit, if_neg hfresh,
          hinsert]
      refine ⟨_, hstep, ?_⟩
      intro honce
      have htied' := tied_keeps s _ _ htied hstep
      obtain ⟨m, rows, hrow⟩ := List.exists_cons_of_ne_nil hrows
      have hm : m ∈ checksum_rows s.db document.tenant_id version.checksum_sha256 := by
        rw [hrow]
        exact List.mem_cons_self
      obtain ⟨hmem, htenant, hmlive, v, hv, hvm, hsum⟩ := mem_checksum_rows.mp hm
      apply hnew m hmem
      apply (one_live_iff htied'.documents_keyed).mp (honce.one_live document.tenant_id
        version.checksum_sha256) m ?_ (doc_to_model db_now document) ?_
      · exact mem_checksum_rows.mpr ⟨List.mem_append_left _ hmem, htenant, hmlive, v,
          List.mem_append_left _ hv, hvm, hsum⟩
      · exact mem_checksum_rows.mpr ⟨List.mem_append_right _ List.mem_cons_self, rfl, hlive,
          version_to_model db_now version, List.mem_append_right _ List.mem_cons_self, hversion,
          rfl⟩
    · exact absurd hbad id
  | _ => exact absurd hbad (by simp [Late])

/-- Uploads that overlap keep each content once exactly when none of them
commits after another upload of its content. -/
theorem uploads_keep_content_once_unless_late (sha256_hex : Bytes → String) (settings : Settings)
    (as : List Action) :
    Throughout (upload_step sha256_hex settings) (fun s => ContentOnce s.db) {} as ↔
      Along (upload_step sha256_hex settings) (fun s a => ¬ Late s a) {} as := by
  refine throughout_iff_along (I := fun s => Tied s ∧ Uploading s) ?_ ?_ ?_
    ⟨tied_init, by simp [Uploading]⟩ ?_ as
  · rintro s a t ⟨htied, hup⟩ _ _ ht
    exact ⟨tied_keeps s a t htied (Option.ite_none_right_eq_some.mp ht).2, uploading_step hup ht⟩
  · rintro s a t ⟨htied, hup⟩ hs hgood ht
    exact content_once_step htied hup hs hgood ht
  · rintro s a ⟨htied, hup⟩ hs hbad
    exact late_breaks htied hup hs (not_not.mp hbad)
  · constructor <;> simp [live_copies]

/-- Two uploads of the bytes `%PDF`, both checked before either commits. -/
def two_uploads : List Action :=
  let data : UploadDocumentInput := {
    tenant_id := "acme", original_filename := "plan.pdf", content := [37, 80, 68, 70],
    content_type := "application/pdf" }
  [.Open 0 (fun _ => 0) (.Upload data), .Open 1 (fun _ => 0) (.Upload data),
    .Store 0 noon ⟨1⟩ ⟨2⟩, .Store 1 noon ⟨4⟩ ⟨5⟩,
    .Commit 0 (fun _ => 0) noon noon ⟨3⟩, .Commit 1 (fun _ => 0) noon noon ⟨6⟩]

theorem two_uploads_give_the_content_twice :
    ¬ Throughout (upload_step pdf_sha256 {}) (fun s => ContentOnce s.db) {} two_uploads := by
  intro h
  have hrun : (run (upload_step pdf_sha256 {}) {} two_uploads).map (fun s =>
      (live_copies s.db "acme" (pdf_sha256 [37, 80, 68, 70])).length) = some 2 := by
    decide +kernel
  obtain ⟨s, hs, heq⟩ := Option.map_eq_some_iff.mp hrun
  have hone := (h two_uploads [] s (List.append_nil _).symm hs).one_live "acme"
    (pdf_sha256 [37, 80, 68, 70])
  omega

end cortex_rag.concurrent_uploads
