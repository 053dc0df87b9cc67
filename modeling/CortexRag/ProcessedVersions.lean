-- The laws of what PROCESSED and COMPLETED mean for a version. The pipeline
-- reads the version that the document points to, and no status follows the
-- pointer when a new version moves it.
import CortexRag.CompletedRuns

open keyed_rows labelled_runs

namespace cortex_rag.processed_versions

open service

variable {P : Providers} {settings : Settings} {w w' : World} {r : Request}

/-! ## The status of a document -/

/-- The world, and the version that the last run on each document that ended
well has read. -/
structure Traced where
  world : World := {}
  last_read : UUID → Option UUID := fun _ => none

/-- The readings after a step. -/
def read_by (P : Providers) (settings : Settings) (s : Traced) (r : Request) (d : UUID) :
    Option UUID :=
  match processed_document P settings s.world r with
  | none => s.last_read d
  | some (tenant_id, document_id) =>
    if document_id = d then version_read s.world.db tenant_id d else s.last_read d

def Traced.step (P : Providers) (settings : Settings) (s : Traced) (r : Request) :
    Option Traced :=
  match s.world.step P settings r with
  | none => none
  | some world => some { world, last_read := read_by P settings s r }

/-- The active version of a live PROCESSED document is the one that the last run
on it has read. -/
def DescribesActive (s : Traced) : Prop :=
  ∀ m ∈ s.world.db.documents, m.deleted_at = none → m.status = .Processed →
    ∃ v, m.current_version_id = some v ∧ s.last_read m.id = some v

/-- A new version of a PROCESSED document is accepted. -/
def Outdates (settings : Settings) (w : World) (r : Request) : Prop :=
  ∃ data, r.operation = .AddVersion data ∧ duplicates.Accepted settings w r data ∧
    ∃ m ∈ w.db.documents, m.id = data.document_id ∧ m.status = .Processed

theorem traced_step {s t : Traced} (h : s.step P settings r = some t) :
    s.world.step P settings r = some t.world ∧ t.last_read = read_by P settings s r := by
  unfold Traced.step at h
  split at h
  · cases h
  · rename_i world hw
    cases h
    exact ⟨hw, rfl⟩

theorem step_traced {s : Traced} (h : s.world.step P settings r = some w') :
    s.step P settings r = some { world := w', last_read := read_by P settings s r } := by
  unfold Traced.step
  rw [h]

theorem read_by_other {s : Traced} {d : UUID}
    (h : ∀ tenant_id, processed_document P settings s.world r ≠ some (tenant_id, d)) :
    read_by P settings s r d = s.last_read d := by
  unfold read_by
  split
  · rfl
  · rename_i tenant_id document_id hp
    apply if_neg
    rintro rfl
    exact h tenant_id hp

theorem describes_active_step {s t : Traced} (h : Sound P s.world) (hd : DescribesActive s)
    (hr : ¬ Outdates settings s.world r) (ht : s.step P settings r = some t) :
    DescribesActive t := by
  obtain ⟨hw, hread⟩ := traced_step ht
  intro m' hm' hlive hprocessed
  rw [hread]
  cases document_after h hw hm' hlive with
  | kept m hm hlive0 hid hstatus hpointer hno =>
    rw [read_by_other hno, hid, hpointer]
    exact hd m hm hlive0 (hstatus.symm.trans hprocessed)
  | uploaded data _ _ hstatus _ =>
    rw [hstatus] at hprocessed
    cases hprocessed
  | pointed data m hop haccepted hm _ hown _ hstatus _ =>
    exact absurd ⟨data, hop, haccepted, m, hm, hown, hstatus.symm.trans hprocessed⟩ hr
  | processed m hm _ hid _ hpointer hp hversion =>
    obtain ⟨v, _, hcurrent, _⟩ := h.rows.pointed m hm
    refine ⟨v.id, hpointer.trans hcurrent, ?_⟩
    unfold read_by
    simp only [hp, hid, if_true, hversion, hcurrent]

/-- The new pointer names a version that no run has read. -/
theorem outdates_breaks {s : Traced} (h : Sound P s.world) (hd : DescribesActive s)
    (hr : Outdates settings s.world r) :
    ∃ t, s.step P settings r = some t ∧ ¬ DescribesActive t := by
  obtain ⟨data, hop, haccepted, m, hm, hown, hprocessed⟩ := hr
  have hw : s.world.step P settings r = some (s.world.perform P settings r).2 :=
    if_pos haccepted.1
  refine ⟨_, step_traced hw, ?_⟩
  intro hd'
  rcases duplicates.add_version_step hop hw with
    ⟨document, extension, _, hcheck, hdb⟩ | ⟨hnot, _⟩
  · obtain ⟨row, hrow, hrowid, _, hlive, rfl⟩ :=
      SqlAlchemyDocumentRepository.get_row (AddDocumentVersionUseCase.check_ok hcheck).2
    obtain rfl := eq_of_key _ h.rows.documents hrow hm (hrowid.trans hown.symm)
    obtain ⟨u, hu⟩ := SqlAlchemyDocumentRepository.add_version_columns_eq r.moment.db_now
      (AddDocumentVersionUseCase.pointed (doc_to_entity row
        (SqlAlchemyDocumentRepository.load_version s.world.db row.current_version_id))
        r.moment.ids.version) row
    have hmem : { row with current_version_id := some r.moment.ids.version, updated_at := u } ∈
        (s.world.perform P settings r).2.db.documents := by
      rw [hdb]
      exact (mem_modify _).mpr ⟨row, hm, (if_pos rfl).trans hu⟩
    obtain ⟨v, hv, hlast⟩ := hd' _ hmem hlive hprocessed
    obtain rfl := Option.some.inj hv
    obtain ⟨v0, hv0, hlast0⟩ := hd row hm hlive hprocessed
    -- the step is not a run, so the last reading is the one before it
    have hsame : read_by P settings s r row.id = s.last_read row.id := by
      have hother : processed_document P settings s.world r = none :=
        processed_document_of_other (by simp [hop]) (by simp [hop])
      apply read_by_other
      simp [hother]
    obtain ⟨version, hversion, hcurrent, _⟩ := h.rows.pointed row hm
    have hold : version.id = r.moment.ids.version := by
      rw [← Option.some_inj, ← hcurrent, hv0, ← hlast0, ← hsame]
      exact hlast
    have hissued := h.rows.version_ids version hversion
    obtain ⟨_, hnew, _⟩ := moved_of_step hw
    exact hnew r.moment.ids.version (by simp [FreshIds.all]) (hold ▸ hissued)
  · exact hnot haccepted

/-- A live PROCESSED document shows the version that its last run has read, in
every state of a run of the service, exactly when no step of the run gives a
PROCESSED document a new version. -/
theorem processed_describes_the_active_version_unless_outdated (rs : List Request) :
    Throughout (Traced.step P settings) DescribesActive {} rs ↔
      Along (Traced.step P settings) (fun s r => ¬ Outdates settings s.world r) {} rs := by
  refine throughout_iff_along (I := fun s => Sound P s.world) ?_ ?_ ?_ (sound_init P) ?_ rs
  · intro s r t h _ _ ht
    exact sound_keeps h (traced_step ht).1
  · intro s r t h hd hr ht
    exact describes_active_step h hd hr ht
  · intro s r h hd hr
    exact outdates_breaks h hd (not_not.mp hr)
  · simp [DescribesActive]

/-- An upload, its ingestion, and a new version. -/
def versioned : List Request :=
  [plain.request 0 (plain.upload [65]),
    plain.request 1 (.Handle ⟨"acme", (plain.ids 0).job⟩),
    plain.request 2 (plain.add_version (plain.ids 0).document [66])]

theorem a_new_version_is_shown_as_processed :
    ¬ Throughout (Traced.step plain.providers {}) DescribesActive {} versioned := by
  intro h
  have hrun : (run (Traced.step plain.providers {}) {} versioned).map (fun s =>
      s.world.db.documents.map (fun m =>
        (m.deleted_at, m.status, m.current_version_id, s.last_read m.id))) =
      some [(none, .Processed, some (plain.ids 2).version, some (plain.ids 0).version)] := by
    decide +kernel
  obtain ⟨s, hs, hrows⟩ := Option.map_eq_some_iff.mp hrun
  obtain ⟨m, rest, hdocuments, hm, _⟩ := List.map_eq_cons_iff.mp hrows
  simp only [Prod.mk.injEq] at hm
  obtain ⟨hlive, hprocessed, hcurrent, hlast⟩ := hm
  obtain ⟨v, hv, hread⟩ := h versioned [] s (List.append_nil _).symm hs m
    (by rw [hdocuments]; exact List.mem_cons_self) hlive hprocessed
  rw [hcurrent] at hv
  rw [hlast, ← hv] at hread
  exact absurd hread (by decide)

/-! ## The newest version -/

/-- A live document points to its version with the highest number. -/
def PointsToNewest (db : Database) : Prop :=
  ∀ m ∈ db.documents, m.deleted_at = none →
    ∃ p ∈ db.versions, m.current_version_id = some p.id ∧ p.document_id = m.id ∧
      ∀ v ∈ db.versions, v.document_id = m.id → v.version_number ≤ p.version_number

/-- A row that keeps its pointer, and gets no version in the step, still points
to its newest. -/
theorem newest_of_kept (h : Sound P w) (hn : PointsToNewest w.db)
    (hw : w.step P settings r = some w') {m m' : KnowledgeDocumentModel} (hm : m ∈ w.db.documents)
    (hlive : m.deleted_at = none) (hid : m'.id = m.id)
    (hpointer : m'.current_version_id = m.current_version_id)
    (hno : ∀ data, r.operation = .AddVersion data → duplicates.Accepted settings w r data →
      m'.id ≠ data.document_id) :
    ∃ p ∈ w'.db.versions, m'.current_version_id = some p.id ∧ p.document_id = m'.id ∧
      ∀ v ∈ w'.db.versions, v.document_id = m'.id → v.version_number ≤ p.version_number := by
  obtain ⟨_, hnew, _⟩ := moved_of_step hw
  have hdocument : r.moment.ids.document ∉ w.issued := hnew _ (by simp [FreshIds.all])
  obtain ⟨p, hp, hcurrent, howner, hle⟩ := hn m hm hlive
  refine ⟨p, version_stays hw hp, hpointer.trans hcurrent, howner.trans hid.symm, ?_⟩
  intro v hv hvowner
  rcases version_after hw hv with hv | hbrought
  · exact hle v hv (hvowner.trans hid)
  · cases hbrought with
    | uploaded data _ _ hown =>
      have hissued := h.rows.document_ids m hm
      exact absurd (hown ▸ hvowner ▸ hid ▸ hissued) hdocument
    | added data hop haccepted _ hown _ =>
      exact absurd (hvowner.symm.trans hown) (hno data hop haccepted)

/-- The only version of a document that the step has uploaded. -/
theorem newest_of_uploaded (h : Sound P w) (hw : w.step P settings r = some w')
    {data : UploadDocumentInput} (hop : r.operation = .Upload data)
    {p v : KnowledgeDocumentVersionModel} (hp : p ∈ w'.db.versions) (hv : v ∈ w'.db.versions)
    (hpid : p.id = r.moment.ids.version) (howner : v.document_id = r.moment.ids.document) :
    v = p := by
  have h' : Sound P w' := sound_keeps h hw
  obtain ⟨_, hnew, _⟩ := moved_of_step hw
  have hdocument : r.moment.ids.document ∉ w.issued := hnew _ (by simp [FreshIds.all])
  rcases version_after hw hv with hv0 | hbrought
  · obtain ⟨m, hm, hmid⟩ := List.mem_map.mp (h.rows.owned v hv0)
    exact absurd (howner ▸ hmid ▸ h.rows.document_ids m hm) hdocument
  · cases hbrought with
    | uploaded _ _ hvid _ => exact eq_of_key _ h'.rows.versions hv hp (hvid.trans hpid.symm)
    | added _ hop' _ _ _ _ =>
      rw [hop] at hop'
      cases hop'

/-- The version that the step has added is the newest of its document. -/
theorem newest_of_added (h : Sound P w) (hw : w.step P settings r = some w')
    {data : AddDocumentVersionInput} (hop : r.operation = .AddVersion data)
    {p v : KnowledgeDocumentVersionModel} (hp : p ∈ w'.db.versions) (hv : v ∈ w'.db.versions)
    (hpid : p.id = r.moment.ids.version) (howner : v.document_id = p.document_id) :
    v.version_number ≤ p.version_number := by
  have h' : Sound P w' := sound_keeps h hw
  obtain ⟨_, hnew, _⟩ := moved_of_step hw
  have hversion : r.moment.ids.version ∉ w.issued := hnew _ (by simp [FreshIds.all])
  rcases version_after hw hp with hold | hbrought
  · exact absurd (hpid ▸ h.rows.version_ids p hold) hversion
  · cases hbrought with
    | uploaded _ hop' _ _ =>
      rw [hop] at hop'
      cases hop'
    | added data' hop' _ _ hpowner hnumber =>
      rcases version_after hw hv with hv0 | hbrought
      · have := AddDocumentVersionUseCase.lt_next_number hv0 (howner.trans hpowner)
        omega
      · cases hbrought with
        | uploaded _ hop'' _ _ =>
          rw [hop] at hop''
          cases hop''
        | added _ _ _ hvid _ _ =>
          rw [eq_of_key _ h'.rows.versions hv hp (hvid.trans hpid.symm)]

theorem points_to_newest_step (h : Sound P w) (hn : PointsToNewest w.db)
    (hw : w.step P settings r = some w') : PointsToNewest w'.db := by
  have h' : Sound P w' := sound_keeps h hw
  intro m' hm' hlive
  cases document_after h hw hm' hlive with
  | kept m hm hlive0 hid _ hpointer _ hno =>
    exact newest_of_kept h hn hw hm hlive0 hid hpointer hno
  | processed m hm hlive0 hid _ hpointer hp _ =>
    apply newest_of_kept h hn hw hm hlive0 hid hpointer
    intro data hop
    rw [processed_document_of_other (by simp [hop]) (by simp [hop])] at hp
    cases hp
  | uploaded data hop hid _ hcurrent =>
    obtain ⟨p, hp, hpointer, howner⟩ := h'.rows.pointed m' hm'
    have hpid : p.id = r.moment.ids.version := Option.some.inj (hpointer.symm.trans hcurrent)
    refine ⟨p, hp, hpointer, howner, ?_⟩
    intro v hv hvowner
    rw [newest_of_uploaded h hw hop hp hv hpid (hvowner.trans hid)]
  | pointed data m hop _ hm _ hown hid _ hcurrent =>
    obtain ⟨p, hp, hpointer, howner⟩ := h'.rows.pointed m' hm'
    have hpid : p.id = r.moment.ids.version := Option.some.inj (hpointer.symm.trans hcurrent)
    refine ⟨p, hp, hpointer, howner, ?_⟩
    intro v hv hvowner
    exact newest_of_added h hw hop hp hv hpid (hvowner.trans howner.symm)

/-- The version that a run reads is the first that `list_versions` returns. -/
theorem newest_of_active (h : RowsSound w.db w.issued) (hn : PointsToNewest w.db)
    {tenant_id : String} {d : UUID} {document : KnowledgeDocument}
    {version : KnowledgeDocumentVersion}
    (hget : SqlAlchemyDocumentRepository.get w.db tenant_id d = some document)
    (hactive : document.active_version = some version) :
    (SqlAlchemyDocumentRepository.list_versions w.db d).head? = some version := by
  obtain ⟨m, hm, rfl, _, hlive, rfl⟩ := SqlAlchemyDocumentRepository.get_row hget
  obtain ⟨p, hp, hcurrent, howner, hle⟩ := hn m hm hlive
  have hversion : version = version_to_entity p := by
    simp only [doc_to_entity, SqlAlchemyDocumentRepository.load_version, hcurrent,
      find_of_mem _ h.versions hp, Option.map_some, Option.some.injEq] at hactive
    exact hactive.symm
  have hhead : ((w.db.versions.filter (fun v => v.document_id = m.id)).insertionSort
      (fun a b => b.version_number ≤ a.version_number)).head? = some p := by
    apply head_sorted
    · exact List.mem_filter.mpr ⟨hp, by simp [howner]⟩
    · intro v hv hfirst
      obtain ⟨hv, hvowner⟩ := List.mem_filter.mp hv
      rw [decide_eq_true_eq] at hvowner
      apply eq_of_key _ h.numbers hv hp
      have hnumber : v.version_number = p.version_number := by
        have := hle v hv hvowner
        omega
      simp [KnowledgeDocumentVersionModel.number_key, hnumber, hvowner, howner]
  unfold SqlAlchemyDocumentRepository.list_versions
  rw [List.head?_map, hhead, hversion]
  rfl

/-! ## The version of a job -/

/-- The bytes that are stored for the version. -/
def bytes_of (w : World) (version_id : UUID) : Option Bytes :=
  (find KnowledgeDocumentVersionModel.id version_id w.db.versions).bind
    (fun v => w.blobs v.storage_path)

/-- The step from `w` to `w'` has parsed these bytes for the document, and has
stored their chunks in the index. -/
def IndexedBytes (P : Providers) (w w' : World) (tenant_id : String) (document_id : UUID)
    (content : Bytes) : Prop :=
  ∃ document version parsed,
    SqlAlchemyDocumentRepository.get w.db tenant_id document_id = some document ∧
      document.active_version = some version ∧ w.blobs version.storage_path = some content ∧
      P.parse content version.mime_type = .ok parsed ∧
      Indexed P tenant_id document_id (RecursiveChunkingStrategy.split P parsed.text {}) w.points
        w'.points

/-- The step brings an ingestion job of the version to COMPLETED. -/
structure Completes (w w' : World) (j : ProcessingJobModel) (version_id : UUID) : Prop where
  stored : j ∈ w'.db.jobs
  completed : j.status = .Completed
  opened : ∀ j0 ∈ w.db.jobs, j0.id = j.id → j0.status ≠ .Completed
  job_type : j.job_type = .DocumentIngestion
  version_id : j.version_id = some version_id

/-- A job that the step completes has had the bytes of its version indexed. -/
def IndexesItsVersion (P : Providers) (settings : Settings) (w : World) (r : Request) : Prop :=
  ∀ w' j version_id, w.step P settings r = some w' → Completes w w' j version_id →
    ∃ content, bytes_of w version_id = some content ∧
      IndexedBytes P w w' j.tenant_id j.document_id content

/-- The job that the request brings to COMPLETED is for the bytes of the newest
version of its document. -/
def ForNewest (P : Providers) (w : World) (r : Request) : Prop :=
  ∀ j version_id, Completing P w r j → j.version_id = some version_id →
    ∃ newest, (SqlAlchemyDocumentRepository.list_versions w.db j.document_id).head? = some newest ∧
      w.blobs newest.storage_path = bytes_of w version_id

/-- A job is completed by an ingestion run on its document, for which it has
waited. -/
theorem ingested_of_completes (h : Sound P w) (hw : w.step P settings r = some w')
    {j : ProcessingJobModel} {version_id : UUID} (hc : Completes w w' j version_id) :
    ∃ j0, Completing P w r j0 ∧ j.origin = j0.origin ∧
      ∃ document, Ingested P w j.tenant_id j.document_id document w'.points := by
  cases job_after h hw hc.stored with
  | kept hj => exact absurd hc.completed (hc.opened j hj rfl)
  | created data _ hcreated =>
    have hqueued := hcreated.status
    rw [hc.completed] at hqueued
    cases hqueued
  | unfinished j0 _ _ hnot => exact absurd hc.completed hnot
  | completed message j0 hop hcompleted hj0 horigin _ =>
    obtain ⟨j1, hsame, hwaits⟩ := completing_of_completed h hw hop hcompleted
    obtain rfl : j0 = j1 :=
      eq_of_key _ h.rows.jobs hj0 hwaits.stored (congrArg ProcessingJob.id hsame)
    refine ⟨j0, hwaits, horigin, ?_⟩
    cases handled_of_step hop hw with
    | unfinished hnone _ _ _ =>
      rw [hnone] at hcompleted
      cases hcompleted
    | finished job last document hsome _ _ _ _ hi _ _ =>
      rw [hcompleted] at hsome
      cases hsome
      have htenant : j.tenant_id = j0.tenant_id := congrArg (fun o => o.2.2.1) horigin
      have hdocument : j.document_id = j0.document_id := congrArg (fun o => o.2.1) horigin
      rw [htenant, hdocument]
      exact ⟨document, hi⟩

/-- A job that waits for the request is completed by it. -/
theorem completes_of_completing (h : Sound P w) (settings : Settings) {j : ProcessingJobModel}
    {version_id : UUID} (hj : Completing P w r j) (hversion : j.version_id = some version_id) :
    ∃ w' j', w.step P settings r = some w' ∧ j'.origin = j.origin ∧
      Completes w w' j' version_id := by
  obtain ⟨w', j', hw, hj', horigin, hcompleted⟩ := completed_of_completing settings h hj
  refine ⟨w', j', hw, horigin, hj', hcompleted, ?_, ?_, ?_⟩
  · intro j0 hj0 hid
    rw [eq_of_key _ h.rows.jobs hj0 hj.stored (hid.trans (congrArg Prod.fst horigin)), hj.queued]
    decide
  · exact (congrArg (fun o => o.2.2.2.1) horigin).trans hj.job_type
  · exact (congrArg (fun o => o.2.2.2.2) horigin).trans hversion

theorem indexes_its_version_iff (h : Sound P w) (hn : PointsToNewest w.db) :
    IndexesItsVersion P settings w r ↔ ForNewest P w r := by
  constructor
  · intro hi j version_id hj hversion
    obtain ⟨w', j', hw, horigin, hc⟩ := completes_of_completing h settings hj hversion
    obtain ⟨content, hbytes, document, version, _, hget, hactive, hblob, _, _⟩ :=
      hi w' j' version_id hw hc
    have hdocument : j'.document_id = j.document_id := congrArg (fun o => o.2.1) horigin
    rw [hdocument] at hget
    exact ⟨version, newest_of_active h.rows hn hget hactive, hblob.trans hbytes.symm⟩
  · intro hi w' j version_id hw hc
    obtain ⟨j0, hwaits, horigin, document, hrun⟩ := ingested_of_completes h hw hc
    have hversion : j0.version_id = some version_id :=
      (congrArg (fun o => o.2.2.2.2) horigin).symm.trans hc.version_id
    obtain ⟨newest, hnewest, hblob⟩ := hi j0 version_id hwaits hversion
    have hdocument : j.document_id = j0.document_id := congrArg (fun o => o.2.1) horigin
    rw [← hdocument] at hnewest
    obtain ⟨version, content, parsed, hactive, hcontent, hparsed, hindexed⟩ := hrun.indexed
    have hsame : newest = version :=
      Option.some.inj (hnewest.symm.trans (newest_of_active h.rows hn hrun.got hactive))
    rw [(document_id_of_get hrun.got).2.1] at hindexed
    refine ⟨content, ?_, document, version, parsed, hrun.got, hactive, hcontent, hparsed, hindexed⟩
    rw [← hblob, hsame, hcontent]

/-- Every completed job of a run has had the bytes of its version indexed exactly
when every job that a request brings to its end is for the newest bytes of its
document. -/
theorem completed_jobs_indexed_their_version_unless_it_was_replaced (rs : List Request) :
    Along (World.step P settings) (IndexesItsVersion P settings) {} rs ↔
      Along (World.step P settings) (ForNewest P) {} rs := by
  refine along_congr (I := fun w => Sound P w ∧ PointsToNewest w.db) ?_ ?_
    ⟨sound_init P, by simp [PointsToNewest]⟩ rs
  · rintro w r w' ⟨h, hn⟩ hw
    exact ⟨sound_keeps h hw, points_to_newest_step h hn hw⟩
  · rintro w r ⟨h, hn⟩
    exact indexes_its_version_iff h hn

/-- An upload, and a new version before the worker comes to its job. -/
def replaced : List Request :=
  [plain.request 0 (plain.upload [65]),
    plain.request 1 (plain.add_version (plain.ids 0).document [66])]

/-- The ingestion of the upload. -/
def late_ingestion : Request := plain.request 2 (.Handle ⟨"acme", (plain.ids 0).job⟩)

theorem a_job_completes_with_the_bytes_of_a_later_version :
    ¬ Along (World.step plain.providers {}) (IndexesItsVersion plain.providers {}) {}
      (replaced ++ [late_ingestion]) := by
  intro h
  have hrun : (run (World.step plain.providers {}) {} replaced).bind (fun w =>
      (w.step plain.providers {} late_ingestion).map (fun w' => decide (
        (∃ j ∈ w'.db.jobs, j.tenant_id = "acme" ∧ j.document_id = (plain.ids 0).document ∧
          j.status = .Completed ∧ j.job_type = .DocumentIngestion ∧
          j.version_id = some (plain.ids 0).version) ∧
        (∀ j ∈ w.db.jobs, j.status ≠ .Completed) ∧
        bytes_of w (plain.ids 0).version = some [65] ∧
        ((SqlAlchemyDocumentRepository.get w.db "acme" (plain.ids 0).document).bind
          (fun document => document.active_version)).bind
            (fun version => w.blobs version.storage_path) = some [66]))) = some true := by
    decide +kernel
  obtain ⟨w, hw, hstep⟩ := Option.bind_eq_some_iff.mp hrun
  obtain ⟨w', hw', heq⟩ := Option.map_eq_some_iff.mp hstep
  obtain ⟨⟨j, hj, htenant, hdocument, hcompleted, htype, hversion⟩, hopened, hown, hread⟩ :=
    of_decide_eq_true heq
  have hc : Completes w w' j (plain.ids 0).version :=
    ⟨hj, hcompleted, fun j0 hj0 _ => hopened j0 hj0, htype, hversion⟩
  obtain ⟨content, hbytes, document, version, _, hget, hactive, hblob, _⟩ :=
    along_iff.mp h replaced late_ingestion [] w rfl hw w' j _ hw' hc
  rw [htenant, hdocument] at hget
  rw [hget, Option.bind_some, hactive, Option.bind_some, hblob, ← hbytes, hown] at hread
  cases hread

end cortex_rag.processed_versions
