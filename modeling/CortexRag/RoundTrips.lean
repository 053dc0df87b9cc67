-- The law of the migrations to head and back: every column of a base row comes back,
-- its metadata as an equal JSON value, and after any run of the application every
-- document comes back with the file of its current version, where each metadata has
-- a binary form.
import CortexRag.Downgrades
import CortexRag.MigratedReads
import CortexRag.MigratedRuns

open keyed_rows json_values labelled_runs related_lists

namespace cortex_rag.migrations

variable {gen_random_uuid : UUID → UUID} {lower : String → String}
  {numeric : String → Option String}

/-! ## The upgrades -/

/-- The rows that the upgrades give, where they succeed. -/
theorem upgrade_to_head_ok {db : BaseDatabase} {head : HeadDatabase}
    (hnew : (db.documents.map (fun d => gen_random_uuid d.id)).Nodup) :
    upgrade_to_head gen_random_uuid lower numeric db = .ok head ↔
      (List.Forall₂ (fun d row => ∃ value, to_jsonb numeric d.metadata = some value ∧
        row = migrated_row gen_random_uuid lower d value)
        db.documents head.tables.documents ∧
      head.tables.versions = db.documents.map (b7f2c9a4d1e8.version_row gen_random_uuid)) ∧
      head.jobs = db.jobs.map d4e8f1a29b30.upgrade_row := by
  rw [← upgraded_eq db.keyed hnew]
  constructor
  · intro h
    obtain ⟨tables, htables, hhead⟩ := bind_eq_ok.mp h
    cases hhead
    exact ⟨htables, rfl⟩
  · rintro ⟨htables, hjobs⟩
    refine bind_eq_ok.mpr ⟨head.tables, htables, ?_⟩
    rw [← hjobs]
    rfl

/-! ## The downgrade -/

/-- The row of a document after the downgrades, from its metadata in binary form. -/
def downgraded_row (versions : List KnowledgeDocumentVersionRow) (m : KnowledgeDocumentRow)
    (metadata : Json) : DowngradedDocument :=
  b7f2c9a4d1e8.downgrade_row versions { m with
    metadata := (c3d9e1f42a76.custom_properties metadata).getD (.object [])
    source_type := "file_upload" }

theorem unwrapped_eq {m m' : KnowledgeDocumentRow} :
    c3d9e1f42a76.unwrapped numeric m = .ok m' ↔
      ∃ metadata, to_jsonb numeric m.metadata = some metadata ∧ m' = { m with
        metadata := (c3d9e1f42a76.custom_properties metadata).getD (.object [])
        source_type := "file_upload" } := by
  unfold c3d9e1f42a76.unwrapped
  rcases to_jsonb numeric m.metadata with _ | metadata
  · simp
  · simp [eq_comm]

/-- What the downgrades give, where they succeed. -/
theorem downgrade_ok {db : HeadDatabase} {back : DowngradedDatabase}
    (h : downgrade_to_base numeric db = .ok back) :
    List.Forall₂ (fun m row => ∃ metadata, to_jsonb numeric m.metadata = some metadata ∧
        row = downgraded_row db.tables.versions m metadata) db.tables.documents back.documents ∧
      back.jobs = db.jobs.map d4e8f1a29b30.downgrade_row := by
  obtain ⟨tables, htables, hback⟩ := bind_eq_ok.mp h
  obtain ⟨rows, hrows, htables'⟩ := bind_eq_ok.mp htables
  cases hback
  cases htables'
  refine ⟨?_, rfl⟩
  rw [b7f2c9a4d1e8.downgrade, List.forall₂_map_right_iff]
  refine List.Forall₂.imp ?_ (mapM_eq_ok.mp hrows)
  intro m m' hm
  obtain ⟨metadata, hmetadata, rfl⟩ := unwrapped_eq.mp hm
  exact ⟨metadata, hmetadata, rfl⟩

/-- The downgrades succeed exactly where the metadata of each row has a binary form. -/
theorem downgrade_succeeds {db : HeadDatabase} :
    (∃ back, downgrade_to_base numeric db = .ok back) ↔
      ∀ m ∈ db.tables.documents, Storable numeric m.metadata := by
  constructor
  · rintro ⟨back, hback⟩ m hm
    obtain ⟨row, metadata, hmetadata, _⟩ := exists_forall₂.mp ⟨_, (downgrade_ok hback).1⟩ m hm
    exact (storable_iff _).mpr ⟨metadata, hmetadata⟩
  · intro h
    have hrows : ∃ rows, db.tables.documents.mapM (c3d9e1f42a76.unwrapped numeric) = .ok rows := by
      refine mapM_ok_of_forall ?_
      intro m hm
      obtain ⟨metadata, hmetadata⟩ := (storable_iff _).mp (h m hm)
      exact ⟨_, unwrapped_eq.mpr ⟨metadata, hmetadata, rfl⟩⟩
    obtain ⟨rows, hrows⟩ := hrows
    unfold downgrade_to_base c3d9e1f42a76.downgrade
    rw [hrows]
    exact ⟨_, rfl⟩

/-- The join finds the version that a pointer designates. -/
theorem find_current {versions : List KnowledgeDocumentVersionRow} {v : KnowledgeDocumentVersionRow}
    (hk : Keyed KnowledgeDocumentVersionRow.id versions) (hv : v ∈ versions)
    (pointer : Option UUID) (hpointer : pointer = some v.id) :
    versions.find? (fun w => pointer = some w.id) = some v := by
  have hsame : (fun w : KnowledgeDocumentVersionRow => decide (pointer = some w.id)) =
      fun w => decide (w.id = v.id) := by
    subst hpointer
    funext w
    exact decide_eq_decide.mpr (Option.some_inj.trans eq_comm)
  rw [hsame]
  exact find_of_mem _ hk hv

/-- What was wrapped is found again. -/
theorem custom_properties_typed (value : Json) :
    c3d9e1f42a76.custom_properties (c3d9e1f42a76.typed_metadata value) = some value := by
  unfold c3d9e1f42a76.custom_properties c3d9e1f42a76.typed_metadata
  simp only
  rw [lookup_of_perm (keyed_skeleton value) (sorted_perm _)]
  rfl

/-- The new metadata is in binary form. -/
theorem typed_metadata_binary (hexact : Exact numeric) {value value' : Json}
    (h : to_jsonb numeric value = some value') :
    to_jsonb numeric (c3d9e1f42a76.typed_metadata value') =
      some (c3d9e1f42a76.typed_metadata value') := by
  have hvalue := to_jsonb_again hexact h
  have hfields : fields_to_jsonb numeric (c3d9e1f42a76.skeleton value') =
      some (c3d9e1f42a76.skeleton value') := by
    have hnames : ∀ name ∈ (c3d9e1f42a76.skeleton value').map Prod.fst, refused name = false := by
      simp only [c3d9e1f42a76.skeleton, List.map_cons, List.map_nil]
      decide
    rw [fields_to_jsonb_eq, List.forall₂_same]
    intro field hfield
    refine ⟨rfl, hnames _ (List.mem_map_of_mem hfield), ?_⟩
    simp only [c3d9e1f42a76.skeleton, List.mem_cons, List.not_mem_nil, or_false] at hfield
    rcases hfield with rfl | rfl | rfl | rfl | rfl | rfl | rfl | rfl | rfl | rfl | rfl | rfl | rfl
    all_goals first
      | exact hvalue
      | rfl
  have hskeleton : to_jsonb numeric (.object (c3d9e1f42a76.skeleton value')) =
      some (c3d9e1f42a76.typed_metadata value') := by
    simp only [to_jsonb, hfields, Option.map_some, merged_eq (keyed_skeleton value')]
    rfl
  exact to_jsonb_again hexact hskeleton

/-! ## The round trip -/

/-- The row of a base document, in columns that may be null. -/
def restored (d : BaseDocument) (metadata : Json) : DowngradedDocument where
  id := d.id
  tenant_id := d.tenant_id
  collection_id := d.collection_id
  original_filename := some d.original_filename
  filename := some d.filename
  extension := some d.extension
  mime_type := some d.mime_type
  size := some d.size
  checksum_sha256 := some d.checksum_sha256
  storage_provider := some d.storage_provider
  storage_path := some d.storage_path
  uploaded_by := d.uploaded_by
  status := d.status
  metadata := metadata
  page_count := d.page_count
  deleted_at := d.deleted_at
  created_at := d.created_at
  updated_at := d.updated_at

/-- The database goes to head and back. Each document has its values again, with
equal metadata, and each job has its own but the payload. -/
def RoundTrips (gen_random_uuid : UUID → UUID) (lower : String → String)
    (numeric : String → Option String) (db : BaseDatabase) : Prop :=
  ∃ head back, upgrade_to_head gen_random_uuid lower numeric db = .ok head ∧
    downgrade_to_base numeric head = .ok back ∧
    List.Forall₂ (fun d row => ∃ metadata, SameJson d.metadata metadata ∧
      row = restored d metadata) db.documents back.documents ∧
    List.Forall₂ (fun j row => ∃ payload, row = { j with payload }) db.jobs back.jobs

/-- The row of an upgraded document is the one before the upgrade. -/
theorem downgraded_migrated_row {documents : List BaseDocument} {d : BaseDocument}
    (hnew : (documents.map (fun d => gen_random_uuid d.id)).Nodup) (hd : d ∈ documents)
    (value : Json) :
    downgraded_row (documents.map (b7f2c9a4d1e8.version_row gen_random_uuid))
      (migrated_row gen_random_uuid lower d value) (c3d9e1f42a76.typed_metadata value) =
        restored d value := by
  have hfind := find_current (keyed_version_ids hnew) (List.mem_map_of_mem hd)
    (migrated_row gen_random_uuid lower d value).current_version_id rfl
  unfold downgraded_row b7f2c9a4d1e8.downgrade_row
  simp only [hfind, custom_properties_typed]
  rfl

/-- A database makes the round trip exactly where the metadata of each document has a
binary form. -/
theorem round_trips_iff (hexact : Exact numeric) {db : BaseDatabase}
    (hnew : (db.documents.map (fun d => gen_random_uuid d.id)).Nodup) :
    RoundTrips gen_random_uuid lower numeric db ↔
      ∀ d ∈ db.documents, Storable numeric d.metadata := by
  constructor
  · rintro ⟨head, _, hhead, _⟩ d hd
    obtain ⟨⟨hrows, _⟩, _⟩ := (upgrade_to_head_ok hnew).mp hhead
    obtain ⟨row, value, hvalue, _⟩ := exists_forall₂.mp ⟨_, hrows⟩ d hd
    exact (storable_iff _).mpr ⟨value, hvalue⟩
  · intro h
    have hrows : ∃ rows, List.Forall₂ (fun d row => ∃ value,
        to_jsonb numeric d.metadata = some value ∧
          row = migrated_row gen_random_uuid lower d value) db.documents rows := by
      refine exists_forall₂.mpr ?_
      intro d hd
      obtain ⟨value, hvalue⟩ := (storable_iff _).mp (h d hd)
      exact ⟨_, value, hvalue, rfl⟩
    obtain ⟨rows, hrows⟩ := hrows
    let head : HeadDatabase := {
      tables := {
        documents := rows
        versions := db.documents.map (b7f2c9a4d1e8.version_row gen_random_uuid) }
      jobs := db.jobs.map d4e8f1a29b30.upgrade_row }
    have hhead : upgrade_to_head gen_random_uuid lower numeric db = .ok head :=
      (upgrade_to_head_ok hnew).mpr ⟨⟨hrows, rfl⟩, rfl⟩
    have hback : ∃ back, downgrade_to_base numeric head = .ok back := by
      refine downgrade_succeeds.mpr ?_
      intro m hm
      obtain ⟨d, _, value, hvalue, rfl⟩ := exists_of_mem_right hrows hm
      exact (storable_iff _).mpr ⟨_, typed_metadata_binary hexact hvalue⟩
    obtain ⟨back, hback⟩ := hback
    obtain ⟨hdocuments, hjobs⟩ := downgrade_ok hback
    refine ⟨head, back, hhead, hback, ?_, ?_⟩
    · refine forall₂_imp_mem (forall₂_comp hrows hdocuments) ?_
      rintro d hd row ⟨_, ⟨value, hvalue, rfl⟩, metadata, hmetadata, rfl⟩
      have hbinary : to_jsonb numeric (migrated_row gen_random_uuid lower d value).metadata =
          some (c3d9e1f42a76.typed_metadata value) := typed_metadata_binary hexact hvalue
      obtain rfl := Option.some.inj (hbinary.symm.trans hmetadata)
      exact ⟨value, same_to_jsonb hexact hvalue, downgraded_migrated_row hnew hd value⟩
    · rw [hjobs, List.map_map, List.forall₂_map_right_iff, List.forall₂_same]
      exact fun j _ => ⟨.object [], rfl⟩

/-! ## After a run of the application -/

/-- The columns of a file, as they are when one may be null. -/
def DowngradedDocument.mandatory (row : DowngradedDocument) : Bool :=
  row.original_filename.isSome && row.filename.isSome && row.extension.isSome &&
    row.mime_type.isSome && row.size.isSome && row.checksum_sha256.isSome &&
    row.storage_provider.isSome && row.storage_path.isSome

/-- The row holds the file and the uploader of the version, and the collection of the
document. -/
structure HoldsFile (m : KnowledgeDocumentRow) (v : KnowledgeDocumentVersionRow)
    (row : DowngradedDocument) : Prop where
  id : row.id = m.id
  tenant_id : row.tenant_id = m.tenant_id
  collection_id : row.collection_id = m.knowledge_space_id
  original_filename : row.original_filename = some v.original_filename
  filename : row.filename = some v.filename
  extension : row.extension = some v.extension
  mime_type : row.mime_type = some v.mime_type
  size : row.size = some v.size
  checksum_sha256 : row.checksum_sha256 = some v.checksum_sha256
  storage_provider : row.storage_provider = some v.storage_provider
  storage_path : row.storage_path = some v.storage_path
  uploaded_by : row.uploaded_by = v.uploaded_by
  page_count : row.page_count = v.page_count
  mandatory : row.mandatory = true

/-- The downgrades succeed, and each document has the file of its current version. -/
def RestoresFiles (numeric : String → Option String) (db : HeadDatabase) : Prop :=
  ∃ back, downgrade_to_base numeric db = .ok back ∧
    List.Forall₂ (fun m row => ∃ v ∈ db.tables.versions, m.current_version_id = some v.id ∧
      v.document_id = m.id ∧ HoldsFile m v row) db.tables.documents back.documents

theorem holds_file {versions : List KnowledgeDocumentVersionRow} {m : KnowledgeDocumentRow}
    {v : KnowledgeDocumentVersionRow} (hk : Keyed KnowledgeDocumentVersionRow.id versions)
    (hv : v ∈ versions) (hpointer : m.current_version_id = some v.id) (metadata : Json) :
    HoldsFile m v (downgraded_row versions m metadata) := by
  have hfind := find_current hk hv m.current_version_id hpointer
  unfold downgraded_row b7f2c9a4d1e8.downgrade_row
  simp only [hfind]
  exact ⟨rfl, rfl, rfl, rfl, rfl, rfl, rfl, rfl, rfl, rfl, rfl, rfl, rfl, rfl⟩

theorem restores_files_iff {db : HeadDatabase}
    (hk : Keyed KnowledgeDocumentVersionRow.id db.tables.versions)
    (hrows : ∀ m ∈ db.tables.documents, Points db.tables m.id m.current_version_id) :
    RestoresFiles numeric db ↔ ∀ m ∈ db.tables.documents, Storable numeric m.metadata := by
  rw [← downgrade_succeeds]
  constructor
  · rintro ⟨back, hback, _⟩
    exact ⟨back, hback⟩
  · rintro ⟨back, hback⟩
    refine ⟨back, hback, forall₂_imp_mem (downgrade_ok hback).1 ?_⟩
    rintro m hm row ⟨metadata, _, rfl⟩
    obtain ⟨v, hv, hpointer, hdocument⟩ := hrows m hm
    exact ⟨v, hv, hpointer, hdocument, holds_file hk hv hpointer metadata⟩

/-- The tables at head, with no call under way. -/
def HeadDatabase.application (head : HeadDatabase) : Application where
  tables := head.tables
  copies := fun _ => none

theorem pointed_after_upgrade {db : BaseDatabase} {head : HeadDatabase}
    (hnew : (db.documents.map (fun d => gen_random_uuid d.id)).Nodup)
    (h : upgrade_to_head gen_random_uuid lower numeric db = .ok head) :
    Pointed head.application := by
  obtain ⟨⟨hrows, hversions⟩, _⟩ := (upgrade_to_head_ok hnew).mp h
  refine ⟨?_, ?_, ?_⟩
  · rw [HeadDatabase.application, hversions]
    exact keyed_version_ids hnew
  · intro m hm
    obtain ⟨d, hd, value, _, rfl⟩ := exists_of_mem_right hrows hm
    exact ⟨_, hversions ▸ List.mem_map_of_mem hd, rfl, rfl⟩
  · intro call document hcopy
    cases hcopy

/-- The upgrades leave metadata in binary form. -/
theorem storable_after_upgrade (hexact : Exact numeric) {db : BaseDatabase} {head : HeadDatabase}
    (hnew : (db.documents.map (fun d => gen_random_uuid d.id)).Nodup)
    (h : upgrade_to_head gen_random_uuid lower numeric db = .ok head) :
    ∀ m ∈ head.tables.documents, Storable numeric m.metadata := by
  obtain ⟨⟨hrows, _⟩, _⟩ := (upgrade_to_head_ok hnew).mp h
  intro m hm
  obtain ⟨d, _, value, hvalue, rfl⟩ := exists_of_mem_right hrows hm
  exact (storable_iff _).mpr ⟨_, typed_metadata_binary hexact hvalue⟩

section Runs

variable {read_datetime : Json → Option DateTime} {dump_datetime : DateTime → Json}

/-- The metadata that a step writes has a binary form. -/
def WritesStorable (numeric : String → Option String) (dump_datetime : DateTime → Json)
    (s : Application) (action : Action) : Prop :=
  ∀ metadata, action.written dump_datetime s = some metadata → Storable numeric metadata

theorem storable_of_effect {s s' : Application} {action : Action}
    (hrows : ∀ m ∈ s.tables.documents, Storable numeric m.metadata)
    (hwrites : WritesStorable numeric dump_datetime s action)
    (h : Effect read_datetime dump_datetime s action s') :
    ∀ m ∈ s'.tables.documents, Storable numeric m.metadata := by
  intro m hm
  cases h with
  | read _ => exact hrows m hm
  | uploaded _ _ _ _ =>
    rcases List.mem_append.mp hm with hm | hm
    · exact hrows m hm
    · obtain rfl := List.mem_singleton.mp hm
      exact hwrites _ rfl
  | added _ _ _ =>
    obtain ⟨r, hr, rfl⟩ := (mem_modify _).mp hm
    split
    · exact hrows r hr
    · exact hrows r hr
  | written _ _ _ hwritten =>
    obtain ⟨r, hr, rfl⟩ := (mem_modify _).mp hm
    split
    · unfold SqlAlchemyDocumentRepository.update_columns
      split
      · exact hrows r hr
      · exact hwrites _ hwritten
    · exact hrows r hr

end Runs

/-! ## The law -/

/-- A database makes the round trip exactly where each metadata has a binary form.
After any run of the application the downgrades give every document its file exactly
where each metadata has one, and so after any run that writes no other metadata. -/
theorem migrations_round_trip (gen_random_uuid : UUID → UUID) (lower : String → String)
    (hexact : Exact numeric) (read_datetime : Json → Option DateTime)
    (dump_datetime : DateTime → Json) (db : BaseDatabase)
    (hnew : (db.documents.map (fun d => gen_random_uuid d.id)).Nodup) :
    (RoundTrips gen_random_uuid lower numeric db ↔
      ∀ d ∈ db.documents, Storable numeric d.metadata) ∧
    ∀ head, upgrade_to_head gen_random_uuid lower numeric db = .ok head →
      (∀ s, Reachable (Application.step read_datetime dump_datetime) head.application s →
        ∀ jobs, RestoresFiles numeric { tables := s.tables, jobs } ↔
          ∀ m ∈ s.tables.documents, Storable numeric m.metadata) ∧
      ∀ actions, Along (Application.step read_datetime dump_datetime)
          (WritesStorable numeric dump_datetime) head.application actions →
        Throughout (Application.step read_datetime dump_datetime)
          (fun s => ∀ jobs, RestoresFiles numeric { tables := s.tables, jobs })
          head.application actions := by
  refine ⟨round_trips_iff hexact hnew, ?_⟩
  intro head hhead
  have hpointed := pointed_after_upgrade hnew hhead
  have hrestores : ∀ s, Pointed s → ∀ jobs, RestoresFiles numeric { tables := s.tables, jobs } ↔
      ∀ m ∈ s.tables.documents, Storable numeric m.metadata :=
    fun s hs jobs => restores_files_iff hs.keyed hs.rows
  refine ⟨?_, ?_⟩
  · rintro s ⟨actions, hrun⟩
    exact hrestores s (pointed_of_run hpointed hrun)
  · intro actions halong
    have hstorable := storable_after_upgrade hexact hnew hhead
    refine throughout_of_along (I := Pointed) ?_ ?_ hpointed
      (fun jobs => (hrestores _ hpointed jobs).mpr hstorable) halong
    · intro s action s' hs _ _ hstep
      exact pointed_of_effect hs (effect_of_step hstep)
    · intro s action s' hs hgood hwrites hstep jobs
      have heffect := effect_of_step hstep
      exact (hrestores s' (pointed_of_effect hs heffect) jobs).mpr
        (storable_of_effect ((hrestores s hs jobs).mp (hgood jobs)) hwrites heffect)

/-- A database of one document, with the metadata of one field, and one job. -/
def base_database (value : Json) : BaseDatabase where
  documents := [(legacy_document value).toBaseDocument]
  jobs := [{
    id := ⟨1⟩
    document_id := ⟨0⟩
    tenant_id := "acme"
    job_type := "ocr"
    status := "failed"
    attempts := 2
    error := some "timeout"
    payload := .object [("page", .number "1")]
    created_at := noon
    updated_at := noon }]
  keyed := by
    unfold Keyed
    simp

/-- A second file of the document. -/
def second_version : KnowledgeDocumentVersion where
  id := ⟨2⟩
  document_id := ⟨0⟩
  version_number := 2
  original_filename := "notes-2.pdf"
  filename := "notes-2.pdf"
  extension := "pdf"
  mime_type := "application/pdf"
  size := 2
  checksum_sha256 := "B"
  storage_provider := .Local
  storage_path := "acme/notes-2.pdf"
  page_count := none
  metadata := []
  uploaded_by := some "ana"
  created_at := noon

theorem exact_some : Exact some where
  same := by
    intro s t h
    exact Or.inl (Option.some.inj h)
  again := fun _ _ _ => rfl

/-- What a run of the application makes of the upgraded database. -/
def after_run (db : BaseDatabase) (actions : List Action) :
    Option (HeadDatabase × Application) := do
  let head ← (upgrade_to_head id id some db).toOption
  let s ← run (Application.step (fun _ => none) (fun _ => .null)) head.application actions
  return (head, s)

theorem after_run_some {db : BaseDatabase} {actions : List Action} {head : HeadDatabase}
    {s : Application} (h : after_run db actions = some (head, s)) :
    upgrade_to_head id id some db = .ok head ∧
      run (Application.step (fun _ => none) (fun _ => .null)) head.application actions =
        some s := by
  obtain ⟨head', hhead, h⟩ := Option.bind_eq_some_iff.mp h
  obtain ⟨s', hrun, h⟩ := Option.bind_eq_some_iff.mp h
  cases h
  exact ⟨ok_of_toOption hhead, hrun⟩

/-- The database goes to head and back, and after a new version the downgrade gives the
document its second file. -/
theorem a_database_makes_the_round_trip :
    RoundTrips id id some (base_database (.text "3")) ∧
      ∃ head s, upgrade_to_head id id some (base_database (.text "3")) = .ok head ∧
        run (Application.step (fun _ => none) (fun _ => .null)) head.application
          [.Get 0 "acme" ⟨0⟩, .AddVersion 0 second_version noon noon] = some s ∧
        s.tables.versions.length = 2 ∧ RestoresFiles some { tables := s.tables, jobs := [] } := by
  obtain ⟨hround, hruns⟩ := migrations_round_trip id id exact_some (fun _ => none) (fun _ => .null)
    (base_database (.text "3")) (by decide)
  have hlength : (after_run (base_database (.text "3"))
      [.Get 0 "acme" ⟨0⟩, .AddVersion 0 second_version noon noon]).map
      (fun x => x.2.tables.versions.length) = some 2 := by
    decide +kernel
  obtain ⟨⟨head, s⟩, hrun, hlength⟩ := Option.map_eq_some_iff.mp hlength
  obtain ⟨hhead, hrun⟩ := after_run_some hrun
  refine ⟨hround.mpr ?_, head, s, hhead, hrun, hlength, ?_⟩
  · intro d hd
    obtain rfl := List.mem_singleton.mp hd
    refine .object ?_ ?_
    · intro field hfield
      obtain rfl := List.mem_singleton.mp hfield
      decide
    · intro field hfield
      obtain rfl := List.mem_singleton.mp hfield
      exact .string (by decide)
  · refine (hruns head hhead).2 [.Get 0 "acme" ⟨0⟩, .AddVersion 0 second_version noon noon] ?_ _ []
      s (List.append_nil _).symm hrun []
    -- neither step writes metadata
    have hnothing : ∀ metadata, none = some metadata → Storable some metadata :=
      fun _ h => nomatch h
    exact ⟨hnothing, fun _ _ => ⟨hnothing, fun _ _ => trivial⟩⟩

/-- The null character in a text of the metadata stops the upgrades, and so it stops the
downgrades where an update has written it. -/
theorem a_null_character_stops_the_migrations :
    ¬ RoundTrips id id some (base_database (.text "\x00")) ∧
      ∃ head s, upgrade_to_head id id some (base_database (.text "3")) = .ok head ∧
        run (Application.step (fun _ => none) (fun _ => .null)) head.application
          [.Get 0 "acme" ⟨0⟩, .UpdateMetadata 0 {
            tenant_id := "acme"
            document_id := ⟨0⟩
            metadata := some { custom_properties := [("note", "\x00")] } } noon] = some s ∧
        ¬ RestoresFiles some { tables := s.tables, jobs := [] } := by
  refine ⟨?_, ?_⟩
  · rintro ⟨head, _, hhead, _⟩
    have hnone : (upgrade_to_head id id some (base_database (.text "\x00"))).toOption.isNone =
        true := by decide +kernel
    rw [hhead] at hnone
    cases hnone
  · have hfails : (after_run (base_database (.text "3"))
        [.Get 0 "acme" ⟨0⟩, .UpdateMetadata 0 {
          tenant_id := "acme"
          document_id := ⟨0⟩
          metadata := some { custom_properties := [("note", "\x00")] } } noon]).map
        (fun x => (downgrade_to_base some { tables := x.2.tables, jobs := [] }).toOption.isNone) =
          some true := by
      decide +kernel
    obtain ⟨⟨head, s⟩, hrun, hnone⟩ := Option.map_eq_some_iff.mp hfails
    obtain ⟨hhead, hrun⟩ := after_run_some hrun
    refine ⟨head, s, hhead, hrun, ?_⟩
    rintro ⟨back, hback, _⟩
    rw [hback] at hnone
    cases hnone

end cortex_rag.migrations
