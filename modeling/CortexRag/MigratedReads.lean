-- The law of migrated data: after the two upgrades the repository reads every
-- document, with what it was before, where its metadata held texts only and its
-- storage provider is a known one.
import CortexRag.Migrations

open keyed_rows json_values related_lists

namespace cortex_rag.migrations

variable {gen_random_uuid : UUID → UUID} {lower : String → String}
  {numeric : String → Option String} {read_datetime : Json → Option DateTime}
  {db : LegacyDatabase} {d : LegacyDocument} {t : Tables}

/-! ## What the repository reads -/

theorem keyed_skeleton (custom_properties : Json) :
    Keyed Prod.fst (c3d9e1f42a76.skeleton custom_properties) := by
  unfold Keyed c3d9e1f42a76.skeleton
  simp only [List.map_cons, List.map_nil]
  decide

/-- The model reads the new metadata when it reads the custom properties. -/
theorem model_validate_typed {read_datetime : Json → Option DateTime} (custom_properties : Json) :
    KnowledgeMetadata.model_validate read_datetime
      (c3d9e1f42a76.typed_metadata custom_properties) =
    (KnowledgeMetadata.read_dict custom_properties).map (fun properties => {
      custom_properties := properties }) := by
  have hkeyed : Keyed Prod.fst (sorted (c3d9e1f42a76.skeleton custom_properties)) :=
    ((sorted_perm _).map Prod.fst).nodup_iff.mpr (keyed_skeleton custom_properties)
  have hlookup := lookup_of_perm (keyed_skeleton custom_properties) (sorted_perm _)
  have hnames : (sorted (c3d9e1f42a76.skeleton custom_properties)).all
      (fun f => f.1 ∈ KnowledgeMetadata.field_names) = true := by
    rw [List.all_eq_true]
    intro field hfield
    have hname := List.mem_map_of_mem (f := Prod.fst) ((sorted_perm _).mem_iff.mp hfield)
    rw [decide_eq_true_eq]
    exact hname
  simp only [c3d9e1f42a76.typed_metadata, KnowledgeMetadata.model_validate, merged_eq hkeyed,
    hnames, KnowledgeMetadata.read_field, hlookup]
  cases hread : KnowledgeMetadata.read_dict custom_properties <;>
    simp [c3d9e1f42a76.skeleton, List.lookup_cons, KnowledgeMetadata.read_optional,
      KnowledgeMetadata.read_list, KnowledgeMetadata.validate_tags,
      KnowledgeMetadata.validate_keywords, hread]

/-- The version that the repository reads for a document. -/
def legacy_version (gen_random_uuid : UUID → UUID) (d : LegacyDocument)
    (storage_provider : StorageProviderKind) : KnowledgeDocumentVersion where
  id := gen_random_uuid d.id
  document_id := d.id
  version_number := 1
  original_filename := d.original_filename
  filename := d.filename
  extension := d.extension
  mime_type := d.mime_type
  size := d.size
  checksum_sha256 := d.checksum_sha256
  storage_provider := storage_provider
  storage_path := d.storage_path
  page_count := d.page_count
  metadata := d.properties.fields
  uploaded_by := d.uploaded_by
  created_at := d.created_at

/-- The entity that the repository reads for a document. -/
def legacy_entity (gen_random_uuid : UUID → UUID) (d : LegacyDocument) (source_type : SourceType)
    (status : DocumentStatus) (properties : List (String × String))
    (version : KnowledgeDocumentVersion) : KnowledgeDocument where
  id := d.id
  tenant_id := d.tenant_id
  title := d.original_filename
  source_type := source_type
  knowledge_space_id := d.collection_id
  current_version_id := some (gen_random_uuid d.id)
  status := status
  metadata := { custom_properties := properties }
  created_by := d.uploaded_by
  created_at := d.created_at
  updated_at := d.updated_at
  deleted_at := d.deleted_at
  active_version := some version

theorem version_to_entity_eq :
    version_to_entity (b7f2c9a4d1e8.version_row gen_random_uuid d.toBaseDocument) =
    (StorageProviderKind.of_value d.storage_provider).map (legacy_version gen_random_uuid d) := by
  unfold version_to_entity b7f2c9a4d1e8.version_row
  simp only [d.is_object, dict, merged_eq d.properties.distinct]
  rcases StorageProviderKind.of_value d.storage_provider with e | provider
  · rfl
  · rfl

theorem load_version_eq (hnew : (db.rows.map (fun d => gen_random_uuid d.id)).Nodup)
    (hversions : t.versions = db.rows.map (b7f2c9a4d1e8.version_row gen_random_uuid))
    (hd : d ∈ db.documents) :
    SqlAlchemyDocumentRepository.load_version t (some (gen_random_uuid d.id)) =
      (StorageProviderKind.of_value d.storage_provider).map
        (fun provider => some (legacy_version gen_random_uuid d provider)) := by
  have hfind : find KnowledgeDocumentVersionRow.id (gen_random_uuid d.id) t.versions =
      some (b7f2c9a4d1e8.version_row gen_random_uuid d.toBaseDocument) := by
    rw [hversions]
    exact find_of_mem _ (keyed_version_ids hnew) (List.mem_map_of_mem (List.mem_map_of_mem hd))
  simp only [SqlAlchemyDocumentRepository.load_version, hfind, version_to_entity_eq]
  rcases StorageProviderKind.of_value d.storage_provider with e | provider
  · rfl
  · rfl

/-- The version holds the file of the document as it was before the upgrades. -/
structure Physical (d : LegacyDocument) (version : KnowledgeDocumentVersion) : Prop where
  version_number : version.version_number = 1
  document_id : version.document_id = d.id
  original_filename : version.original_filename = d.original_filename
  filename : version.filename = d.filename
  extension : version.extension = d.extension
  mime_type : version.mime_type = d.mime_type
  size : version.size = d.size
  checksum_sha256 : version.checksum_sha256 = d.checksum_sha256
  storage_provider : StorageProviderKind.of_value d.storage_provider = .ok version.storage_provider
  storage_path : version.storage_path = d.storage_path
  page_count : version.page_count = d.page_count
  uploaded_by : version.uploaded_by = d.uploaded_by

/-- The entity carries what the document was before the upgrades. -/
structure Carries (d : LegacyDocument) (entity : KnowledgeDocument) : Prop where
  id : entity.id = d.id
  tenant_id : entity.tenant_id = d.tenant_id
  title : entity.title = d.original_filename
  created_by : entity.created_by = d.uploaded_by
  knowledge_space_id : entity.knowledge_space_id = d.collection_id
  active_version : ∃ version, entity.active_version = some version ∧
    entity.current_version_id = some version.id ∧ Physical d version
  custom_properties : (entity.metadata.custom_properties.map text_field).Perm d.properties.fields

/-- The values of the metadata are texts without a null character or a surrogate that
stands alone, and the storage provider is a known one. -/
def Portable (d : LegacyDocument) : Prop :=
  (∀ field ∈ d.properties.fields, is_text field) ∧
    (d.storage_provider = "local" ∨ d.storage_provider = "s3")

/-- The entity of a document after the upgrades, where each of its values is one
that the repository knows. -/
theorem read_eq (hnew : (db.rows.map (fun d => gen_random_uuid d.id)).Nodup)
    (hversions : t.versions = db.rows.map (b7f2c9a4d1e8.version_row gen_random_uuid))
    (hd : d ∈ db.documents) (custom_properties : Json) :
    SqlAlchemyDocumentRepository.read read_datetime t
      (migrated_row gen_random_uuid lower d.toBaseDocument custom_properties) = (do
        let provider ← StorageProviderKind.of_value d.storage_provider
        let source_type ← SourceType.of_value (c3d9e1f42a76.source_type_of lower d.extension)
        let status ← DocumentStatus.of_value d.status
        let properties ← (KnowledgeMetadata.read_dict custom_properties).elim
          (.error (.Other "ValidationError")) .ok
        return legacy_entity gen_random_uuid d source_type status properties
          (legacy_version gen_random_uuid d provider)) := by
  have hload : SqlAlchemyDocumentRepository.load_version t
      (migrated_row gen_random_uuid lower d.toBaseDocument
        custom_properties).current_version_id = _ := load_version_eq hnew hversions hd
  unfold SqlAlchemyDocumentRepository.read
  rw [hload]
  unfold doc_to_entity migrated_row
  simp only [model_validate_typed]
  rcases StorageProviderKind.of_value d.storage_provider with e | provider
  · rfl
  · rcases KnowledgeMetadata.read_dict custom_properties with _ | properties
    · rfl
    · rfl

/-- What is read was portable. -/
theorem portable_of_read (hnew : (db.rows.map (fun d => gen_random_uuid d.id)).Nodup)
    (hversions : t.versions = db.rows.map (b7f2c9a4d1e8.version_row gen_random_uuid))
    (hd : d ∈ db.documents) {custom_properties : Json}
    (hmetadata : to_jsonb numeric (.object d.properties.fields) = some custom_properties)
    {entity : KnowledgeDocument} (h : SqlAlchemyDocumentRepository.read read_datetime t
      (migrated_row gen_random_uuid lower d.toBaseDocument custom_properties) = .ok entity) :
    Portable d := by
  rw [read_eq hnew hversions hd] at h
  rcases hprovider : StorageProviderKind.of_value d.storage_provider with e | provider
  · rw [hprovider] at h
    cases h
  · rcases hread : KnowledgeMetadata.read_dict custom_properties with _ | properties
    · rw [hprovider, hread] at h
      obtain ⟨_, source_type, hsource⟩ := source_type_valid lower d.extension
      obtain ⟨status, hstatus⟩ := d.status_valid
      rw [hsource, hstatus] at h
      cases h
    · exact ⟨(KnowledgeMetadata.texts_of_read hmetadata hread).1,
        storage_provider_valid.mp ⟨provider, hprovider⟩⟩

/-- What is portable is read. -/
theorem read_of_portable (hnew : (db.rows.map (fun d => gen_random_uuid d.id)).Nodup)
    (hversions : t.versions = db.rows.map (b7f2c9a4d1e8.version_row gen_random_uuid))
    (hd : d ∈ db.documents) (h : Portable d) :
    to_jsonb numeric (.object d.properties.fields) = some (.object (sorted d.properties.fields)) ∧
      ∃ entity, SqlAlchemyDocumentRepository.read read_datetime t
          (migrated_row gen_random_uuid lower d.toBaseDocument
            (.object (sorted d.properties.fields))) = .ok entity ∧ Carries d entity := by
  obtain ⟨htexts, hprovider⟩ := h
  obtain ⟨provider, hprovider⟩ := storage_provider_valid.mpr hprovider
  obtain ⟨properties, hmetadata, hread⟩ :=
    KnowledgeMetadata.read_of_texts numeric htexts
  obtain ⟨_, source_type, hsource⟩ := source_type_valid lower d.extension
  obtain ⟨status, hstatus⟩ := d.status_valid
  refine ⟨hmetadata, legacy_entity gen_random_uuid d source_type status properties
    (legacy_version gen_random_uuid d provider), ?_, ?_⟩
  · rw [read_eq hnew hversions hd, hprovider, hsource, hstatus, hread]
    rfl
  · exact ⟨rfl, rfl, rfl, rfl, rfl,
      ⟨_, rfl, rfl, rfl, rfl, rfl, rfl, rfl, rfl, rfl, rfl, hprovider, rfl, rfl, rfl⟩,
      (KnowledgeMetadata.texts_of_read hmetadata hread).2⟩

/-- The upgraded tables are under their keys, with an object as the metadata of each
version. -/
theorem stored_of_upgraded (hnew : (db.rows.map (fun d => gen_random_uuid d.id)).Nodup)
    (h : upgraded gen_random_uuid lower numeric db.rows = .ok t) : Stored t := by
  obtain ⟨hrows, hversions⟩ := (upgraded_rows_eq hnew).mp h
  refine ⟨?_, ?_, ?_⟩
  · have hids := map_of_forall₂ (f := fun d => d.id) (g := KnowledgeDocumentRow.id) hrows
      (fun _ _ ⟨_, _, hrow⟩ => congrArg KnowledgeDocumentRow.id hrow)
    have hkeyed := db.keyed
    unfold Keyed at hkeyed ⊢
    rw [hids]
    exact hkeyed
  · rw [hversions]
    exact keyed_version_ids hnew
  · intro v hv
    rw [hversions] at hv
    obtain ⟨_, hrow, rfl⟩ := List.mem_map.mp hv
    obtain ⟨d, _, rfl⟩ := List.mem_map.mp hrow
    exact ⟨d.properties.fields, d.is_object⟩

/-! ## Every read -/

/-- Where each row is read, no `get` and no `list_documents` fails. -/
theorem reads_of_rows
    (hrows : ∀ model ∈ t.documents, ∃ entity,
      SqlAlchemyDocumentRepository.read read_datetime t model = .ok entity)
    (hversions : ∀ model ∈ t.versions, ∃ version, version_to_entity model = .ok version) :
    (∀ tenant_id document_id, ∃ document,
      SqlAlchemyDocumentRepository.get read_datetime t tenant_id document_id = .ok document) ∧
    ∀ order tenant_id knowledge_space_id limit offset, ∃ documents,
      SqlAlchemyDocumentRepository.list_documents read_datetime order t tenant_id
        knowledge_space_id limit offset = .ok documents := by
  constructor
  · intro tenant_id document_id
    unfold SqlAlchemyDocumentRepository.get
    split
    · exact ⟨none, rfl⟩
    · rename_i model hfind
      obtain ⟨entity, hentity⟩ := hrows model (List.mem_of_find?_eq_some hfind)
      exact ⟨some entity, by rw [hentity]; rfl⟩
  · intro order tenant_id knowledge_space_id limit offset
    unfold SqlAlchemyDocumentRepository.list_documents
    generalize hmodels : page limit offset (ordered (fun a b => b.created_at.le a.created_at) order
      KnowledgeDocumentRow.id (t.documents.filter
        (SqlAlchemyDocumentRepository.listed tenant_id knowledge_space_id))) = models
    have hmem : ∀ model ∈ models, model ∈ t.documents := by
      intro model hmodel
      rw [← hmodels] at hmodel
      have hordered := List.mem_of_mem_drop (List.mem_of_mem_take hmodel)
      exact List.mem_of_mem_filter ((perm_ordered ..).mem_iff.mp hordered)
    have hloads : ∃ versions, (t.versions.filter (fun v =>
        v.id ∈ models.filterMap (fun m => m.current_version_id))).mapM version_to_entity =
          .ok versions :=
      mapM_ok_of_forall (fun v hv => hversions v (List.mem_of_mem_filter hv))
    obtain ⟨versions, hloaded⟩ := hloads
    have hreads : ∃ items, models.mapM (fun m => doc_to_entity read_datetime m
        (m.current_version_id.bind (fun id => versions.find? (fun v => v.id = id)))) =
          .ok items := by
      refine mapM_ok_of_forall ?_
      intro model hmodel
      obtain ⟨entity, hentity⟩ := hrows model (hmem model hmodel)
      obtain ⟨_, _, hentity⟩ := read_ok.mp hentity
      exact doc_to_entity_any hentity
    obtain ⟨items, hitems⟩ := hreads
    simp only [hmodels, hloaded, bind, Except.bind, hitems]
    exact ⟨_, rfl⟩

/-! ## The law -/

/-- The upgrades succeed, each document is read with what it was before them, and
no read of a tenant fails. -/
def Readable (gen_random_uuid : UUID → UUID) (lower : String → String)
    (numeric : String → Option String) (read_datetime : Json → Option DateTime)
    (db : LegacyDatabase) : Prop :=
  ∃ t, upgraded gen_random_uuid lower numeric db.rows = .ok t ∧
    List.Forall₂ (fun d model => ∃ entity,
      SqlAlchemyDocumentRepository.read read_datetime t model = .ok entity ∧ Carries d entity)
      db.documents t.documents ∧
    (∀ tenant_id document_id, ∃ document,
      SqlAlchemyDocumentRepository.get read_datetime t tenant_id document_id = .ok document) ∧
    ∀ order tenant_id knowledge_space_id limit offset, ∃ documents,
      SqlAlchemyDocumentRepository.list_documents read_datetime order t tenant_id
        knowledge_space_id limit offset = .ok documents

theorem portable_of_readable (hnew : (db.rows.map (fun d => gen_random_uuid d.id)).Nodup)
    (h : Readable gen_random_uuid lower numeric read_datetime db) :
    ∀ d ∈ db.documents, Portable d := by
  obtain ⟨t, hupgraded, hread, _⟩ := h
  intro d hd
  obtain ⟨hrows, hversions⟩ := (upgraded_rows_eq hnew).mp hupgraded
  obtain ⟨model, ⟨custom_properties, hmetadata, rfl⟩, entity, hentity, _⟩ :=
    forall₂_both hrows hread d hd
  exact portable_of_read hnew hversions hd hmetadata hentity

/-- After the upgrades a database is read, with nothing lost, exactly when all of
its documents are portable. -/
theorem migrated_data_is_readable_iff_portable
    (hnew : (db.rows.map (fun d => gen_random_uuid d.id)).Nodup) :
    Readable gen_random_uuid lower numeric read_datetime db ↔
      ∀ d ∈ db.documents, Portable d := by
  constructor
  · exact portable_of_readable hnew
  · intro hportable
    let t : Tables := {
      documents := db.documents.map (fun d =>
        migrated_row gen_random_uuid lower d.toBaseDocument (.object (sorted d.properties.fields)))
      versions := db.rows.map (b7f2c9a4d1e8.version_row gen_random_uuid) }
    have hread : ∀ d ∈ db.documents, to_jsonb numeric (.object d.properties.fields) =
          some (.object (sorted d.properties.fields)) ∧
        ∃ entity, SqlAlchemyDocumentRepository.read read_datetime t
          (migrated_row gen_random_uuid lower d.toBaseDocument
            (.object (sorted d.properties.fields))) = .ok entity ∧ Carries d entity :=
      fun d hd => read_of_portable hnew rfl hd (hportable d hd)
    refine ⟨t, (upgraded_rows_eq hnew).mpr ⟨?_, rfl⟩, ?_, reads_of_rows ?_ ?_⟩
    · rw [List.forall₂_map_right_iff, List.forall₂_same]
      exact fun d hd => ⟨_, (hread d hd).1, rfl⟩
    · rw [List.forall₂_map_right_iff, List.forall₂_same]
      exact fun d hd => (hread d hd).2
    · intro model hmodel
      obtain ⟨d, hd, rfl⟩ := List.mem_map.mp hmodel
      obtain ⟨entity, hentity, _⟩ := (hread d hd).2
      exact ⟨entity, hentity⟩
    · intro model hmodel
      obtain ⟨_, hrow, rfl⟩ := List.mem_map.mp hmodel
      obtain ⟨d, hd, rfl⟩ := List.mem_map.mp hrow
      obtain ⟨provider, hprovider⟩ := storage_provider_valid.mpr (hportable d hd).2
      exact ⟨_, by rw [version_to_entity_eq, hprovider]; rfl⟩

/-- A document with the metadata of one field. -/
def legacy_document (value : Json) : LegacyDocument where
  id := ⟨0⟩
  tenant_id := "acme"
  collection_id := none
  original_filename := "notes.pdf"
  filename := "notes.pdf"
  extension := "pdf"
  mime_type := "application/pdf"
  size := 1
  checksum_sha256 := "A"
  storage_provider := "local"
  storage_path := "acme/notes.pdf"
  uploaded_by := none
  status := "uploaded"
  metadata := .object [("pages", value)]
  page_count := none
  deleted_at := none
  created_at := noon
  updated_at := noon
  properties := ⟨[("pages", value)], by simp [Keyed]⟩
  is_object := rfl
  status_valid := ⟨.Uploaded, rfl⟩

def legacy_database (value : Json) : LegacyDatabase where
  documents := [legacy_document value]
  keyed := by
    unfold Keyed
    simp

/-- With a text in its metadata the document is read. -/
theorem a_text_in_the_metadata_is_read :
    Readable id id some (fun _ => none) (legacy_database (.text "3")) := by
  refine (migrated_data_is_readable_iff_portable (by decide)).mpr ?_
  intro d hd
  obtain rfl := List.mem_singleton.mp hd
  refine ⟨?_, Or.inl rfl⟩
  intro field hfield
  obtain rfl := List.mem_singleton.mp hfield
  exact ⟨by decide, "3", rfl, by decide⟩

/-- With a number in its metadata the document is not. -/
theorem a_number_in_the_metadata_is_not_read :
    ¬ Readable id id some (fun _ => none) (legacy_database (.number "3")) := by
  intro h
  have hportable := portable_of_readable (by decide) h (legacy_document (.number "3"))
    List.mem_cons_self
  obtain ⟨_, s, hs, _⟩ := hportable.1 ("pages", .number "3") List.mem_cons_self
  cases hs

end cortex_rag.migrations
