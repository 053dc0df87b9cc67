-- The law of the read paths: the listing, the search for a checksum and the lookup by
-- id show the same documents of a tenant, with the same active version, exactly where
-- each live row of the tenant parses.
import CortexRag.MigratedReads
import CortexRag.SortedPages

open keyed_rows json_values related_lists sorted_pages

namespace cortex_rag.migrations.read_paths

variable {read_datetime : Json → Option DateTime} {order : RowOrder} {t : Tables}
  {tenant_id : String}

/-- The three ways to read the documents of a tenant agree. -/
structure ReadsAgree (read_datetime : Json → Option DateTime) (order : RowOrder) (t : Tables)
    (tenant_id : String) : Prop where
  listed : ∀ knowledge_space_id limit offset documents total,
    SqlAlchemyDocumentRepository.list_documents read_datetime order t tenant_id knowledge_space_id
      limit offset = .ok (documents, total) →
    ∀ document ∈ documents,
      SqlAlchemyDocumentRepository.get read_datetime t tenant_id document.id = .ok (some document)
  found : ∀ checksum_sha256,
    (∃ document, SqlAlchemyDocumentRepository.get_by_checksum read_datetime order t tenant_id
      checksum_sha256 = .ok (some document)) ↔
    ∃ id document,
      SqlAlchemyDocumentRepository.get read_datetime t tenant_id id = .ok (some document) ∧
      ∃ v ∈ t.versions, v.document_id = id ∧ v.checksum_sha256 = checksum_sha256
  same : ∀ checksum_sha256 document,
    SqlAlchemyDocumentRepository.get_by_checksum read_datetime order t tenant_id checksum_sha256 =
      .ok (some document) →
    SqlAlchemyDocumentRepository.get read_datetime t tenant_id document.id = .ok (some document)
  total : ∀ limit offset documents total,
    SqlAlchemyDocumentRepository.list_documents read_datetime order t tenant_id none limit offset =
      .ok (documents, total) →
    ∃ ids : List UUID, ids.Nodup ∧ total = ids.length ∧ ∀ id, id ∈ ids ↔
      ∃ document,
        SqlAlchemyDocumentRepository.get read_datetime t tenant_id id = .ok (some document)

/-- Every live row of the tenant parses. -/
def LiveRowsParse (read_datetime : Json → Option DateTime) (t : Tables) (tenant_id : String) :
    Prop :=
  ∀ m ∈ t.documents, m.tenant_id = tenant_id → m.deleted_at = none → Parses read_datetime t m

/-! ## The paths -/

/-- What `get` returns for an id is read from its row. -/
theorem get_iff (hs : Stored t) {id : UUID} :
    (∃ document, SqlAlchemyDocumentRepository.get read_datetime t tenant_id id =
        .ok (some document)) ↔
      ∃ m ∈ t.documents, m.id = id ∧ m.tenant_id = tenant_id ∧ m.deleted_at = none ∧
        Parses read_datetime t m := by
  constructor
  · rintro ⟨document, hget⟩
    obtain ⟨m, hm, hid, htenant, hlive, hread⟩ := get_row hget
    exact ⟨m, hm, hid, htenant, hlive,
      (SqlAlchemyDocumentRepository.read_iff hs).mp ⟨document, hread⟩⟩
  · rintro ⟨m, hm, rfl, rfl, hlive, hparses⟩
    obtain ⟨document, hread⟩ := (SqlAlchemyDocumentRepository.read_iff hs).mpr hparses
    exact ⟨document, get_of_read hs.documents hm hlive hread⟩

/-- A document that is read from a live row is the one that `get` returns. -/
theorem get_of_row (hs : Stored t) {m : KnowledgeDocumentRow} (hm : m ∈ t.documents)
    (htenant : m.tenant_id = tenant_id) (hlive : m.deleted_at = none)
    {document : KnowledgeDocument}
    (hread : SqlAlchemyDocumentRepository.read read_datetime t m = .ok document) :
    SqlAlchemyDocumentRepository.get read_datetime t tenant_id document.id =
      .ok (some document) := by
  rw [(SqlAlchemyDocumentRepository.read_row hread).1, ← htenant]
  exact get_of_read hs.documents hm hlive hread

theorem get_listed (hs : Stored t) {knowledge_space_id : Option UUID} {limit offset total : Nat}
    {documents : List KnowledgeDocument}
    (h : SqlAlchemyDocumentRepository.list_documents read_datetime order t tenant_id
      knowledge_space_id limit offset = .ok (documents, total))
    {document : KnowledgeDocument} (hdocument : document ∈ documents) :
    SqlAlchemyDocumentRepository.get read_datetime t tenant_id document.id =
      .ok (some document) := by
  obtain ⟨hread, _⟩ := (SqlAlchemyDocumentRepository.list_documents_ok hs).mp h
  obtain ⟨m, hm, hread⟩ := exists_of_mem_right (mapM_eq_ok.mp hread) hdocument
  have hordered := List.mem_of_mem_drop (List.mem_of_mem_take hm)
  obtain ⟨hmem, hlisted⟩ := List.mem_filter.mp ((perm_ordered _ _ _ _).mem_iff.mp hordered)
  simp only [SqlAlchemyDocumentRepository.listed, decide_eq_true_eq] at hlisted
  exact get_of_row hs hmem hlisted.1 hlisted.2.1 hread

theorem get_with_checksum (hs : Stored t) {checksum_sha256 : String} {document : KnowledgeDocument}
    (h : SqlAlchemyDocumentRepository.get_by_checksum read_datetime order t tenant_id
      checksum_sha256 = .ok (some document)) :
    SqlAlchemyDocumentRepository.get read_datetime t tenant_id document.id =
      .ok (some document) := by
  obtain ⟨m, hm, hread⟩ := SqlAlchemyDocumentRepository.get_by_checksum_row h
  obtain ⟨hmem, htenant, hlive, _⟩ := SqlAlchemyDocumentRepository.mem_checksum_rows.mp hm
  exact get_of_row hs hmem htenant hlive hread

/-- The ids of the rows that a listing without a space counts. -/
theorem mem_listed_ids {id : UUID} :
    id ∈ (t.documents.filter (SqlAlchemyDocumentRepository.listed tenant_id none)).map
        KnowledgeDocumentRow.id ↔
      ∃ m ∈ t.documents, m.id = id ∧ m.tenant_id = tenant_id ∧ m.deleted_at = none := by
  simp only [List.mem_map, List.mem_filter, SqlAlchemyDocumentRepository.listed,
    decide_eq_true_eq, true_or, and_true]
  constructor
  · rintro ⟨m, ⟨hm, htenant, hlive⟩, hid⟩
    exact ⟨m, hm, hid, htenant, hlive⟩
  · rintro ⟨m, hm, hid, htenant, hlive⟩
    exact ⟨m, ⟨hm, htenant, hlive⟩, hid⟩

/-! ## The law -/

/-- The page after the last row is read whatever the rows hold, with their number as the
total: `get` returns as many documents only where each live row parses. -/
theorem live_rows_parse (hs : Stored t) (h : ReadsAgree read_datetime order t tenant_id) :
    LiveRowsParse read_datetime t tenant_id := by
  intro m hm htenant hlive
  have hempty : SqlAlchemyDocumentRepository.models order t tenant_id none 1
      (t.documents.filter (SqlAlchemyDocumentRepository.listed tenant_id none)).length = [] := by
    unfold SqlAlchemyDocumentRepository.models page
    rw [List.drop_eq_nil_of_le (perm_ordered _ _ _ _).length_eq.le, List.take_nil]
  have hlist : SqlAlchemyDocumentRepository.list_documents read_datetime order t tenant_id none 1
      (t.documents.filter (SqlAlchemyDocumentRepository.listed tenant_id none)).length =
        .ok ([], (t.documents.filter
          (SqlAlchemyDocumentRepository.listed tenant_id none)).length) :=
    (SqlAlchemyDocumentRepository.list_documents_ok hs).mpr ⟨by rw [hempty]; rfl, rfl⟩
  obtain ⟨ids, hnodup, hlength, hids⟩ := h.total _ _ _ _ hlist
  have hsubset : ids ⊆ (t.documents.filter
      (SqlAlchemyDocumentRepository.listed tenant_id none)).map KnowledgeDocumentRow.id := by
    intro id hid
    obtain ⟨m', hm', hid', htenant', hlive', _⟩ := (get_iff hs).mp ((hids id).mp hid)
    exact mem_listed_ids.mpr ⟨m', hm', hid', htenant', hlive'⟩
  have hperm := perm_of_subset hnodup hsubset (by rw [List.length_map, hlength])
  have hmem : m.id ∈ ids := hperm.mem_iff.mpr (mem_listed_ids.mpr ⟨m, hm, rfl, htenant, hlive⟩)
  obtain ⟨m', hm', hid, _, _, hparses⟩ := (get_iff hs).mp ((hids m.id).mp hmem)
  rw [← eq_of_key _ hs.documents hm' hm hid]
  exact hparses

/-- The read paths agree exactly where each live row of the tenant parses. -/
theorem document_reads_agree_where_live_rows_parse (read_datetime : Json → Option DateTime)
    (order : RowOrder) {t : Tables} (hs : Stored t) (tenant_id : String) :
    ReadsAgree read_datetime order t tenant_id ↔ LiveRowsParse read_datetime t tenant_id := by
  constructor
  · exact live_rows_parse hs
  · intro hparse
    refine ⟨fun _ _ _ _ _ h _ => get_listed hs h, ?_, fun _ _ => get_with_checksum hs, ?_⟩
    · intro checksum_sha256
      constructor
      · rintro ⟨document, h⟩
        obtain ⟨m, hm, hread⟩ := SqlAlchemyDocumentRepository.get_by_checksum_row h
        obtain ⟨hmem, htenant, hlive, hversion⟩ :=
          SqlAlchemyDocumentRepository.mem_checksum_rows.mp hm
        rw [← (SqlAlchemyDocumentRepository.read_row hread).1] at hversion
        exact ⟨document.id, document, get_of_row hs hmem htenant hlive hread, hversion⟩
      · rintro ⟨id, document, hget, hversion⟩
        obtain ⟨m, hm, rfl, htenant, hlive, _⟩ := get_row hget
        refine SqlAlchemyDocumentRepository.get_by_checksum_of_mem order ?_
          (SqlAlchemyDocumentRepository.mem_checksum_rows.mpr ⟨hm, htenant, hlive, hversion⟩)
        intro m' hm'
        obtain ⟨hmem, htenant', hlive', _⟩ := SqlAlchemyDocumentRepository.mem_checksum_rows.mp hm'
        exact (SqlAlchemyDocumentRepository.read_iff hs).mpr (hparse m' hmem htenant' hlive')
    · intro limit offset documents total h
      obtain ⟨_, rfl⟩ := (SqlAlchemyDocumentRepository.list_documents_ok hs).mp h
      refine ⟨_, keyed_filter _ _ hs.documents, (List.length_map _).symm, ?_⟩
      intro id
      rw [get_iff hs, mem_listed_ids]
      constructor
      · rintro ⟨m, hm, hid, htenant, hlive⟩
        exact ⟨m, hm, hid, htenant, hlive, hparse m hm htenant hlive⟩
      · rintro ⟨m, hm, hid, htenant, hlive, _⟩
        exact ⟨m, hm, hid, htenant, hlive⟩

/-- A live document with two versions of one content, and a deleted document with
that content as well. -/
def repeated_content : Tables :=
  let document (id version : UUID) (deleted_at : Option DateTime) : KnowledgeDocumentRow := {
    id, tenant_id := "acme", knowledge_space_id := none, title := "notes", source_type := "pdf"
    current_version_id := some version, status := "uploaded", metadata := .object []
    created_by := none, deleted_at, created_at := noon, updated_at := noon }
  let version (id document_id : UUID) (version_number : Int) : KnowledgeDocumentVersionRow := {
    id, document_id, version_number, original_filename := "notes.pdf", filename := "notes.pdf"
    extension := "pdf", mime_type := "application/pdf", size := 1, checksum_sha256 := "c0"
    storage_provider := "local", storage_path := "", page_count := none, metadata := .object []
    uploaded_by := none, created_at := noon }
  { documents := [document ⟨1⟩ ⟨11⟩ none, document ⟨2⟩ ⟨12⟩ (some noon)]
    versions := [version ⟨10⟩ ⟨1⟩ 1, version ⟨11⟩ ⟨1⟩ 2, version ⟨12⟩ ⟨2⟩ 1] }

theorem stored_repeated_content : Stored repeated_content where
  documents := by
    unfold Keyed
    decide
  versions := by
    unfold Keyed
    decide
  objects := by
    intro v hv
    simp only [repeated_content, List.mem_cons, List.not_mem_nil, or_false] at hv
    rcases hv with rfl | rfl | rfl <;> exact ⟨[], rfl⟩

theorem reads_of_repeated_content_agree :
    ReadsAgree (fun _ => none) (fun _ => 0) repeated_content "acme" ∧
      (SqlAlchemyDocumentRepository.get_by_checksum (fun _ => none) (fun _ => 0) repeated_content
        "acme" "c0").toOption.map (·.map (fun d => (d.id, d.active_version.map (fun v => v.id)))) =
          some (some (⟨1⟩, some ⟨11⟩)) := by
  refine ⟨(document_reads_agree_where_live_rows_parse _ _ stored_repeated_content _).mpr ?_,
    by decide +kernel⟩
  intro m hm _ hlive
  simp only [repeated_content, List.mem_cons, List.not_mem_nil, or_false] at hm
  rcases hm with rfl | rfl
  · refine ⟨⟨.Pdf, rfl⟩, ⟨.Uploaded, rfl⟩, ⟨{}, by decide +kernel⟩, ?_⟩
    intro v hv _
    simp only [repeated_content, List.mem_cons, List.not_mem_nil, or_false] at hv
    rcases hv with rfl | rfl | rfl <;> exact Or.inl rfl
  · cases hlive

/-- After the upgrades a document with a number in its metadata is counted and not
read. -/
theorem a_migrated_document_is_counted_and_not_read :
    ∃ t, upgraded id id some (legacy_database (.number "3")).rows = .ok t ∧ Stored t ∧
      ¬ ReadsAgree (fun _ => none) (fun _ => 0) t "acme" := by
  let row := migrated_row id id (legacy_document (.number "3")).toBaseDocument
    (.object [("pages", .number "3")])
  let t : Tables := {
    documents := [row]
    versions := [b7f2c9a4d1e8.version_row id (legacy_document (.number "3")).toBaseDocument] }
  have hupgraded : upgraded id id some (legacy_database (.number "3")).rows = .ok t :=
    (upgraded_rows_eq (by decide)).mpr ⟨.cons ⟨_, rfl, rfl⟩ .nil, rfl⟩
  have hs : Stored t := stored_of_upgraded (by decide) hupgraded
  refine ⟨t, hupgraded, hs, ?_⟩
  intro h
  obtain ⟨metadata, hmetadata⟩ := (live_rows_parse hs h row List.mem_cons_self rfl rfl).metadata
  have hread : KnowledgeMetadata.read_dict (.object [("pages", .number "3")]) = none := by
    decide +kernel
  have hnone : KnowledgeMetadata.model_validate (fun _ => none) row.metadata = _ :=
    model_validate_typed _
  rw [hnone, hread] at hmetadata
  cases hmetadata

end cortex_rag.migrations.read_paths
