-- The law of stored metadata: a value that the model accepts is normalised, and
-- it stays the same through the table and through a client that sends it back.
import CortexRag.MetadataRoundTrip
import CortexRag.MigratedWrites

open keyed_rows json_values

namespace cortex_rag.stored_metadata

open migrations KnowledgeMetadata

variable {read_datetime : Json → Option DateTime} {dump_datetime : DateTime → Json} {t : Tables}
  {tenant_id : String} {document_id : UUID} {m : KnowledgeMetadata}

/-! ## The row after an update -/

/-- The document of a row after the repository has written a copy of it with
metadata that is read back. -/
theorem get_after_update (hk : Keyed KnowledgeDocumentRow.id t.documents)
    {document : migrations.KnowledgeDocument} (changed : migrations.KnowledgeDocument)
    (hget : migrations.SqlAlchemyDocumentRepository.get read_datetime t tenant_id document_id =
      .ok (some document))
    (hid : changed.id = document.id) (htenant : changed.tenant_id = document.tenant_id)
    (hcurrent : changed.current_version_id = document.current_version_id)
    (hlive : changed.deleted_at = document.deleted_at)
    (hvalid : model_validate read_datetime (model_dump dump_datetime changed.metadata) =
      some changed.metadata) (updated_at : DateTime) :
    ∃ after, migrations.SqlAlchemyDocumentRepository.get read_datetime
        (migrations.SqlAlchemyDocumentRepository.update dump_datetime t updated_at changed)
        tenant_id document_id = .ok (some after) ∧ after.metadata = changed.metadata := by
  obtain ⟨model, hmodel, rfl, rfl, hdeleted, hread⟩ := get_row hget
  obtain ⟨version, hload, hentity⟩ := read_ok.mp hread
  obtain ⟨source_type, status, metadata, hsource, _, _, rfl⟩ := doc_to_entity_ok.mp hentity
  simp only at hid htenant hcurrent hlive
  -- the row with the columns that `update` assigns
  let row : KnowledgeDocumentRow :=
    migrations.SqlAlchemyDocumentRepository.update_columns dump_datetime updated_at changed model
  have hrow : row = { model with
      title := changed.title
      knowledge_space_id := changed.knowledge_space_id
      status := changed.status.value
      metadata := changed.metadata.model_dump dump_datetime
      current_version_id := changed.current_version_id
      deleted_at := changed.deleted_at
      updated_at } := if_neg (not_not.mpr htenant.symm)
  have hmem : row ∈ (migrations.SqlAlchemyDocumentRepository.update dump_datetime t updated_at
      changed).documents := (mem_modify KnowledgeDocumentRow.id).mpr
        ⟨model, hmodel, if_pos hid.symm⟩
  have hversion : migrations.SqlAlchemyDocumentRepository.load_version
      (migrations.SqlAlchemyDocumentRepository.update dump_datetime t updated_at changed)
      row.current_version_id = .ok version := by
    rw [hrow]
    simp only [hcurrent]
    exact hload
  have hrowentity : ∃ after, migrations.doc_to_entity read_datetime row version = .ok after ∧
      after.metadata = changed.metadata := by
    rw [hrow]
    exact ⟨_, doc_to_entity_ok.mpr ⟨source_type, changed.status, changed.metadata, hsource,
      document_status_of_value _, hvalid, rfl⟩, rfl⟩
  obtain ⟨after, hafter, hmetadata⟩ := hrowentity
  have hrowlive : row.deleted_at = none := by
    rw [hrow]
    exact hlive.trans hdeleted
  have hgot := get_of_read (keyed_update hk updated_at changed) hmem hrowlive
    (read_ok.mpr ⟨version, hversion, hafter⟩)
  rw [hrow] at hgot
  exact ⟨after, hgot, hmetadata⟩

/-! ## The client -/

/-- A client that gets a document and sends its metadata back as it came. -/
def send_back (read_datetime : Json → Option DateTime) (dump_datetime : DateTime → Json)
    (tenant_id : String) (document_id : UUID) (t : Tables) (updated_at : DateTime) :
    Except PyException Tables := do
  match ← migrations.SqlAlchemyDocumentRepository.get read_datetime t tenant_id document_id with
  | none => .error (.Domain (document_not_found document_id))
  | some document =>
    match model_validate read_datetime (model_dump dump_datetime document.metadata) with
    | none => .error (.Other "ValidationError")
    | some metadata => do
      let result ← migrations.UpdateDocumentMetadataUseCase.execute read_datetime dump_datetime t
        updated_at { tenant_id, document_id, metadata := some metadata }
      return result.2

/-- The document is there, and its metadata is `m`. -/
def Holds (read_datetime : Json → Option DateTime) (tenant_id : String) (document_id : UUID)
    (m : KnowledgeMetadata) (t : Tables) : Prop :=
  Keyed KnowledgeDocumentRow.id t.documents ∧
    ∃ document, migrations.SqlAlchemyDocumentRepository.get read_datetime t tenant_id document_id =
      .ok (some document) ∧ document.metadata = m

/-- A value that the use case has written is read back. -/
theorem holds_after_execute (hk : Keyed KnowledgeDocumentRow.id t.documents)
    (hvalid : model_validate read_datetime (model_dump dump_datetime m) = some m)
    {data : UpdateDocumentMetadataInput} (hdata : data.metadata = some m) {updated_at : DateTime}
    {document : migrations.KnowledgeDocument} {t' : Tables}
    (h : migrations.UpdateDocumentMetadataUseCase.execute read_datetime dump_datetime t updated_at
      data = .ok (document, t')) :
    Holds read_datetime data.tenant_id data.document_id m t' := by
  unfold migrations.UpdateDocumentMetadataUseCase.execute at h
  rcases hget : migrations.SqlAlchemyDocumentRepository.get read_datetime t data.tenant_id
    data.document_id with e | _ | found
  · rw [hget] at h
    cases h
  · rw [hget] at h
    cases h
  · rw [hget] at h
    cases h
    have hmetadata : (migrations.UpdateDocumentMetadataUseCase.merged data found).metadata = m := by
      unfold migrations.UpdateDocumentMetadataUseCase.merged
      rw [hdata]
      rfl
    obtain ⟨after, hafter, hsame⟩ := get_after_update hk
      (migrations.UpdateDocumentMetadataUseCase.merged data found) hget rfl rfl rfl rfl
      (by rw [hmetadata]; exact hvalid) updated_at
    exact ⟨keyed_update hk _ _, after, hafter, hsame.trans hmetadata⟩

/-- Metadata that is sent back stays as it is. -/
theorem holds_after_send_back
    (hvalid : model_validate read_datetime (model_dump dump_datetime m) = some m)
    (h : Holds read_datetime tenant_id document_id m t) (updated_at : DateTime) :
    ∃ t', send_back read_datetime dump_datetime tenant_id document_id t updated_at = .ok t' ∧
      Holds read_datetime tenant_id document_id m t' := by
  obtain ⟨hk, document, hget, rfl⟩ := h
  rcases hexecute : migrations.UpdateDocumentMetadataUseCase.execute read_datetime dump_datetime t
    updated_at { tenant_id, document_id, metadata := some document.metadata } with e | ⟨after, t'⟩
  · unfold migrations.UpdateDocumentMetadataUseCase.execute at hexecute
    rw [hget] at hexecute
    cases hexecute
  · refine ⟨t', ?_, holds_after_execute hk hvalid rfl hexecute⟩
    unfold send_back
    rw [hget]
    simp only [bind, Except.bind, hvalid, hexecute]
    rfl

/-! ## The law -/

/-- The value is written, and then read and sent back any number of times. -/
def StaysTheSame (read_datetime : Json → Option DateTime) (dump_datetime : DateTime → Json)
    (m : KnowledgeMetadata) : Prop :=
  ∀ (t t' : Tables) (updated_at : DateTime) (data : UpdateDocumentMetadataInput)
    (document : migrations.KnowledgeDocument),
    Keyed KnowledgeDocumentRow.id t.documents → data.metadata = some m →
    migrations.UpdateDocumentMetadataUseCase.execute read_datetime dump_datetime t updated_at data =
      .ok (document, t') →
    ∀ times : List DateTime, ∃ t'',
      times.foldlM (send_back read_datetime dump_datetime data.tenant_id data.document_id) t' =
        .ok t'' ∧
      ∃ after, migrations.SqlAlchemyDocumentRepository.get read_datetime t'' data.tenant_id
        data.document_id = .ok (some after) ∧ after.metadata = m

theorem stays_the_same
    (hvalid : model_validate read_datetime (model_dump dump_datetime m) = some m) :
    StaysTheSame read_datetime dump_datetime m := by
  intro t t' updated_at data document hk hdata hexecute times
  have hholds := holds_after_execute hk hvalid hdata hexecute
  clear hexecute hk
  induction times generalizing t' with
  | nil => exact ⟨t', rfl, hholds.2⟩
  | cons time times ih =>
    obtain ⟨t1, ht1, hnext⟩ := holds_after_send_back hvalid hholds time
    obtain ⟨t'', hrun, hafter⟩ := ih t1 hnext
    refine ⟨t'', ?_, hafter⟩
    rw [List.foldlM_cons, ht1]
    exact hrun

/-- What the model accepts is normalised, its JSON is accepted and gives the same
value, and nothing that stores it, reads it or sends it back changes it. -/
theorem metadata_is_normalised_once_and_stored_losslessly {input : Json}
    (haccepted : model_validate read_datetime input = some m)
    (hcreated : ∀ t, m.document_created_at = some t → Encoded read_datetime dump_datetime t)
    (hmodified : ∀ t, m.document_modified_at = some t → Encoded read_datetime dump_datetime t) :
    Normalised m ∧ model_validate read_datetime (model_dump dump_datetime m) = some m ∧
      StaysTheSame read_datetime dump_datetime m := by
  obtain ⟨hnormalised, hkeyed⟩ := normalised_of_validate haccepted
  have hvalid := model_validate_dump hnormalised hkeyed hcreated hmodified
  exact ⟨hnormalised, hvalid, stays_the_same hvalid⟩

/-- The JSON of one datetime. -/
def dump_noon (t : DateTime) : Json :=
  if t = noon then .text "2026-03-01T00:00:00Z" else .text ""

def read_noon : Json → Option DateTime
  | .text "2026-03-01T00:00:00Z" => some noon
  | _ => none

/-- A request in which the language and the tags are not yet normal. -/
def request_metadata : Json := .object [
  ("language", .text " ES "),
  ("tags", .array [.text " ISO9001 ", .text "", .text "RH"]),
  ("document_created_at", .text "2026-03-01T00:00:00Z")]

def accepted_metadata : KnowledgeMetadata where
  language := some "es"
  tags := ["ISO9001", "RH"]
  document_created_at := some noon

theorem the_metadata_of_a_request_is_stored_losslessly :
    model_validate read_noon request_metadata = some accepted_metadata ∧
      Normalised accepted_metadata ∧
      model_validate read_noon (model_dump dump_noon accepted_metadata) =
        some accepted_metadata ∧
      StaysTheSame read_noon dump_noon accepted_metadata := by
  have haccepted : model_validate read_noon request_metadata = some accepted_metadata := by
    decide +kernel
  refine ⟨haccepted, metadata_is_normalised_once_and_stored_losslessly haccepted ?_ ?_⟩
  · intro t ht
    obtain rfl : noon = t := Option.some.inj ht
    exact ⟨by simp [dump_noon], by simp [dump_noon, read_noon]⟩
  · intro t ht
    cases ht

end cortex_rag.stored_metadata
