-- The application on the migrated tables: calls that overlap, where each holds the
-- copy of a document that it has read. Every document and every copy points at a
-- version of the document, in every state that some run reaches.
import CortexRag.MigratedWrites
import CortexRag.Runs

open keyed_rows json_values labelled_runs related_lists

namespace cortex_rag.migrations

/-! ## The steps -/

/-- The copy that `DeleteDocumentUseCase.execute` writes back. -/
def DeleteDocumentUseCase.marked (now : DateTime) (document : KnowledgeDocument) :
    KnowledgeDocument := { document with status := .Deleted, deleted_at := some now }

/-- The copy that `ProcessDocumentUseCase.execute` writes back. -/
def ProcessDocumentUseCase.processed (document : KnowledgeDocument) : KnowledgeDocument :=
  { document with status := .Processed }

/-- The tables, and the copies that the calls and the workers hold. -/
structure Application where
  tables : Tables
  copies : Nat → Option KnowledgeDocument

/-- A step of one call. Ids and times are any, and so is what an upload or a new
version holds: the checks of a use case only leave steps out. -/
inductive Action where
  | Get (call : Nat) (tenant_id : String) (document_id : UUID)
  | Upload (document : KnowledgeDocument) (version : KnowledgeDocumentVersion) (db_now : DateTime)
  | AddVersion (call : Nat) (version : KnowledgeDocumentVersion) (db_now updated_at : DateTime)
  | UpdateMetadata (call : Nat) (data : UpdateDocumentMetadataInput) (updated_at : DateTime)
  | Delete (call : Nat) (now updated_at : DateTime)
  | Process (call : Nat) (updated_at : DateTime)

section Steps

variable (read_datetime : Json → Option DateTime) (dump_datetime : DateTime → Json)

/-- The tables after `update` with the changed copy of a call. -/
def Application.updated (s : Application) (call : Nat)
    (change : KnowledgeDocument → KnowledgeDocument) (updated_at : DateTime) : Option Application :=
  (s.copies call).map (fun document => { s with
    tables := SqlAlchemyDocumentRepository.update dump_datetime s.tables updated_at
      (change document) })

def Application.step (s : Application) : Action → Option Application
  | .Get call tenant_id document_id =>
    match SqlAlchemyDocumentRepository.get read_datetime s.tables tenant_id document_id with
    | .ok (some document) =>
      some { s with copies := fun i => if i = call then some document else s.copies i }
    | _ => none
  | .Upload document version db_now =>
    if version.document_id = document.id ∧ document.current_version_id = some version.id then
      (SqlAlchemyDocumentRepository.add dump_datetime s.tables db_now document version).toOption.map
        (fun tables => { s with tables })
    else none
  | .AddVersion call version db_now updated_at => do
    let document ← s.copies call
    if version.document_id = document.id then
      (SqlAlchemyDocumentRepository.add_version s.tables db_now updated_at
        { document with current_version_id := some version.id } version).toOption.map
          (fun tables => { s with tables })
    else none
  | .UpdateMetadata call data updated_at =>
    s.updated dump_datetime call (UpdateDocumentMetadataUseCase.merged data) updated_at
  | .Delete call now updated_at =>
    s.updated dump_datetime call (DeleteDocumentUseCase.marked now) updated_at
  | .Process call updated_at =>
    s.updated dump_datetime call ProcessDocumentUseCase.processed updated_at

/-- The metadata that a step writes. -/
def Action.written (s : Application) : Action → Option Json
  | .Get _ _ _ => none
  | .Upload document _ _ => some (document.metadata.model_dump dump_datetime)
  | .AddVersion _ _ _ _ => none
  | .UpdateMetadata call data _ => (s.copies call).map (fun document =>
      (UpdateDocumentMetadataUseCase.merged data document).metadata.model_dump dump_datetime)
  | .Delete call _ _ =>
    (s.copies call).map (fun document => document.metadata.model_dump dump_datetime)
  | .Process call _ =>
    (s.copies call).map (fun document => document.metadata.model_dump dump_datetime)

/-- What a step does to the tables and the copies. -/
inductive Effect (s : Application) : Action → Application → Prop
  | read {call : Nat} {tenant_id : String} {document_id : UUID} {document : KnowledgeDocument}
      (hget : SqlAlchemyDocumentRepository.get read_datetime s.tables tenant_id document_id =
        .ok (some document)) :
      Effect s (.Get call tenant_id document_id)
        { s with copies := fun i => if i = call then some document else s.copies i }
  | uploaded {document : KnowledgeDocument} {version : KnowledgeDocumentVersion} {db_now : DateTime}
      (hdocument : version.document_id = document.id)
      (hpointer : document.current_version_id = some version.id)
      (hfresh : document.id ∉ s.tables.documents.map KnowledgeDocumentRow.id)
      (hnew : version.id ∉ s.tables.versions.map KnowledgeDocumentVersionRow.id) :
      Effect s (.Upload document version db_now) { s with tables := {
        documents := s.tables.documents ++ [doc_to_model dump_datetime db_now document]
        versions := s.tables.versions ++ [version_to_model db_now version] } }
  | added {call : Nat} {document : KnowledgeDocument} {version : KnowledgeDocumentVersion}
      {db_now updated_at : DateTime} (hcopy : s.copies call = some document)
      (hdocument : version.document_id = document.id)
      (hnew : version.id ∉ s.tables.versions.map KnowledgeDocumentVersionRow.id) :
      Effect s (.AddVersion call version db_now updated_at) { s with tables := {
        documents := modify KnowledgeDocumentRow.id document.id (fun model => { model with
          current_version_id := some version.id
          status := document.status.value
          updated_at }) s.tables.documents
        versions := s.tables.versions ++ [version_to_model db_now version] } }
  | written {action : Action} {call : Nat} {document changed : KnowledgeDocument}
      {updated_at : DateTime} (hcopy : s.copies call = some document)
      (hid : changed.id = document.id)
      (hpointer : changed.current_version_id = document.current_version_id)
      (hwritten : action.written dump_datetime s =
        some (changed.metadata.model_dump dump_datetime)) :
      Effect s action { s with
        tables := SqlAlchemyDocumentRepository.update dump_datetime s.tables updated_at changed }

end Steps

/-! ## What a step can do -/

section Effects

variable {read_datetime : Json → Option DateTime} {dump_datetime : DateTime → Json}
  {s s' : Application}

theorem effect_of_step {action : Action}
    (h : s.step read_datetime dump_datetime action = some s') :
    Effect read_datetime dump_datetime s action s' := by
  cases action with
  | Get call tenant_id document_id =>
    simp only [Application.step] at h
    split at h
    · rename_i document hget
      cases h
      exact .read hget
    · cases h
  | Upload document version db_now =>
    simp only [Application.step] at h
    obtain ⟨⟨hdocument, hpointer⟩, h⟩ := Option.ite_none_right_eq_some.mp h
    obtain ⟨tables, hadd, rfl⟩ := Option.map_eq_some_iff.mp h
    obtain ⟨documents, hinsert, hadd⟩ := bind_eq_ok.mp (ok_of_toOption hadd)
    obtain ⟨hfresh, rfl⟩ := insert_unique_ok.mp hinsert
    obtain ⟨_, hnew, rfl⟩ := insert_version_ok hadd
    exact .uploaded hdocument hpointer hfresh hnew
  | AddVersion call version db_now updated_at =>
    simp only [Application.step] at h
    obtain ⟨document, hcopy, h⟩ := Option.bind_eq_some_iff.mp h
    obtain ⟨hdocument, h⟩ := Option.ite_none_right_eq_some.mp h
    obtain ⟨tables, hadd, rfl⟩ := Option.map_eq_some_iff.mp h
    obtain ⟨t, hinsert, hmodify⟩ := bind_eq_ok.mp (ok_of_toOption hadd)
    obtain ⟨_, hnew, rfl⟩ := insert_version_ok hinsert
    obtain rfl := Except.ok.inj hmodify
    have heffect : Effect read_datetime dump_datetime s
        (.AddVersion call version db_now updated_at) _ := .added hcopy hdocument hnew
    exact heffect
  | UpdateMetadata call data updated_at =>
    obtain ⟨document, hcopy, rfl⟩ := Option.map_eq_some_iff.mp h
    exact .written hcopy rfl rfl (by simp only [Action.written, hcopy, Option.map_some])
  | Delete call now updated_at =>
    obtain ⟨document, hcopy, rfl⟩ := Option.map_eq_some_iff.mp h
    exact .written hcopy rfl rfl (by simp only [Action.written, hcopy]; rfl)
  | Process call updated_at =>
    obtain ⟨document, hcopy, rfl⟩ := Option.map_eq_some_iff.mp h
    exact .written hcopy rfl rfl (by simp only [Action.written, hcopy]; rfl)

end Effects

/-! ## The pointers -/

/-- The pointer designates a version of the document. -/
def Points (t : Tables) (document_id : UUID) (pointer : Option UUID) : Prop :=
  ∃ v ∈ t.versions, pointer = some v.id ∧ v.document_id = document_id

/-- Version ids are distinct, and every row and every copy points at a version of its
document. -/
structure Pointed (s : Application) : Prop where
  keyed : Keyed KnowledgeDocumentVersionRow.id s.tables.versions
  rows : ∀ m ∈ s.tables.documents, Points s.tables m.id m.current_version_id
  copies : ∀ call document, s.copies call = some document →
    Points s.tables document.id document.current_version_id

variable {read_datetime : Json → Option DateTime} {dump_datetime : DateTime → Json}
  {s s' : Application} {t t' : Tables}

theorem Points.mono {document_id : UUID} {pointer : Option UUID} (h : Points t document_id pointer)
    (hversions : ∀ v ∈ t.versions, v ∈ t'.versions) : Points t' document_id pointer := by
  obtain ⟨v, hv, hpointer, hdocument⟩ := h
  exact ⟨v, hversions v hv, hpointer, hdocument⟩

/-- A new version of a fresh id keeps the ids distinct. -/
theorem keyed_new_version {row : KnowledgeDocumentVersionRow}
    (hk : Keyed KnowledgeDocumentVersionRow.id t.versions)
    (hnew : row.id ∉ t.versions.map KnowledgeDocumentVersionRow.id) :
    Keyed KnowledgeDocumentVersionRow.id (t.versions ++ [row]) :=
  keyed_append _ hk (fun _ hv hid => hnew (hid ▸ List.mem_map_of_mem hv))

/-- A write of a copy that points at a version keeps the pointers of the rows. -/
theorem rows_after_update {updated_at : DateTime} {document : KnowledgeDocument}
    (hrows : ∀ m ∈ t.documents, Points t m.id m.current_version_id)
    (hdocument : Points t document.id document.current_version_id) :
    ∀ m ∈ (SqlAlchemyDocumentRepository.update dump_datetime t updated_at document).documents,
      Points t m.id m.current_version_id := by
  intro m hm
  obtain ⟨r, hr, rfl⟩ := (mem_modify _).mp hm
  split
  · rename_i hid
    unfold SqlAlchemyDocumentRepository.update_columns
    split
    · exact hrows r hr
    · rw [hid]
      exact hdocument
  · exact hrows r hr

/-- The copy that `get` returns points where its row does. -/
theorem points_of_get (hrows : ∀ m ∈ t.documents, Points t m.id m.current_version_id)
    {tenant_id : String} {document_id : UUID} {document : KnowledgeDocument}
    (h : SqlAlchemyDocumentRepository.get read_datetime t tenant_id document_id =
      .ok (some document)) : Points t document.id document.current_version_id := by
  obtain ⟨m, hm, _, _, _, hread⟩ := get_row h
  obtain ⟨_, _, hentity⟩ := read_ok.mp hread
  obtain ⟨_, _, _, _, _, _, rfl⟩ := doc_to_entity_ok.mp hentity
  exact hrows m hm

theorem pointed_of_effect {action : Action} (hp : Pointed s)
    (h : Effect read_datetime dump_datetime s action s') : Pointed s' := by
  cases h with
  | @read call _ _ document hget =>
    refine ⟨hp.keyed, hp.rows, ?_⟩
    intro i copy hcopy
    simp only at hcopy
    by_cases hi : i = call
    · rw [if_pos hi] at hcopy
      obtain rfl := Option.some.inj hcopy
      exact points_of_get hp.rows hget
    · rw [if_neg hi] at hcopy
      exact hp.copies i copy hcopy
  | @uploaded document version db_now hdocument hpointer _ hnew =>
    have hversions : ∀ v ∈ s.tables.versions,
        v ∈ s.tables.versions ++ [version_to_model db_now version] :=
      fun v hv => List.mem_append_left _ hv
    refine ⟨keyed_new_version hp.keyed hnew, ?_,
      fun i copy hcopy => (hp.copies i copy hcopy).mono hversions⟩
    intro m hm
    rcases List.mem_append.mp hm with hm | hm
    · exact (hp.rows m hm).mono hversions
    · obtain rfl := List.mem_singleton.mp hm
      exact ⟨version_to_model db_now version, by simp, hpointer, hdocument⟩
  | @added call document version db_now updated_at hcopy hdocument hnew =>
    have hversions : ∀ v ∈ s.tables.versions,
        v ∈ s.tables.versions ++ [version_to_model db_now version] :=
      fun v hv => List.mem_append_left _ hv
    refine ⟨keyed_new_version hp.keyed hnew, ?_,
      fun i copy hcopy => (hp.copies i copy hcopy).mono hversions⟩
    intro m hm
    obtain ⟨r, hr, rfl⟩ := (mem_modify _).mp hm
    split
    · rename_i hid
      exact ⟨version_to_model db_now version, by simp, rfl, hdocument.trans hid.symm⟩
    · exact (hp.rows r hr).mono hversions
  | written hcopy hid hpointer _ =>
    have hpoints := hp.copies _ _ hcopy
    rw [← hid, ← hpointer] at hpoints
    exact ⟨hp.keyed, rows_after_update hp.rows hpoints, hp.copies⟩

theorem pointed_of_run {actions : List Action} (hp : Pointed s)
    (h : run (fun s action => s.step read_datetime dump_datetime action) s actions = some s') :
    Pointed s' :=
  run_invariant (fun _ _ _ hp h => pointed_of_effect hp (effect_of_step h)) hp h

/-! ## The keys -/

/-- No step repeats a key or gives a version metadata that is no object. -/
theorem stored_of_effect {action : Action} (hs : Stored s.tables)
    (h : Effect read_datetime dump_datetime s action s') : Stored s'.tables := by
  have hnew_object : ∀ version db_now, ∀ v ∈ s.tables.versions ++ [version_to_model db_now version],
      ∃ fields, v.metadata = .object fields := by
    intro version db_now v hv
    rcases List.mem_append.mp hv with hv | hv
    · exact hs.objects v hv
    · obtain rfl := List.mem_singleton.mp hv
      exact ⟨version.metadata, rfl⟩
  cases h with
  | read _ => exact hs
  | uploaded _ _ hfresh hnew =>
    exact ⟨keyed_append _ hs.documents
        (fun m hm hid => hfresh (List.mem_map.mpr ⟨m, hm, hid⟩)),
      keyed_new_version hs.versions hnew, hnew_object _ _⟩
  | added _ _ hnew =>
    exact ⟨keyed_modify _ (fun _ hid => hid) hs.documents, keyed_new_version hs.versions hnew,
      hnew_object _ _⟩
  | written _ _ _ _ => exact ⟨keyed_update hs.documents _ _, hs.versions, hs.objects⟩

theorem stored_of_run {actions : List Action} (hs : Stored s.tables)
    (h : run (fun s action => s.step read_datetime dump_datetime action) s actions = some s') :
    Stored s'.tables :=
  run_invariant (I := fun s => Stored s.tables)
    (fun _ _ _ hs h => stored_of_effect hs (effect_of_step h)) hs h

end cortex_rag.migrations
