-- What the document store is for, told without rows, sessions or faults: a
-- catalogue of documents, each with the versions that it has had.
import CortexRag.Refinements
import CortexRag.Service

open keyed_rows refinements

namespace cortex_rag.catalogue

/-! ## The catalogue -/

/-- How far a document has come. -/
inductive Stage where
  | Uploaded
  | Processed
  | Deleted (at_ : DateTime)
deriving DecidableEq

/-- A document with its versions, the newest first. Their numbers have no gap,
and each of them is a version of this document. -/
structure Entry where
  id : UUID
  tenant_id : String
  title : String
  source_type : SourceType
  knowledge_space_id : Option UUID
  stage : Stage
  metadata : KnowledgeMetadata
  created_by : Option String
  created_at : DateTime
  updated_at : DateTime
  newest : KnowledgeDocumentVersion
  older : List KnowledgeDocumentVersion
  numbered : (newest :: older).map (fun v => v.version_number) =
    (List.range' 1 (older.length + 1)).reverse
  owned : ∀ v ∈ newest :: older, v.document_id = id
deriving DecidableEq

abbrev Catalogue := List Entry

namespace Entry

def versions (entry : Entry) : List KnowledgeDocumentVersion := entry.newest :: entry.older

def live (entry : Entry) : Bool :=
  match entry.stage with
  | .Deleted _ => false
  | _ => true

/-- The document that the entry shows. -/
def document (entry : Entry) : KnowledgeDocument where
  id := entry.id
  tenant_id := entry.tenant_id
  title := entry.title
  source_type := entry.source_type
  knowledge_space_id := entry.knowledge_space_id
  current_version_id := some entry.newest.id
  status := match entry.stage with
    | .Uploaded => .Uploaded
    | .Processed => .Processed
    | .Deleted _ => .Deleted
  metadata := entry.metadata
  created_by := entry.created_by
  created_at := some entry.created_at
  updated_at := some entry.updated_at
  deleted_at := match entry.stage with
    | .Deleted at_ => some at_
    | _ => none
  active_version := some entry.newest

def view (entry : Entry) : DocumentView := DocumentView.from_document entry.document

/-- A change of an entry is dated, unless it changes nothing. -/
def dated (now : DateTime) (old new : Entry) : Entry :=
  if new = old then old else { new with updated_at := now }

/-- The entry with one more version, which becomes the newest. -/
def revised (entry : Entry) (version : KnowledgeDocumentVersion)
    (hnumber : version.version_number = entry.older.length + 2)
    (howner : version.document_id = entry.id) : Entry :=
  { entry with
    newest := version
    older := entry.versions
    numbered := by
      have h := entry.numbered
      have hrange : List.range' 1 (entry.older.length + 2) =
          List.range' 1 (entry.older.length + 1) ++ [entry.older.length + 2] := by
        rw [List.range'_1_concat, Nat.add_comm 1]
      rw [versions, List.map_cons, List.length_cons, h, hnumber, hrange, List.reverse_append]
      rfl
    owned := by
      intro v hv
      rcases List.mem_cons.mp hv with rfl | hv
      · exact howner
      · exact entry.owned v hv }

/-- The fields that a change of metadata gives replace those of the entry. -/
def described (data : UpdateDocumentMetadataInput) (entry : Entry) : Entry :=
  { entry with
    metadata := data.metadata.getD entry.metadata
    title := data.title.getD entry.title
    knowledge_space_id := data.knowledge_space_id.or entry.knowledge_space_id }

def processed (now : DateTime) (entry : Entry) : Entry :=
  entry.dated now { entry with stage := .Processed }

end Entry

/-! ## What a call asks for -/

/-- The document that a call on one document names. -/
def named : Operation → Option UUID
  | .AddVersion data => some data.document_id
  | .Get data => some data.document_id
  | .ListVersions data => some data.document_id
  | .UpdateMetadata data => some data.document_id
  | .Delete data => some data.document_id
  | _ => none

/-- The calls that the catalogue answers. -/
def answered : Operation → Bool
  | .Upload _ | .List _ => true
  | operation => (named operation).isSome

/-- The live entry of the tenant with the id. -/
def lookup (c : Catalogue) (tenant_id : String) (document_id : UUID) : Option Entry :=
  c.find? (fun entry => entry.id = document_id ∧ entry.tenant_id = tenant_id ∧ entry.live)

/-- The entry is live, of the tenant, and has had the content. -/
def Holds (tenant_id checksum : String) (entry : Entry) : Prop :=
  entry.tenant_id = tenant_id ∧ entry.live ∧
    ∃ v ∈ entry.versions, v.checksum_sha256 = checksum

/-- The entries of a listing, the newest first. -/
def listing (order : RowOrder) (c : Catalogue) (tenant_id : String)
    (knowledge_space_id : Option UUID) : List Entry :=
  ordered (fun a b : Entry => b.created_at.le a.created_at) order Entry.id
    (c.filter (fun entry => entry.tenant_id = tenant_id ∧ entry.live ∧
      (knowledge_space_id = none ∨ entry.knowledge_space_id = knowledge_space_id)))

/-- The entry with the id of `new` becomes `new`. -/
def replaced (c : Catalogue) (new : Entry) : Catalogue := modify Entry.id new.id (fun _ => new) c

section Serving

variable (P : Providers) (settings : Settings) (m : Moment)

/-- A version of a file, as it reads back from the store. -/
def version_of (tenant_id : String) (document_id : UUID) (number : Nat)
    (original_filename content_type extension : String) (content : Bytes)
    (uploaded_by : Option String) : KnowledgeDocumentVersion where
  id := m.ids.version
  document_id
  version_number := number
  original_filename
  filename := m.ids.version.str ++ "." ++ extension
  extension
  mime_type := content_type
  size := content.length
  checksum_sha256 := P.sha256_hex content
  storage_provider := .Local
  storage_path := build_document_version_key tenant_id document_id m.ids.version extension
    (m.clock 0)
  uploaded_by
  created_at := some m.db_now

/-- The entry of an upload: one version, under the name of the file. -/
def uploaded (data : UploadDocumentInput) (extension : String) : Entry where
  id := m.ids.document
  tenant_id := data.tenant_id
  title := data.original_filename
  source_type := SourceType.from_extension extension
  knowledge_space_id := data.knowledge_space_id
  stage := .Uploaded
  metadata := {}
  created_by := data.uploaded_by
  created_at := m.db_now
  updated_at := m.db_now
  newest := version_of P m data.tenant_id m.ids.document 1 data.original_filename
    data.content_type extension data.content data.uploaded_by
  older := []
  numbered := rfl
  owned := by simp [version_of]

/-- The version that an addition to the entry brings. -/
def added (data : AddDocumentVersionInput) (extension : String) (entry : Entry) :
    KnowledgeDocumentVersion :=
  version_of P m data.tenant_id entry.id (entry.older.length + 2) data.original_filename
    data.content_type extension data.content data.uploaded_by

/-- The answer to a call on the catalogue, and the catalogue after it. The view
of an upload or of an addition shows the time of the caller's clock. -/
inductive Serves (c : Catalogue) : Operation → Except DomainError Response → Catalogue → Prop where
  | uploaded (data : UploadDocumentInput) (extension : String) :
    validate_upload settings.upload data.original_filename data.content data.content_type =
      .ok extension →
    (∀ entry ∈ c, ¬ Holds data.tenant_id (P.sha256_hex data.content) entry) →
    (∀ entry ∈ c, entry.id ≠ m.ids.document) →
    Serves c (.Upload data)
      (.ok (.Document { (uploaded P m data extension).view with
        created_at := some (m.clock 0), updated_at := some (m.clock 0) }))
      (c ++ [uploaded P m data extension])
  | duplicate (data : UploadDocumentInput) (extension : String) (entry : Entry) :
    validate_upload settings.upload data.original_filename data.content data.content_type =
      .ok extension →
    entry ∈ c → Holds data.tenant_id (P.sha256_hex data.content) entry →
    Serves c (.Upload data) (.error (.ConflictError ("Document already exists with checksum " ++
      P.sha256_hex data.content ++ " (id=" ++ entry.id.str ++ ")."))) c
  | invalid_upload (data : UploadDocumentInput) (e : DomainError) :
    validate_upload settings.upload data.original_filename data.content data.content_type =
      .error e →
    Serves c (.Upload data) (.error e) c
  | version_added (data : AddDocumentVersionInput) (extension : String) (entry : Entry) :
    lookup c data.tenant_id data.document_id = some entry →
    validate_upload settings.upload data.original_filename data.content data.content_type =
      .ok extension →
    Serves c (.AddVersion data)
      (.ok (.Version { added P m data extension entry with created_at := some (m.clock 0) }))
      (replaced c { entry.revised (added P m data extension entry) rfl rfl with
        updated_at := m.db_now })
  | invalid_version (data : AddDocumentVersionInput) (entry : Entry) (e : DomainError) :
    lookup c data.tenant_id data.document_id = some entry →
    validate_upload settings.upload data.original_filename data.content data.content_type =
      .error e →
    Serves c (.AddVersion data) (.error e) c
  | got (data : GetDocumentInput) (entry : Entry) :
    lookup c data.tenant_id data.document_id = some entry →
    Serves c (.Get data) (.ok (.Document entry.view)) c
  | listed (data : ListDocumentsInput) (entries : List Entry) :
    entries = listing m.order c data.tenant_id data.knowledge_space_id →
    Serves c (.List data)
      (.ok (.Documents {
        items := (page data.limit data.offset entries).map Entry.view
        total := entries.length
        limit := data.limit
        offset := data.offset })) c
  | versions_listed (data : GetDocumentInput) (entry : Entry) :
    lookup c data.tenant_id data.document_id = some entry →
    Serves c (.ListVersions data) (.ok (.Versions entry.versions)) c
  | described (data : UpdateDocumentMetadataInput) (entry : Entry) :
    lookup c data.tenant_id data.document_id = some entry →
    Serves c (.UpdateMetadata data) (.ok (.Document (entry.described data).view))
      (replaced c (entry.dated m.db_now (entry.described data)))
  | deleted (data : GetDocumentInput) (entry : Entry) :
    lookup c data.tenant_id data.document_id = some entry →
    Serves c (.Delete data) (.ok .Done)
      (replaced c { entry with stage := .Deleted (m.clock 0), updated_at := m.db_now })
  | no_document (operation : Operation) (document_id : UUID) :
    named operation = some document_id → lookup c operation.tenant_id document_id = none →
    Serves c operation (.error (.EntityNotFoundError
      ("Document " ++ document_id.str ++ " not found."))) c

end Serving

/-- The steps of the catalogue, by the call and its result. Without a fault a
call on documents is answered; a call that fails leaves the catalogue as it is,
and an ingestion that ends well marks its document. -/
inductive Step (P : Providers) (settings : Settings) (c : Catalogue) :
    Request × Except Interruption Response → Catalogue → Prop where
  | served (r : Request) (answer : Except DomainError Response) (c' : Catalogue) :
    Serves P settings r.moment c r.operation answer c' →
    Step P settings c (r, answer.mapError (fun e => .Raised (.Domain e))) c'
  | failed (r : Request) (i : Interruption) :
    (∃ fault ∈ r.moment.faults, fault ≠ none) → Step P settings c (r, .error i) c
  | processed (r : Request) (data : GetDocumentInput) (entry : Entry) :
    r.operation = .Process data → lookup c data.tenant_id data.document_id = some entry →
    Step P settings c (r, .ok .Done) (replaced c (entry.processed r.moment.db_now))
  | handled (r : Request) (message : Message) (document_id : UUID) (entry : Entry) :
    r.operation = .Handle message → lookup c message.tenant_id document_id = some entry →
    Step P settings c (r, .ok .Done) (replaced c (entry.processed r.moment.db_now))
  | aside (r : Request) (result : Except Interruption Response) :
    answered r.operation = false →
    (∀ data response, r.operation = .Process data → result ≠ .ok response) →
    Step P settings c (r, result) c

/-! ## What the catalogue keeps -/

/-- What a later catalogue has in the place of an entry: the same document, whose
versions lie under the new ones, and the same entry once it is deleted. -/
structure Succeeds (old new : Entry) : Prop where
  id : new.id = old.id
  tenant_id : new.tenant_id = old.tenant_id
  source_type : new.source_type = old.source_type
  created_by : new.created_by = old.created_by
  created_at : new.created_at = old.created_at
  versions : old.versions <:+ new.versions
  deleted : old.live = false → new = old

/-- Each entry has its successor, in the same place. -/
def Grows (old new : Catalogue) : Prop :=
  ∀ (i : Nat) (entry : Entry), old[i]? = some entry →
    ∃ later, new[i]? = some later ∧ Succeeds entry later

theorem succeeds_refl (entry : Entry) : Succeeds entry entry :=
  ⟨rfl, rfl, rfl, rfl, rfl, List.suffix_rfl, fun _ => rfl⟩

theorem succeeds_trans {a b c : Entry} (h : Succeeds a b) (h' : Succeeds b c) : Succeeds a c where
  id := h'.id.trans h.id
  tenant_id := h'.tenant_id.trans h.tenant_id
  source_type := h'.source_type.trans h.source_type
  created_by := h'.created_by.trans h.created_by
  created_at := h'.created_at.trans h.created_at
  versions := h.versions.trans h'.versions
  deleted := by
    intro hdeleted
    have hb := h.deleted hdeleted
    subst hb
    exact h'.deleted hdeleted

theorem grows_refl (c : Catalogue) : Grows c c := fun _ entry h => ⟨entry, h, succeeds_refl entry⟩

theorem grows_trans {a b c : Catalogue} (h : Grows a b) (h' : Grows b c) : Grows a c := by
  intro i entry hentry
  obtain ⟨next, hnext, hsucceeds⟩ := h i entry hentry
  obtain ⟨new, hnew, hsucceeds'⟩ := h' i next hnext
  exact ⟨new, hnew, succeeds_trans hsucceeds hsucceeds'⟩

variable {c c' : Catalogue} {entry : Entry}

theorem mem_of_lookup {tenant_id : String} {document_id : UUID}
    (hlookup : lookup c tenant_id document_id = some entry) :
    entry ∈ c ∧ entry.id = document_id ∧ entry.tenant_id = tenant_id ∧ entry.live = true := by
  unfold lookup at hlookup
  have hp := List.find?_some hlookup
  rw [decide_eq_true_eq] at hp
  exact ⟨List.mem_of_find?_eq_some hlookup, hp⟩

theorem grows_append (c : Catalogue) (entry : Entry) : Grows c (c ++ [entry]) := by
  intro i old hold
  obtain ⟨hi, _⟩ := List.getElem?_eq_some_iff.mp hold
  exact ⟨old, (List.getElem?_append_left hi).trans hold, succeeds_refl old⟩

/-- Another entry in the place of a live one, which it succeeds. -/
theorem replaced_keeps (hkeyed : Keyed Entry.id c) {tenant_id : String} {document_id : UUID}
    (hlookup : lookup c tenant_id document_id = some entry) {new : Entry}
    (h : Succeeds entry new) : Keyed Entry.id (replaced c new) ∧ Grows c (replaced c new) := by
  obtain ⟨hentry, _, _, _⟩ := mem_of_lookup hlookup
  refine ⟨keyed_modify _ (fun _ _ => rfl) hkeyed, ?_⟩
  intro i old hold
  unfold replaced keyed_rows.modify
  rw [List.getElem?_map, hold]
  refine ⟨_, rfl, ?_⟩
  dsimp only
  split
  · rename_i hid
    obtain rfl := eq_of_key _ hkeyed (List.mem_of_getElem? hold) hentry (hid.trans h.id)
    exact h
  · exact succeeds_refl old

/-- A change of a live entry that keeps what no call changes. -/
theorem succeeds_of_live (hlive : entry.live = true) {new : Entry} (hid : new.id = entry.id)
    (htenant : new.tenant_id = entry.tenant_id) (hsource : new.source_type = entry.source_type)
    (hcreator : new.created_by = entry.created_by) (hcreated : new.created_at = entry.created_at)
    (hversions : entry.versions <:+ new.versions) : Succeeds entry new :=
  ⟨hid, htenant, hsource, hcreator, hcreated, hversions, fun hdead => by
    rw [hlive] at hdead
    cases hdead⟩

theorem succeeds_dated {new : Entry} (now : DateTime) (h : Succeeds entry new) :
    Succeeds entry (entry.dated now new) := by
  unfold Entry.dated
  split
  · exact succeeds_refl entry
  · refine { h with deleted := ?_ }
    intro hdeleted
    exact absurd (h.deleted hdeleted) ‹_›

variable {P : Providers} {settings : Settings} {m : Moment}

theorem serves_keeps {operation : Operation} {answer : Except DomainError Response}
    (h : Serves P settings m c operation answer c') (hkeyed : Keyed Entry.id c) :
    Keyed Entry.id c' ∧ Grows c c' := by
  cases h with
  | uploaded data extension _ _ hnew =>
    exact ⟨keyed_append _ hkeyed hnew, grows_append c _⟩
  | version_added data extension entry hlookup =>
    refine replaced_keeps hkeyed hlookup ?_
    exact succeeds_of_live (mem_of_lookup hlookup).2.2.2 rfl rfl rfl rfl rfl
      (List.suffix_cons _ _)
  | described data entry hlookup =>
    refine replaced_keeps hkeyed hlookup (succeeds_dated m.db_now ?_)
    exact succeeds_of_live (mem_of_lookup hlookup).2.2.2 rfl rfl rfl rfl rfl List.suffix_rfl
  | deleted data entry hlookup =>
    refine replaced_keeps hkeyed hlookup ?_
    exact succeeds_of_live (mem_of_lookup hlookup).2.2.2 rfl rfl rfl rfl rfl List.suffix_rfl
  | duplicate | invalid_upload | invalid_version | got | listed | versions_listed | no_document =>
    exact ⟨hkeyed, grows_refl c⟩

theorem step_keeps {turn : Request × Except Interruption Response}
    (h : Step P settings c turn c') (hkeyed : Keyed Entry.id c) :
    Keyed Entry.id c' ∧ Grows c c' := by
  have hprocessed : ∀ {tenant_id document_id entry now},
      lookup c tenant_id document_id = some entry →
      Keyed Entry.id (replaced c (entry.processed now)) ∧
        Grows c (replaced c (entry.processed now)) := by
    intro tenant_id document_id entry now hlookup
    refine replaced_keeps hkeyed hlookup (succeeds_dated now ?_)
    exact succeeds_of_live (mem_of_lookup hlookup).2.2.2 rfl rfl rfl rfl rfl List.suffix_rfl
  cases h with
  | served r answer _ hserves => exact serves_keeps hserves hkeyed
  | failed => exact ⟨hkeyed, grows_refl c⟩
  | processed r data entry _ hlookup => exact hprocessed hlookup
  | handled r message document_id entry _ hlookup => exact hprocessed hlookup
  | aside => exact ⟨hkeyed, grows_refl c⟩

/-- In every run the entries stay in their places, with all their versions. -/
theorem runs_keep {turns : List (Request × Except Interruption Response)}
    (hrun : Runs (Step P settings) c turns c') (hkeyed : Keyed Entry.id c) :
    Keyed Entry.id c' ∧ Grows c c' := by
  revert hkeyed
  refine runs_relate (fun c c' => Keyed Entry.id c → Keyed Entry.id c' ∧ Grows c c')
    (fun c hc => ⟨hc, grows_refl c⟩) ?_ (fun _ _ _ h => step_keeps h) hrun
  intro a b c hab hbc ha
  obtain ⟨hb, hgrows⟩ := hab ha
  obtain ⟨hc, hgrows'⟩ := hbc hb
  exact ⟨hc, grows_trans hgrows hgrows'⟩

end cortex_rag.catalogue
