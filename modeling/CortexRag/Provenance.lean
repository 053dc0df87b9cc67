-- The law of provenance: what a search finds and what the LLM reads is a chunk of
-- bytes that the tenant has sent for one of its documents, in a request that was
-- answered, and an answer names as its sources what the LLM has read for it.
import CortexRag.HistoryWindow
import CortexRag.StoreMoves
import CortexRag.TenantViews
import Mathlib.Data.List.Forall2

open keyed_rows labelled_runs state_programs

namespace cortex_rag.provenance

open service

/-! ## What has been sent -/

/-- The request brings these bytes for the document of the tenant, as this type. -/
inductive Sends : Request → String → UUID → Bytes → String → Prop
  | upload (m : Moment) (data : UploadDocumentInput) :
      Sends ⟨m, .Upload data⟩ data.tenant_id m.ids.document data.content data.content_type
  | version (m : Moment) (data : AddDocumentVersionInput) :
      Sends ⟨m, .AddVersion data⟩ data.tenant_id data.document_id data.content data.content_type

variable {P : Providers} {settings : Settings} {w w' : World} {r : Request} {rs : List Request}

section Sent

variable (P : Providers) (settings : Settings) (rs : List Request)

/-- The request is one of the run, and it was answered and not refused. -/
def Accepted (r : Request) : Prop :=
  ∃ pre post u response, rs = pre ++ r :: post ∧
    run (World.step P settings) {} pre = some u ∧ (u.perform P settings r).1 = .ok response

/-- The bytes have been sent for the document. -/
def Delivered (tenant_id : String) (document_id : UUID) (content : Bytes) (mime_type : String) :
    Prop :=
  ∃ r, Accepted P settings rs r ∧ Sends r tenant_id document_id content mime_type

/-- The text is the chunk of this number of bytes that have been sent for the
document. -/
def Sent (tenant_id : String) (document_id : UUID) (chunk_index : Nat) (text : String) : Prop :=
  ∃ content mime_type parsed, Delivered P settings rs tenant_id document_id content mime_type ∧
    P.parse content mime_type = .ok parsed ∧
    (P.split_text {} parsed.text)[chunk_index]? = some text

/-- The id is that of a chunk that has been sent with this text. -/
def Cites (tenant_id : String) (chunk_id : UUID) (text : String) : Prop :=
  ∃ document_id chunk_index, chunk_id = chunk_vector_id P document_id chunk_index ∧
    Sent P settings rs tenant_id document_id chunk_index text

end Sent

theorem accepted_more (more : List Request) (h : Accepted P settings rs r) :
    Accepted P settings (rs ++ more) r := by
  obtain ⟨pre, post, u, response, rfl, hrun, hok⟩ := h
  exact ⟨pre, post ++ more, u, response, by simp, hrun, hok⟩

theorem delivered_more {tenant_id : String} {document_id : UUID} {content : Bytes}
    {mime_type : String} (more : List Request)
    (h : Delivered P settings rs tenant_id document_id content mime_type) :
    Delivered P settings (rs ++ more) tenant_id document_id content mime_type := by
  obtain ⟨r, hr, hsends⟩ := h
  exact ⟨r, accepted_more more hr, hsends⟩

theorem cites_more {tenant_id : String} {chunk_id : UUID} {text : String} (more : List Request)
    (h : Cites P settings rs tenant_id chunk_id text) :
    Cites P settings (rs ++ more) tenant_id chunk_id text := by
  obtain ⟨document_id, chunk_index, hid, content, mime_type, parsed, hdelivered, htext⟩ := h
  exact ⟨document_id, chunk_index, hid, content, mime_type, parsed, delivered_more more hdelivered,
    htext⟩

/-! ## The stores -/

/-- Every version holds bytes that have been sent for its document, and every
point of the index holds a chunk that has been sent. -/
structure Traced (P : Providers) (settings : Settings) (rs : List Request) (w : World) : Prop where
  versions : ∀ v ∈ w.db.versions, ∀ tenant_id, (v.document_id, tenant_id) ∈ owners w.db →
    ∃ content, w.blobs v.storage_path = some content ∧
      Delivered P settings rs tenant_id v.document_id content v.mime_type
  points : ∀ p ∈ w.points, Cites P settings rs p.payload.tenant_id p.id p.payload.content

theorem traced_init : Traced P settings [] {} := by
  constructor <;> simp

theorem traced_more (more : List Request) (h : Traced P settings rs w) :
    Traced P settings (rs ++ more) w := by
  refine ⟨?_, fun p hp => cites_more more (h.points p hp)⟩
  intro v hv tenant_id howner
  obtain ⟨content, hcontent, hdelivered⟩ := h.versions v hv tenant_id howner
  exact ⟨content, hcontent, delivered_more more hdelivered⟩

/-- The version that an ingestion run reads is a stored one of the document. -/
theorem active_version_row {issued : List UUID} {db : Database} (h : RowsSound db issued)
    {tenant_id : String} {document_id : UUID} {document : KnowledgeDocument}
    {version : KnowledgeDocumentVersion}
    (hget : SqlAlchemyDocumentRepository.get db tenant_id document_id = some document)
    (hactive : document.active_version = some version) :
    ∃ v ∈ db.versions, version = version_to_entity v ∧ v.document_id = document.id := by
  obtain ⟨row, hrow, _, _, _, rfl⟩ := SqlAlchemyDocumentRepository.get_row hget
  obtain ⟨v, hv, hpointer, howner⟩ := h.pointed row hrow
  refine ⟨v, hv, ?_, howner⟩
  simp only [doc_to_entity, SqlAlchemyDocumentRepository.load_version, hpointer,
    find_of_mem _ h.versions hv, Option.map_some, Option.some.injEq] at hactive
  exact hactive.symm

/-- A point of the index after the chunks of a text have been stored is an old one,
or the chunk of its number. -/
theorem chunk_of_indexed {tenant_id text : String} {d : UUID} {before after : List VectorPoint}
    (h : Indexed P tenant_id d (RecursiveChunkingStrategy.split P text {}) before after)
    {p : VectorPoint} (hp : p ∈ after) :
    p ∈ before ∨ (p.payload.tenant_id = tenant_id ∧
      p.id = chunk_vector_id P d p.payload.chunk_index ∧
      (P.split_text {} text)[p.payload.chunk_index]? = some p.payload.content) := by
  rcases h with ⟨_, rfl⟩ | ⟨vectors, points, _, hpoints, rfl⟩
  · exact Or.inl hp
  · rcases mem_of_upserts _ hp with hp | hp
    · obtain ⟨chunk, hchunk, vector, _, rfl⟩ := (mem_points_of hpoints).2 p hp
      obtain ⟨c, hc, rfl⟩ := List.mem_map.mp hchunk
      exact Or.inr ⟨rfl, rfl, List.mem_zipIdx_iff_getElem?.mp hc⟩
    · exact Or.inl hp

/-- An ingestion run stores chunks of bytes that have been sent. -/
theorem cites_of_ingested (hs : Sound P w) (h : Traced P settings rs w) {tenant_id : String}
    {document_id : UUID} {document : KnowledgeDocument} {points : List VectorPoint}
    (hi : Ingested P w tenant_id document_id document points) :
    ∀ p ∈ points, Cites P settings rs p.payload.tenant_id p.id p.payload.content := by
  intro p hp
  obtain ⟨version, content, parsed, hactive, hcontent, hparsed, hindexed⟩ := hi.indexed
  rcases chunk_of_indexed hindexed hp with hp | ⟨rfl, hid, htext⟩
  · exact h.points p hp
  · obtain ⟨v, hv, rfl, howner⟩ := active_version_row hs.rows hi.got hactive
    have howned : (v.document_id, p.payload.tenant_id) ∈ owners w.db :=
      howner ▸ (document_id_of_get hi.got).1
    obtain ⟨content', hstored, hdelivered⟩ := h.versions v hv _ howned
    obtain rfl : content' = content := Option.some_inj.mp (hstored.symm.trans hcontent)
    exact ⟨document.id, _, hid, content', v.mime_type, parsed, howner ▸ hdelivered, hparsed, htext⟩

theorem cites_of_left (hs : Sound P w) (h : Traced P settings rs w) {tenant_id : String}
    {document_id : UUID} {points : List VectorPoint}
    (hi : Partial P w tenant_id document_id points) :
    ∀ p ∈ points, Cites P settings rs p.payload.tenant_id p.id p.payload.content := by
  rcases hi with rfl | ⟨document, hi⟩
  · exact h.points
  · exact cites_of_ingested hs h hi

/-- A step that leaves the versions, their owners and the blobs as they are. -/
theorem traced_of_becomes (h : Traced P settings rs w) {db : Database} {points : List VectorPoint}
    (hb : Becomes w w' db w.blobs points) (hversions : db.versions = w.db.versions)
    (howners : owners db = owners w.db)
    (hpoints : ∀ p ∈ points, Cites P settings rs p.payload.tenant_id p.id p.payload.content) :
    Traced P settings rs w' := by
  refine ⟨?_, hb.points ▸ hpoints⟩
  rw [hb.db, hb.blobs, hversions, howners]
  exact h.versions

/-- A step that stores the bytes of a new version. -/
theorem traced_of_stored (h : Traced P settings rs w) {db : Database} {blobs : Blobs}
    {v : KnowledgeDocumentVersionModel} {content : Bytes} (hb : Becomes w w' db blobs w.points)
    (hversions : db.versions = w.db.versions ++ [v])
    (howners : ∀ x ∈ w.db.versions, ∀ t, (x.document_id, t) ∈ owners db →
      (x.document_id, t) ∈ owners w.db)
    (hblobs : ∀ t, SameBlobs t w.db w.blobs blobs) (hcontent : blobs v.storage_path = some content)
    (hdelivered : ∀ t, (v.document_id, t) ∈ owners db →
      Delivered P settings rs t v.document_id content v.mime_type) :
    Traced P settings rs w' := by
  refine ⟨?_, hb.points ▸ h.points⟩
  rw [hb.db, hb.blobs, hversions]
  refine forall_append ?_ ?_
  · intro x hx t howner
    obtain ⟨content', hstored, hsent⟩ := h.versions x hx t (howners x hx t howner)
    exact ⟨content', (hblobs t x hx (howners x hx t howner)).symm.trans hstored, hsent⟩
  · intro t howner
    exact ⟨content, hcontent, hdelivered t howner⟩

/-- A request that has changed the rows was answered. -/
theorem accepted_of_changed (hrun : run (World.step P settings) {} rs = some w)
    (hw : w.step P settings r = some w') (hchanged : w'.db ≠ w.db) :
    Accepted P settings (rs ++ [r]) r := by
  obtain ⟨_, rfl⟩ := step_some.mp hw
  rcases hend : (w.perform P settings r).1 with e | response
  · have hdb : (w.perform P settings r).2.db = (opened w r).db := by
      rw [perform_eq] at hend ⊢
      exact session_error (Prod.ext hend rfl)
    exact absurd hdb hchanged
  · exact ⟨rs, [], w, response, rfl, hrun, hend⟩

/-- A new version changes the rows. -/
theorem changed_of_version {v : KnowledgeDocumentVersionModel}
    (h : w'.db.versions = w.db.versions ++ [v]) : w'.db ≠ w.db := by
  intro he
  rw [he] at h
  have hlength := congrArg List.length h
  rw [List.length_append, List.length_singleton] at hlength
  omega

theorem traced_step (hrun : run (World.step P settings) {} rs = some w) (hs : Sound P w)
    (h : Traced P settings rs w) (hw : w.step P settings r = some w') :
    Traced P settings (rs ++ [r]) w' := by
  have haccepted : w'.db ≠ w.db → Accepted P settings (rs ++ [r]) r :=
    accepted_of_changed hrun hw
  obtain ⟨_, hnew, hm⟩ := moved_of_step hw
  have hversion : ∀ v ∈ w.db.versions, v.id ≠ r.moment.ids.version :=
    ne_of_fresh hs.rows.version_ids (hnew _ (by simp [FreshIds.all]))
  have hdocument : ∀ d ∈ w.db.documents, d.id ≠ r.moment.ids.document :=
    ne_of_fresh hs.rows.document_ids (hnew _ (by simp [FreshIds.all]))
  have ho : Sound P (opened w r) := opened_sound hs
  have hmore : Traced P settings (rs ++ [r]) w := traced_more [r] h
  have hopened : Traced P settings (rs ++ [r]) (opened w r) := ⟨hmore.versions, hmore.points⟩
  obtain ⟨m, operation⟩ := r
  dsimp only at hm hversion hdocument
  cases hm with
  | still _ _ hb => exact traced_of_becomes hopened hb rfl rfl hopened.points
  | saved _ _ tenant_id document_id extension at_ content hdot hb =>
    -- the key is that of a version that has no row
    refine ⟨?_, hb.points ▸ hmore.points⟩
    rw [hb.db, hb.blobs]
    intro v hv t howner
    obtain ⟨stored, hstored, hdelivered⟩ := hmore.versions v hv t howner
    refine ⟨stored, Eq.trans ?_ hstored, hdelivered⟩
    exact (same_blobs_save hs.rows hversion hdot w.blobs content v hv howner).symm
  | uploaded _ data extension version document job hdot _ hv hd _ _ hb =>
    have hold : ∀ v ∈ w.db.versions, v.document_id ≠ m.ids.document := by
      intro v hv hid
      obtain ⟨d, hd, hdid⟩ := List.mem_map.mp (hs.rows.owned v hv)
      exact hdocument d hd (hdid.trans hid)
    have hchanged : w'.db ≠ w.db := changed_of_version (congrArg Database.versions hb.db)
    have howner : ∀ d t, (d, t) ∈ owners w'.db →
        (d, t) ∈ owners w.db ∨ (d = m.ids.document ∧ t = data.tenant_id) := by
      intro d t hmem
      rw [hb.db, hd] at hmem
      simpa [owners, opened, doc_to_model, UploadDocumentUseCase.new_document, eq_comm] using hmem
    rw [hb.db] at howner
    refine traced_of_stored hopened hb rfl ?_ ?_ (Blobs.save_self _ _ _) ?_
    · intro v hmem t howned
      exact (howner _ t howned).resolve_right (fun hboth => hold v hmem hboth.1)
    · intro t
      rw [hv]
      exact same_blobs_save hs.rows hversion hdot w.blobs data.content
    · intro t howned
      rw [hv] at howned ⊢
      rcases howner _ t howned with hmem | ⟨_, rfl⟩
      · obtain ⟨d, hd, hdid⟩ := List.mem_map.mp (mem_ids_of_owner hmem)
        exact absurd hdid (hdocument d hd)
      · exact ⟨_, haccepted hchanged, Sends.upload m data⟩
  | version_added _ data extension document version hdot hget hv _ hb =>
    have hchanged : w'.db ≠ w.db := changed_of_version (congrArg Database.versions hb.db)
    obtain ⟨howned, hid, _⟩ := document_id_of_get hget
    have howners : owners w'.db = owners w.db := by
      rw [hb.db]
      exact owners_modify (by simp) (by simp)
    rw [hb.db] at howners
    refine traced_of_stored hopened hb rfl (fun v _ t hmem => howners ▸ hmem) ?_
      (Blobs.save_self _ _ _) ?_
    · intro t
      rw [hv]
      exact same_blobs_save hs.rows hversion hdot w.blobs data.content
    · intro t hmem
      rw [howners, hv] at hmem
      rw [hv]
      obtain rfl := owner_unique hs.rows.documents hmem howned
      dsimp only [version_to_model, AddDocumentVersionUseCase.new_version]
      rw [hid]
      exact ⟨_, haccepted hchanged, Sends.version m data⟩
  | updated _ data document _ hb =>
    exact traced_of_becomes hopened hb rfl (owners_update _ _ _) hopened.points
  | deleted _ data document _ hb =>
    exact traced_of_becomes hopened hb rfl (owners_update _ _ _) hopened.points
  | indexed _ _ document_id document points hi hb =>
    exact traced_of_becomes hopened hb rfl rfl (cites_of_ingested ho hopened hi)
  | processed _ data document points hi hb =>
    exact traced_of_becomes hopened hb rfl (owners_update _ _ _) (cites_of_ingested ho hopened hi)
  | handled _ message job _ he =>
    cases he with
    | refused job' events _ hb => exact traced_of_becomes hopened hb rfl rfl hopened.points
    | failed name text job1 job2 events more enqueued points _ _ hleft hb =>
      exact traced_of_becomes hopened hb rfl rfl (cites_of_left ho hopened hleft)
    | completed name job1 job2 events more enqueued document points _ _ hi hb =>
      exact traced_of_becomes hopened hb rfl (owners_update _ _ _)
        (cites_of_ingested ho hopened hi)
  | answered _ data conversation answer db _ hstored hb =>
    rw [← conversation_log.committed_written] at hstored
    obtain ⟨_, hdb⟩ := conversation_log.committed_ok hstored
    refine traced_of_becomes hopened hb ?_ ?_ hopened.points
    · rw [hdb]
    · rw [hdb]
      rfl

/-! ## Searches, answers and prompts -/

/-- The messages for the LLM that a question makes of these passages. -/
def IsPrompt (settings : Settings) (data : AnswerQuestionInput) (texts : List String)
    (prompt : List LLMMessage) : Prop :=
  ∃ conversation, prompt = AnswerQuestionUseCase.llm_messages settings.chat
    (String.intercalate "\n\n" texts) conversation data.question

/-- The prompt is that of a question of the run, and its passages are chunks that
the asking tenant has sent. -/
def Grounded (P : Providers) (settings : Settings) (rs : List Request)
    (prompt : List LLMMessage) : Prop :=
  ∃ m data texts, (⟨m, .Answer data⟩ : Request) ∈ rs ∧ IsPrompt settings data texts prompt ∧
    ∀ text ∈ texts, ∃ chunk_id, Cites P settings rs data.tenant_id chunk_id text

/-- Whatever the LLM has been sent, and whatever is asked in this state, comes from
chunks that the tenant has sent: every prompt so far is grounded, every hit is such a
chunk, and the sources of an answer are the passages of its prompt one by one. -/
structure Traceable (P : Providers) (settings : Settings) (rs : List Request) (w : World) :
    Prop where
  prompts : ∀ prompt ∈ w.prompts, Grounded P settings rs prompt
  hits : ∀ m data hits w', w.perform P settings ⟨m, .Search data⟩ = (.ok (.Hits hits), w') →
    ∀ hit ∈ hits, Cites P settings rs data.tenant_id hit.chunk_id hit.content
  answers : ∀ m data output w',
    w.perform P settings ⟨m, .Answer data⟩ = (.ok (.Answer output), w') →
    ∃ texts prompt, w'.prompts = w.prompts ++ [prompt] ∧ IsPrompt settings data texts prompt ∧
      List.Forall₂ (fun source text => Cites P settings rs data.tenant_id source.chunk_id text)
        output.sources texts

theorem grounded_more {prompt : List LLMMessage} (more : List Request)
    (h : Grounded P settings rs prompt) : Grounded P settings (rs ++ more) prompt := by
  obtain ⟨m, data, texts, hmem, hprompt, htexts⟩ := h
  refine ⟨m, data, texts, List.mem_append_left more hmem, hprompt, ?_⟩
  intro text htext
  obtain ⟨chunk_id, hcites⟩ := htexts text htext
  exact ⟨chunk_id, cites_more more hcites⟩

/-- A call that leaves the prompts as they are. -/
def Mute (c d : Call) : Prop := d.world.prompts = c.world.prompts

instance : Std.Refl Mute := ⟨fun _ => rfl⟩

instance : IsTrans Call Mute := ⟨fun _ _ _ h h' => h'.trans h⟩

theorem mute_allowed : Allows Mute where
  rows := fun _ _ _ _ => rfl
  blobs := fun _ _ => rfl
  points := fun _ _ => rfl
  events := fun _ _ => rfl
  queue := fun _ _ => rfl

/-- Only an answer sends the LLM anything. -/
theorem prompts_of_other (h : ∀ data, r.operation ≠ .Answer data) :
    (w.perform P settings r).2.prompts = w.prompts := by
  have hmute : Moves Mute (r.operation.program P settings r.moment) :=
    program_moves mute_allowed r.operation (fun data hop => absurd hop (h data))
  have hleaves : Leaves (opened w r) (r.operation.program P settings r.moment)
      (fun w' => w'.prompts = w.prompts) := by
    intro c hc
    have hkept := hmute c
    unfold Mute at hkept
    rw [hc] at hkept
    rcases hp : r.operation.program P settings r.moment c with ⟨e | a, d⟩
    · rw [hp] at hkept
      exact hkept
    · rw [hp] at hkept
      exact ⟨hkept, hkept⟩
  exact session_leaves hleaves r.moment.faults

/-- The results of a search are chunks that have been sent. -/
theorem cites_of_retrieved (h : Traced P settings rs w) {tenant_id : String}
    {results : List SearchResult} (hr : Retrieved P w tenant_id results) :
    ∀ result ∈ results, Cites P settings rs tenant_id result.id result.payload.content := by
  obtain ⟨vector, limit, rfl⟩ := hr
  intro result hresult
  obtain ⟨hit, hhit, rfl⟩ := List.mem_map.mp hresult
  obtain ⟨hmem, htenant⟩ := List.mem_filter.mp (P.nearest_among _ _ _ hit hhit)
  simp only [decide_eq_true_eq] at htenant
  exact htenant ▸ h.points hit.1 hmem

theorem prompts_step (h : Traced P settings rs w)
    (hp : ∀ prompt ∈ w.prompts, Grounded P settings rs prompt)
    (hw : w.step P settings r = some w') :
    ∀ prompt ∈ w'.prompts, Grounded P settings (rs ++ [r]) prompt := by
  obtain ⟨_, rfl⟩ := step_some.mp hw
  have hold : ∀ prompt ∈ w.prompts, Grounded P settings (rs ++ [r]) prompt :=
    fun prompt hmem => grounded_more [r] (hp prompt hmem)
  by_cases hop : ∃ data, r.operation = .Answer data
  · obtain ⟨m, operation⟩ := r
    obtain ⟨data, rfl⟩ := hop
    by_cases hasks : ∃ vector conversation, history_window.Asks P w m data vector conversation
    · obtain ⟨vector, conversation, hasks⟩ := hasks
      rw [history_window.prompts_of_asks settings hasks]
      refine forall_append hold ⟨m, data,
        (history_window.passages P w data vector).map (fun result => result.payload.content),
        List.mem_append_right _ List.mem_cons_self, ⟨conversation, rfl⟩, ?_⟩
      intro text htext
      obtain ⟨result, hresult, rfl⟩ := List.mem_map.mp htext
      exact ⟨result.id, cites_more _ (cites_of_retrieved h ⟨vector, data.top_k, rfl⟩ result
        hresult)⟩
    · rw [history_window.prompts_of_silent settings (fun vector conversation hasked =>
        hasks ⟨vector, conversation, hasked⟩)]
      exact hold
  · rw [prompts_of_other (fun data he => hop ⟨data, he⟩)]
    exact hold

theorem hits_cite (h : Traced P settings rs w) {m : Moment} {data : SearchInput}
    {hits : List SearchHit}
    (hperform : w.perform P settings ⟨m, .Search data⟩ = (.ok (.Hits hits), w')) :
    ∀ hit ∈ hits, Cites P settings rs data.tenant_id hit.chunk_id hit.content := by
  intro hit hhit
  obtain ⟨e, he⟩ := perform_ok hperform
  obtain ⟨hits', e', hsearch, hpure⟩ := bind_ok.mp he
  cases hpure
  unfold SemanticSearchUseCase.execute at hsearch
  obtain ⟨results, e'', hretrieve, hpure⟩ := bind_ok.mp hsearch
  cases hpure
  obtain ⟨hretrieved, _⟩ := ends_ok (retrieve_ends _ _ _ (R := fun _ => True) trivial) hretrieve
  obtain ⟨result, hresult, rfl⟩ := List.mem_map.mp hhit
  exact cites_of_retrieved h hretrieved result hresult

/-- An answer has sent one prompt, and its sources are the passages of it. -/
theorem answer_cites (h : Traced P settings rs w) {m : Moment} {data : AnswerQuestionInput}
    {output : AnswerQuestionOutput}
    (hperform : w.perform P settings ⟨m, .Answer data⟩ = (.ok (.Answer output), w')) :
    ∃ texts prompt, w'.prompts = w.prompts ++ [prompt] ∧ IsPrompt settings data texts prompt ∧
      List.Forall₂ (fun source text => Cites P settings rs data.tenant_id source.chunk_id text)
        output.sources texts := by
  obtain ⟨e, he⟩ := perform_ok hperform
  dsimp only at he
  rw [history_window.answer_program] at he
  obtain ⟨⟨results, conversation⟩, d, hasked, hrest⟩ := bind_ok.mp he
  obtain ⟨vector, hopened, rfl, _⟩ := (history_window.asked_ok settings).mp hasked
  have hasks : history_window.Asks P w m data vector conversation :=
    ⟨hopened.faultless, hopened.embedded, hopened.loaded⟩
  obtain ⟨output', d', hanswered, hpure⟩ := bind_ok.mp hrest
  cases hpure
  unfold history_window.answered at hanswered
  simp only [bind_ok, of_except_ok, write_ok, pure_ok] at hanswered
  obtain ⟨answer, _, _, _, _, _, rfl, _⟩ := hanswered
  have hsent := history_window.prompts_of_asks settings hasks
  rw [hperform] at hsent
  refine ⟨(history_window.passages P w data vector).map (fun result => result.payload.content), _,
    hsent, ⟨conversation, rfl⟩, ?_⟩
  unfold AnswerQuestionUseCase.sources
  rw [List.forall₂_map_left_iff, List.forall₂_map_right_iff]
  exact List.forall₂_same.mpr (cites_of_retrieved h ⟨vector, data.top_k, rfl⟩)

/-- After every run of the service, whatever failed on the way, what the LLM has read
and what a search or an answer names are chunks of bytes that the tenant has sent for
one of its documents in a request that was answered. -/
theorem what_is_retrieved_was_sent (hrun : run (World.step P settings) {} rs = some w) :
    Traceable P settings rs w := by
  have hall : Sound P w ∧ Traced P settings rs w ∧
      ∀ prompt ∈ w.prompts, Grounded P settings rs prompt := by
    refine run_history (I := fun rs w => Sound P w ∧ Traced P settings rs w ∧
      ∀ prompt ∈ w.prompts, Grounded P settings rs prompt) ?_ ?_ hrun
    · refine ⟨sound_init P, traced_init, ?_⟩
      intro prompt hmem
      cases hmem
    · rintro rs w r w' hrun ⟨hs, htraced, hprompts⟩ hw
      exact ⟨sound_keeps hs hw, traced_step hrun hs htraced hw, prompts_step htraced hprompts hw⟩
  obtain ⟨_, htraced, hprompts⟩ := hall
  exact ⟨hprompts, fun m data hits w' => hits_cite htraced,
    fun m data output w' => answer_cites htraced⟩

/-- A document of two lines is uploaded and indexed, and a question is asked. -/
def an_indexed_document_and_a_question : List Request :=
  [plain.request 0 (plain.upload [65, 10, 66]),
    plain.request 1 (.Handle ⟨"acme", (plain.ids 0).job⟩),
    plain.request 2 (.Answer { tenant_id := "acme", question := "Who?" })]

theorem the_passages_of_a_question_were_uploaded :
    ∃ w, run (World.step plain.providers {}) {} an_indexed_document_and_a_question = some w ∧
      w.prompts.length = 1 ∧ w.points.length = 2 ∧
      Traceable plain.providers {} an_indexed_document_and_a_question w := by
  have hrun : (run (World.step plain.providers {}) {} an_indexed_document_and_a_question).map
      (fun w => (w.prompts.length, w.points.length)) = some (1, 2) := by
    decide +kernel
  obtain ⟨w, hw, hlength⟩ := Option.map_eq_some_iff.mp hrun
  rw [Prod.mk.injEq] at hlength
  exact ⟨w, hw, hlength.1, hlength.2, what_is_retrieved_was_sent hw⟩

end cortex_rag.provenance
