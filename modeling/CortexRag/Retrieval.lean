-- The laws of retrieval: a search returns points of the tenant, and the points
-- are those of live documents as long as no document is deleted with points in
-- the index.
import CortexRag.LiveDocuments
import CortexRag.ServiceOutcomes

open keyed_rows labelled_runs state_programs

namespace cortex_rag.retrieval

open service

/-- Every point of the index belongs to a document of its tenant that is not
deleted. -/
def Current (w : World) : Prop :=
  ∀ p ∈ w.points, ∃ d, Live w.db p.payload.tenant_id d ∧ p.payload.document_id = d.str

/-- A live document is deleted that has points in the index: no call on the way
fails, which are the read, the write, the event and the commit. -/
def DeletesIndexed (w : World) (r : Request) : Prop :=
  ∃ data, r.operation = .Delete data ∧ w.fresh r = true ∧ Faultless 4 r.moment.faults ∧
    Live w.db data.tenant_id data.document_id ∧
    ∃ p ∈ w.points, p.payload.document_id = data.document_id.str

instance (w : World) (r : Request) : Decidable (DeletesIndexed w r) :=
  match h : r.operation with
  | .Delete data =>
    decidable_of_iff (w.fresh r = true ∧ Faultless 4 r.moment.faults ∧
        Live w.db data.tenant_id data.document_id ∧
        ∃ p ∈ w.points, p.payload.document_id = data.document_id.str)
      ⟨fun hd => ⟨data, h, hd⟩, fun ⟨_, hop, hd⟩ => by
        rw [h] at hop
        cases hop
        exact hd⟩
  | .Upload _ | .AddVersion _ | .Get _ | .List _ | .ListVersions _ | .UpdateMetadata _
  | .Process _ | .GetJob _ | .ListJobs _ | .Handle _ | .Search _ | .Answer _ =>
    .isFalse (fun ⟨_, hop, _⟩ => by simp [h] at hop)

variable {P : Providers} {settings : Settings} {w w' : World} {r : Request}

/-! ## A deletion -/

section Deletion

variable {m : Moment} {faults : List (Option Interruption)} {data : GetDocumentInput}

theorem accepted_of_delete {response : Response} {d : Call}
    (h : session ((Operation.Delete data).program P settings m) ⟨w, faults, false⟩ =
      (.ok response, d)) :
    Faultless 4 faults ∧ ∃ document,
      SqlAlchemyDocumentRepository.get w.db data.tenant_id data.document_id = some document := by
  simp only [session_ok, Operation.program, bind_ok, pure_ok, DeleteDocumentUseCase.execute,
    query_ok, of_except_ok, write_ok, publish_ok] at h
  obtain ⟨_, ⟨_, _, h, _, rfl⟩, _, hcommit, _⟩ := h
  obtain ⟨_, _, ⟨_, f0, rfl, rfl⟩, document, _, ⟨hload, rfl⟩, h⟩ := h
  obtain ⟨_, _, ⟨_, f1, _, _, rfl⟩, f2, rfl⟩ := h
  refine ⟨?_, document, load_document_ok hload⟩
  simp only [faultless_succ]
  exact ⟨f0, f1, f2, hcommit, fun k hk => absurd hk (Nat.not_lt_zero k)⟩

variable (P settings m) in
theorem session_of_delete {document : KnowledgeDocument} (hfaults : Faultless 4 faults)
    (hget : SqlAlchemyDocumentRepository.get w.db data.tenant_id data.document_id =
      some document) :
    ∃ d, session ((Operation.Delete data).program P settings m) ⟨w, faults, false⟩ =
        (.ok .Done, d) ∧
      d.world.db = SqlAlchemyDocumentRepository.update w.db m.db_now
        (DeleteDocumentUseCase.marked (m.clock 0) document) ∧ d.world.points = w.points := by
  simp only [faultless_succ] at hfaults
  obtain ⟨f0, f1, f2, f3, _⟩ := hfaults
  have hload : load_document w.db data.tenant_id data.document_id = .ok document := by
    unfold load_document
    rw [hget]
  refine ⟨⟨{ w with
    db := SqlAlchemyDocumentRepository.update w.db m.db_now
      (DeleteDocumentUseCase.marked (m.clock 0) document)
    events := w.events ++ [.DocumentDeleted document.id document.tenant_id] },
    faults.tail.tail.tail.tail, false⟩, ?_, rfl, rfl⟩
  simp only [session_ok, Operation.program, bind_ok, pure_ok, DeleteDocumentUseCase.execute,
    query_ok, of_except_ok, write_ok, publish_ok]
  exact ⟨_, ⟨(), _, ⟨_, _, ⟨trivial, f0, rfl, rfl⟩, _, _, ⟨hload, rfl⟩, (), _,
    ⟨rfl, f1, _, rfl, rfl⟩, f2, rfl⟩, trivial, rfl⟩, rfl, f3, rfl⟩

/-- The rows after a step that deletes a document. -/
theorem delete_step (hop : r.operation = .Delete data) (hw : w.step P settings r = some w') :
    (Faultless 4 r.moment.faults ∧ (∃ document,
        SqlAlchemyDocumentRepository.get w.db data.tenant_id data.document_id = some document ∧
        w'.db = SqlAlchemyDocumentRepository.update w.db r.moment.db_now
          (DeleteDocumentUseCase.marked (r.moment.clock 0) document)) ∧ w'.points = w.points) ∨
      w'.db = w.db := by
  unfold World.step at hw
  split at hw
  · cases hw
    simp only [perform_eq, hop]
    rcases hend : session ((Operation.Delete data).program P settings r.moment)
      ⟨opened w r, r.moment.faults, false⟩ with ⟨e | response, d⟩
    · exact Or.inr (session_error hend)
    · obtain ⟨hfaults, document, hget⟩ := accepted_of_delete hend
      obtain ⟨d', hend', hdb, hpoints⟩ := session_of_delete P settings r.moment hfaults hget
      rw [hend'] at hend
      cases hend
      exact Or.inl ⟨hfaults, ⟨document, hget, hdb⟩, hpoints⟩
  · cases hw

end Deletion

/-! ## The points -/

/-- A point after a step was in the index before, or it belongs to a document
that is live after the step. -/
theorem points_after (hw : w.step P settings r = some w') {p : VectorPoint}
    (hp : p ∈ w'.points) :
    p ∈ w.points ∨ ∃ d, Live w'.db p.payload.tenant_id d ∧ p.payload.document_id = d.str := by
  obtain ⟨_, _, hm⟩ := moved_of_step hw
  generalize r.operation = operation at hm
  have hingested : ∀ {tenant_id : String} {document_id : UUID} {document : KnowledgeDocument}
      {points : List VectorPoint},
      Ingested P (opened w r) tenant_id document_id document points → p ∈ points →
      p ∈ w.points ∨ (Live w.db p.payload.tenant_id document.id ∧
        p.payload.document_id = document.id.str) := by
    intro tenant_id document_id document points hi hp
    obtain ⟨_, _, _, _, _, _, hindexed⟩ := hi.indexed
    rcases mem_of_indexed hindexed hp with hp | ⟨rfl, hdocument, _⟩
    · exact Or.inl hp
    · exact Or.inr ⟨live_of_get hi.got, hdocument⟩
  have hpartial : ∀ {tenant_id : String} {document_id : UUID} {points : List VectorPoint},
      Partial P (opened w r) tenant_id document_id points → p ∈ points →
      p ∈ w.points ∨ ∃ d, Live w.db p.payload.tenant_id d ∧ p.payload.document_id = d.str := by
    rintro tenant_id document_id points (rfl | ⟨document, hi⟩) hp
    · exact Or.inl hp
    · rcases hingested hi hp with hp | ⟨hlive, hdocument⟩
      · exact Or.inl hp
      · exact Or.inr ⟨document.id, hlive, hdocument⟩
  have hprocessed : ∀ {tenant_id : String} {document_id : UUID} {document : KnowledgeDocument}
      {points : List VectorPoint} {db_now : DateTime},
      Ingested P (opened w r) tenant_id document_id document points → p ∈ points →
      p ∈ w.points ∨ ∃ d, Live (SqlAlchemyDocumentRepository.update w.db db_now
        (ProcessDocumentUseCase.processed document)) p.payload.tenant_id d ∧
          p.payload.document_id = d.str := by
    intro tenant_id document_id document points db_now hi hp
    rcases hingested hi hp with hp | ⟨hlive, hdocument⟩
    · exact Or.inl hp
    · obtain ⟨m, _, _, _, hm, he⟩ := SqlAlchemyDocumentRepository.get_row hi.got
      exact Or.inr ⟨document.id, live_update (fun _ => by rw [he]; exact hm) hlive, hdocument⟩
  cases hm with
  | still _ _ hb => exact Or.inl (hb.points ▸ hp)
  | saved _ _ tenant_id document_id extension at_ content _ hb => exact Or.inl (hb.points ▸ hp)
  | uploaded _ data extension version document job _ _ _ _ _ _ hb => exact Or.inl (hb.points ▸ hp)
  | version_added _ data extension document version _ _ _ _ hb => exact Or.inl (hb.points ▸ hp)
  | updated _ data document _ hb => exact Or.inl (hb.points ▸ hp)
  | deleted _ data document _ hb => exact Or.inl (hb.points ▸ hp)
  | indexed _ _ document_id document points hi hb =>
    rw [hb.db]
    exact hpartial (Or.inr ⟨document, hi⟩) (hb.points ▸ hp)
  | processed _ data document points hi hb =>
    rw [hb.db]
    exact hprocessed hi (hb.points ▸ hp)
  | handled _ message job _ he =>
    cases he with
    | refused job' events _ hb => exact Or.inl (hb.points ▸ hp)
    | failed name text job1 job2 events more enqueued points _ _ hleft hb =>
      rw [hb.db]
      exact hpartial hleft (hb.points ▸ hp)
    | completed name job1 job2 events more enqueued document points _ _ hi hb =>
      rw [hb.db]
      exact hprocessed hi (hb.points ▸ hp)
  | answered _ data conversation answer db _ _ hb => exact Or.inl (hb.points ▸ hp)

theorem current_keeps (h : Current w) (hr : ¬ DeletesIndexed w r)
    (hw : w.step P settings r = some w') : Current w' := by
  intro p hp
  rcases points_after hw hp with hp | hnew
  · obtain ⟨d, hlive, hdocument⟩ := h p hp
    rcases live_after hw hlive with hlive' | ⟨data, hop, rfl⟩
    · exact ⟨d, hlive', hdocument⟩
    · have hfresh : w.fresh r = true := by
        by_contra hno
        rw [World.step, if_neg hno] at hw
        cases hw
      rcases delete_step hop hw with ⟨hfaults, ⟨document, hget, _⟩, _⟩ | hdb
      · have htarget := live_of_get hget
        rw [(document_id_of_get hget).2.1] at htarget
        exact absurd ⟨data, hop, hfresh, hfaults, htarget, p, hp, hdocument⟩ hr
      · exact ⟨_, hdb ▸ hlive, hdocument⟩
  · exact hnew

/-- A deleted document with points leaves them in the index. -/
theorem deletes_indexed_breaks (h : Sound P w) (hr : DeletesIndexed w r) :
    ∃ w', w.step P settings r = some w' ∧ ¬ Current w' := by
  obtain ⟨data, hop, hfresh, hfaults, hlive, p, hp, hdocument⟩ := hr
  obtain ⟨document, hget⟩ := get_of_live h.rows.documents hlive
  obtain ⟨d', hend, hdb, hpoints⟩ := session_of_delete P settings r.moment
    (w := opened w r) hfaults hget
  refine ⟨d'.world, ?_, ?_⟩
  · unfold World.step
    rw [if_pos hfresh]
    simp only [perform_eq, hop, hend]
  · intro hcurrent
    obtain ⟨d, hstill, hd⟩ := hcurrent p (by rw [hpoints]; exact hp)
    obtain rfl := UUID.str_injective data.document_id d (hdocument.symm.trans hd)
    rw [hdb] at hstill
    obtain ⟨_, hid, htenant⟩ := document_id_of_get hget
    obtain ⟨x, hx, hxid, _, hxlive⟩ := hstill
    rcases mem_of_modify _ hx with ⟨_, hne⟩ | ⟨x0, hx0, hk, rfl⟩
    · exact hne (hxid.trans hid.symm)
    · have howner := (pointer_of_get h.rows hget x0 hx0 hk).2.1
      obtain ⟨u, hu⟩ := SqlAlchemyDocumentRepository.update_columns_eq r.moment.db_now
        (howner.trans htenant.symm : x0.tenant_id =
          (DeleteDocumentUseCase.marked (r.moment.clock 0) document).tenant_id)
      rw [hu] at hxlive
      cases hxlive

/-- Every point of the index belongs to a live document in every state of a run
exactly when no step deletes a document with points. -/
theorem index_is_current_iff (rs : List Request) :
    Throughout (World.step P settings) Current {} rs ↔
      Along (World.step P settings) (fun w r => ¬ DeletesIndexed w r) {} rs := by
  refine throughout_iff_along (I := Sound P) ?_ ?_ ?_ (sound_init P) ?_ rs
  · intro w r w' h _ _ hw
    exact sound_keeps h hw
  · intro w r w' _ h hr hw
    exact current_keeps h hr hw
  · intro w r h _ hr
    exact deletes_indexed_breaks h (not_not.mp hr)
  · intro p hp
    cases hp

/-! ## Searches and answers -/

/-- A point of the index of a document of the tenant that is not deleted. -/
def FromLive (w : World) (tenant_id : String) (p : VectorPoint) : Prop :=
  p ∈ w.points ∧ ∃ d, Live w.db tenant_id d ∧ p.payload.document_id = d.str

/-- The prompts after an answer: those before, or one more with the contents of
points of live documents as its context. -/
def Prompted (settings : Settings) (w : World) (data : AnswerQuestionInput)
    (prompts : List (List LLMMessage)) : Prop :=
  prompts = w.prompts ∨ ∃ (passages : List VectorPoint) (conversation : Conversation),
    (∀ p ∈ passages, FromLive w data.tenant_id p) ∧
      prompts = w.prompts ++ [AnswerQuestionUseCase.llm_messages settings.chat
        (String.intercalate "\n\n" (passages.map (fun p => p.payload.content))) conversation
        data.question]

/-- Whatever is asked in this state, every hit, every source and every passage of
a context comes from a point of a live document of the asking tenant. -/
structure NothingDeleted (P : Providers) (settings : Settings) (w : World) : Prop where
  hits : ∀ m data hits w', w.perform P settings ⟨m, .Search data⟩ = (.ok (.Hits hits), w') →
    ∀ hit ∈ hits, ∃ p, FromLive w data.tenant_id p ∧ hit.chunk_id = p.id ∧
      hit.content = p.payload.content
  sources : ∀ m data output w',
    w.perform P settings ⟨m, .Answer data⟩ = (.ok (.Answer output), w') →
    ∀ source ∈ output.sources, ∃ p, FromLive w data.tenant_id p ∧ source.chunk_id = p.id
  context : ∀ m data, Prompted settings w data
    (w.perform P settings ⟨m, .Answer data⟩).2.prompts

/-- The results of a search are points of live documents where the index is
current. -/
theorem retrieved_points (h : Current w) {tenant_id : String} {results : List SearchResult}
    (hr : Retrieved P w tenant_id results) :
    ∃ passages : List VectorPoint, (∀ p ∈ passages, FromLive w tenant_id p) ∧
      results.map (fun r => (r.id, r.payload)) = passages.map (fun p => (p.id, p.payload)) := by
  obtain ⟨vector, limit, rfl⟩ := hr
  refine ⟨(P.nearest (QdrantVectorRepository.filtered w.points tenant_id) vector limit).map
    Prod.fst, ?_, by simp⟩
  intro p hp
  obtain ⟨hit, hhit, rfl⟩ := List.mem_map.mp hp
  obtain ⟨hmem, htenant⟩ := List.mem_filter.mp (P.nearest_among _ _ _ hit hhit)
  simp only [decide_eq_true_eq] at htenant
  exact ⟨hmem, htenant ▸ h hit.1 hmem⟩

theorem source_of_result (h : Current w) {tenant_id : String} {results : List SearchResult}
    (hr : Retrieved P w tenant_id results) {result : SearchResult} (hresult : result ∈ results) :
    ∃ p, FromLive w tenant_id p ∧ result.id = p.id ∧ result.payload = p.payload := by
  obtain ⟨passages, hlive, heq⟩ := retrieved_points h hr
  have hpair : (result.id, result.payload) ∈ results.map (fun r => (r.id, r.payload)) :=
    List.mem_map.mpr ⟨result, hresult, rfl⟩
  rw [heq] at hpair
  obtain ⟨p, hp, he⟩ := List.mem_map.mp hpair
  rw [Prod.mk.injEq] at he
  exact ⟨p, hlive p hp, he.1.symm, he.2.symm⟩

theorem search_ends (data : SearchInput) :
    Ends w (SemanticSearchUseCase.execute P data)
      (fun hits _ => ∃ results, Retrieved P w data.tenant_id results ∧
        hits = SemanticSearchUseCase.hits results) (fun _ => True) := by
  unfold SemanticSearchUseCase.execute
  refine ends_bind (retrieve_ends _ _ _ trivial) ?_
  rintro results w' ⟨hr, _⟩
  exact ends_pure ⟨results, hr, rfl⟩

/-- The prompt of an answer is made before the answer comes, and stays when it
does not. -/
theorem answer_ends (P : Providers) (settings : Settings) (m : Moment) (h : Current w)
    (data : AnswerQuestionInput) :
    Ends w (AnswerQuestionUseCase.execute P settings m data)
      (fun output w' => Prompted settings w data w'.prompts ∧
        ∃ results, Retrieved P w data.tenant_id results ∧
          output.sources = AnswerQuestionUseCase.sources results)
      (fun w' => Prompted settings w data w'.prompts) := by
  have hquiet : Prompted settings w data w.prompts := Or.inl rfl
  unfold AnswerQuestionUseCase.execute
  refine ends_bind (retrieve_ends _ _ _ hquiet) ?_
  rintro results w' ⟨hr, rfl⟩
  refine ends_bind (load_conversation_ends data hquiet) ?_
  rintro conversation w'' ⟨_, rfl⟩
  have hprompted : Prompted settings w'' data (w''.prompts ++
      [AnswerQuestionUseCase.llm_messages settings.chat (AnswerQuestionUseCase.context results)
        conversation data.question]) := by
    obtain ⟨passages, hlive, heq⟩ := retrieved_points h hr
    have hcontents := congrArg (List.map (fun r => r.2.content)) heq
    simp only [List.map_map, Function.comp_def] at hcontents
    refine Or.inr ⟨passages, conversation, hlive, ?_⟩
    unfold AnswerQuestionUseCase.context
    rw [hcontents]
  unfold AnswerQuestionUseCase.complete
  rw [bind_assoc]
  refine ends_effect hquiet ?_
  refine ends_of_except hprompted ?_
  intro answer _
  refine ends_write hprompted ?_
  intro db _
  exact ends_pure ⟨hprompted, results, hr, rfl⟩

theorem nothing_deleted_of_current (h : Current w) : NothingDeleted P settings w := by
  refine ⟨?_, ?_, ?_⟩
  · intro m data hits w' hperform hit hhit
    obtain ⟨e, he⟩ := perform_ok hperform
    obtain ⟨hits', e', hsearch, hpure⟩ := bind_ok.mp he
    obtain ⟨results, hr, rfl⟩ := ends_ok (search_ends data) hsearch
    cases hpure
    obtain ⟨result, hresult, rfl⟩ := List.mem_map.mp hhit
    obtain ⟨p, hp, hid, hpayload⟩ := source_of_result h hr hresult
    exact ⟨p, hp, hid, by rw [hpayload]⟩
  · intro m data output w' hperform source hsource
    obtain ⟨e, he⟩ := perform_ok hperform
    obtain ⟨output', e', hanswer, hpure⟩ := bind_ok.mp he
    have ho : Current (opened w ⟨m, .Answer data⟩) := h
    obtain ⟨_, results, hr, hsources⟩ := ends_ok (answer_ends P settings m ho data) hanswer
    cases hpure
    rw [hsources] at hsource
    obtain ⟨result, hresult, rfl⟩ := List.mem_map.mp hsource
    obtain ⟨p, hp, hid, _⟩ := source_of_result h hr hresult
    exact ⟨p, hp, hid⟩
  · intro m data
    have hstays : ∀ w', Prompted settings w data w'.prompts →
        Prompted settings w data (rolled_back (opened w ⟨m, .Answer data⟩) w').prompts :=
      fun _ h => h
    have hleaves : Leaves (opened w ⟨m, .Answer data⟩)
        (AnswerQuestionUseCase.execute P settings m data)
        (fun w' => Prompted settings w data w'.prompts) :=
      ends_weaken (answer_ends P settings m (w := opened w ⟨m, .Answer data⟩) h data)
        (fun _ w' hends => ⟨hends.1, hstays w' hends.1⟩) hstays
    exact session_leaves (leaves_map hleaves) m.faults

/-- Deleted knowledge is not retrieved in any state of a run in which no document
is deleted with points in the index. -/
theorem nothing_deleted_is_retrieved_unless_it_was_indexed {rs : List Request}
    (h : Along (World.step P settings) (fun w r => ¬ DeletesIndexed w r) {} rs) :
    Throughout (World.step P settings) (NothingDeleted P settings) {} rs := by
  intro pre post w hrs hw
  exact nothing_deleted_of_current ((index_is_current_iff rs).mpr h pre post w hrs hw)

/-- One document is indexed, and another one comes and goes without ever being
indexed. -/
theorem a_deletion_before_ingestion_is_harmless :
    Throughout (World.step plain.providers {}) (NothingDeleted plain.providers {}) {}
      [plain.request 0 (plain.upload [65]),
        plain.request 1 (.Handle ⟨"acme", (plain.ids 0).job⟩),
        plain.request 2 (plain.upload [66]),
        plain.request 3 (.Delete ⟨"acme", (plain.ids 2).document⟩)] :=
  nothing_deleted_is_retrieved_unless_it_was_indexed (by decide +kernel)

/-- A document is indexed, and then it is deleted. -/
def deleted_after_ingestion : List Request :=
  [plain.request 0 (plain.upload [65]), plain.request 1 (.Handle ⟨"acme", (plain.ids 0).job⟩),
    plain.request 2 (.Delete ⟨"acme", (plain.ids 0).document⟩)]

theorem a_deleted_document_is_still_found :
    ¬ Throughout (World.step plain.providers {}) (NothingDeleted plain.providers {}) {}
      deleted_after_ingestion := by
  intro h
  have hrun : (run (World.step plain.providers {}) {} deleted_after_ingestion).map (fun w =>
      (w.db.documents.map (fun m => m.deleted_at),
        (w.perform plain.providers {} (plain.request 3 (.Search ⟨"acme", "A", 10⟩))).1)) =
      some ([some noon], .ok (.Hits [{
        chunk_id := chunk_vector_id plain.providers (plain.ids 0).document 0
        score := ⟨0⟩
        content := "A" }])) := by
    decide +kernel
  obtain ⟨w, hw, heq⟩ := Option.map_eq_some_iff.mp hrun
  rw [Prod.mk.injEq] at heq
  have hgood := h deleted_after_ingestion [] w (List.append_nil _).symm hw
  obtain ⟨p, ⟨_, d, ⟨m, hm, _, _, hlive⟩, _⟩, _⟩ :=
    hgood.hits _ _ _ _ (Prod.ext heq.2 rfl) _ List.mem_cons_self
  have hdeleted : m.deleted_at ∈ w.db.documents.map (fun m => m.deleted_at) :=
    List.mem_map.mpr ⟨m, hm, rfl⟩
  rw [heq.1, List.mem_singleton, hlive] at hdeleted
  cases hdeleted

end cortex_rag.retrieval
