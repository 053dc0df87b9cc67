-- Two calls of one program from two worlds: what the calls return, and what
-- they leave, where a tenant has the same in both worlds.
import CortexRag.TenantRows

open keyed_rows state_programs

namespace cortex_rag.service

/-! ## Calls side by side -/

/-- Two calls have the same faults ahead of them, and the same session. -/
def Level (c c' : Call) : Prop := c.faults = c'.faults ∧ c.broken = c'.broken

/-- From `w` and from `w'` the program returns the same and ends in worlds of
`Q`, or it fails alike and leaves worlds of `R`. -/
def Both {α : Type} (w w' : World) (p : Service α) (Q : α → World → World → Prop)
    (R : World → World → Prop) : Prop :=
  Alike (fun c c' => c.world = w ∧ c'.world = w' ∧ Level c c') p
    (fun a c c' => Q a c.world c'.world ∧ Level c c')
    (fun _ c c' => R c.world c'.world ∧ Level c c')

variable {α β : Type} {w w' : World} {Q : α → World → World → Prop} {R : World → World → Prop}

theorem both_pure {a : α} (h : Q a w w') : Both w w' (pure a) Q R :=
  alike_pure (fun c c' hc => ⟨by rw [hc.1, hc.2.1]; exact h, hc.2.2⟩)

theorem both_raise {e : Interruption} (h : R w w') : Both w w' (raise e) Q R :=
  alike_raise (fun c c' hc => ⟨by rw [hc.1, hc.2.1]; exact h, hc.2.2⟩)

theorem both_bind {p : Service α} {f : α → Service β} {M : α → World → World → Prop}
    {Q : β → World → World → Prop} (hp : Both w w' p M R)
    (hf : ∀ a x x', M a x x' → Both x x' (f a) Q R) : Both w w' (p >>= f) Q R :=
  alike_bind hp (fun a c c' hc => hf a c.world c'.world hc.1 c c' ⟨rfl, rfl, hc.2⟩)

theorem both_external {f : Unit → Service β} {Q : β → World → World → Prop} (hR : R w w')
    (h : Both w w' (f ()) Q R) : Both w w' (external >>= f) Q R := by
  refine both_bind (M := fun _ x x' => x = w ∧ x' = w') ?_
    (fun _ x x' hx => by rw [hx.1, hx.2]; exact h)
  rintro ⟨x, faults, broken⟩ ⟨x', faults', broken'⟩ ⟨rfl, rfl, hfaults, hbroken⟩
  cases hfaults
  cases hbroken
  unfold external
  rcases faults with _ | ⟨_ | fault, faults⟩
  · exact ⟨rfl, ⟨rfl, rfl⟩, rfl, rfl⟩
  · exact ⟨rfl, ⟨rfl, rfl⟩, rfl, rfl⟩
  · exact ⟨rfl, hR, rfl, rfl⟩

theorem both_of_except {x : Except PyException α} {f : α → Service β}
    {Q : β → World → World → Prop} (hR : R w w') (h : ∀ a, x = .ok a → Both w w' (f a) Q R) :
    Both w w' (of_except x >>= f) Q R := by
  refine both_bind (M := fun a y y' => x = .ok a ∧ y = w ∧ y' = w') ?_
    (fun a y y' hy => by rw [hy.2.1, hy.2.2]; exact h a hy.1)
  rintro c c' ⟨hw, hw', hlevel⟩
  unfold of_except
  rcases x with e | a
  · exact ⟨rfl, by rw [hw, hw']; exact hR, hlevel⟩
  · exact ⟨rfl, ⟨rfl, hw, hw'⟩, hlevel⟩

theorem both_of_domain {x : Except DomainError α} {f : α → Service β}
    {Q : β → World → World → Prop} (hR : R w w') (h : ∀ a, x = .ok a → Both w w' (f a) Q R) :
    Both w w' (of_domain x >>= f) Q R := by
  refine both_of_except hR ?_
  intro a ha
  rcases x with e | b
  · cases ha
  · cases ha
    exact h a rfl

/-- A read of the world that gives the same in both. -/
theorem both_look {g : World → Except Interruption α} {f : α → Service β}
    {Q : β → World → World → Prop} (hR : R w w') (hg : g w = g w')
    (h : ∀ a, g w = .ok a → Both w w' (f a) Q R) :
    Both w w' (look (fun c => g c.world) >>= f) Q R := by
  refine both_bind (M := fun a y y' => g w = .ok a ∧ y = w ∧ y' = w') ?_
    (fun a y y' hy => by rw [hy.2.1, hy.2.2]; exact h a hy.1)
  rintro c c' ⟨rfl, rfl, hlevel⟩
  simp only [look]
  rw [← hg]
  rcases hgw : g c.world with e | a
  · exact ⟨rfl, hR, hlevel⟩
  · exact ⟨rfl, ⟨rfl, rfl, rfl⟩, hlevel⟩

/-- A statement that gives the same on both databases, or fails alike. -/
theorem both_statement {g : Database → Except PyException (α × Database)} {f : α → Service β}
    {Q : β → World → World → Prop} (hR : R w w')
    (h : (∃ e, g w.db = .error e ∧ g w'.db = .error e) ∨
      ∃ a db db', g w.db = .ok (a, db) ∧ g w'.db = .ok (a, db') ∧
        Both { w with db } { w' with db := db' } (f a) Q R) :
    Both w w' (statement g >>= f) Q R := by
  refine both_bind (M := fun a x x' => ∃ db db', g w.db = .ok (a, db) ∧ g w'.db = .ok (a, db') ∧
    x = { w with db } ∧ x' = { w' with db := db' }) ?_ ?_
  · rintro ⟨x, faults, broken⟩ ⟨x', faults', broken'⟩ ⟨rfl, rfl, hfaults, hbroken⟩
    cases hfaults
    cases hbroken
    unfold statement external
    cases broken
    · rcases faults with _ | ⟨_ | fault, faults⟩
      · rcases h with ⟨e, he, he'⟩ | ⟨a, db, db', ha, ha', _⟩
        · simp only [he, he']
          exact ⟨rfl, hR, rfl, rfl⟩
        · simp only [ha, ha']
          exact ⟨rfl, ⟨db, db', rfl, rfl, rfl, rfl⟩, rfl, rfl⟩
      · rcases h with ⟨e, he, he'⟩ | ⟨a, db, db', ha, ha', _⟩
        · simp only [he, he']
          exact ⟨rfl, hR, rfl, rfl⟩
        · simp only [ha, ha']
          exact ⟨rfl, ⟨db, db', rfl, rfl, rfl, rfl⟩, rfl, rfl⟩
      · exact ⟨rfl, hR, rfl, rfl⟩
    · exact ⟨rfl, hR, rfl, rfl⟩
  · rintro a x x' ⟨db, db', hg, hg', rfl, rfl⟩
    rcases h with ⟨e, he, _⟩ | ⟨a', d, d', ha, ha', hboth⟩
    · rw [he] at hg
      cases hg
    · rw [ha] at hg
      rw [ha'] at hg'
      cases hg
      cases hg'
      exact hboth

theorem both_query {g : Database → α} {f : α → Service β} {Q : β → World → World → Prop}
    (hR : R w w') (hg : g w.db = g w'.db) (h : Both w w' (f (g w.db)) Q R) :
    Both w w' (query g >>= f) Q R :=
  both_statement hR (Or.inr ⟨g w.db, w.db, w'.db, rfl, by rw [hg], h⟩)

theorem both_write {g : Database → Except PyException Database} {f : Unit → Service β}
    {Q : β → World → World → Prop} (hR : R w w')
    (h : (∃ e, g w.db = .error e ∧ g w'.db = .error e) ∨
      ∃ db db', g w.db = .ok db ∧ g w'.db = .ok db' ∧
        Both { w with db } { w' with db := db' } (f ()) Q R) :
    Both w w' (write g >>= f) Q R := by
  refine both_statement hR ?_
  rcases h with ⟨e, he, he'⟩ | ⟨db, db', hg, hg', hboth⟩
  · exact Or.inl ⟨e, by rw [he]; rfl, by rw [he']; rfl⟩
  · exact Or.inr ⟨(), db, db', by rw [hg]; rfl, by rw [hg']; rfl, hboth⟩

theorem both_effect {g : World → World} {f : Unit → Service β} {Q : β → World → World → Prop}
    (hR : R w w') (h : Both (g w) (g w') (f ()) Q R) : Both w w' (effect g >>= f) Q R := by
  have hrest : Both w w' (effect g) (fun _ x x' => x = g w ∧ x' = g w') R := by
    refine both_external hR ?_
    rintro c c' ⟨rfl, rfl, hlevel⟩
    exact ⟨rfl, ⟨rfl, rfl⟩, hlevel⟩
  exact both_bind hrest (fun _ x x' hx => by rw [hx.1, hx.2]; exact h)

/-! ## What a tenant has during the calls -/

/-- The tenant has the same in `x` and `x'`, also when their rows go back to
those of `w` and `w'`. -/
structure Twin (tenant_id : String) (w w' x x' : World) : Prop where
  now : Same tenant_id x x'
  back : Same tenant_id (rolled_back w x) (rolled_back w' x')

variable {t : String} {x x' : World} {db db' : Database}

theorem twin_start (h : Same t w w') : Twin t w w' w w' := ⟨h, h⟩

theorem twin_events (h : Twin t w w' x x') (event : DomainEvent) :
    Twin t w w' { x with events := x.events ++ [event] }
      { x' with events := x'.events ++ [event] } :=
  ⟨⟨h.now.rows, h.now.blobs, h.now.points⟩, ⟨h.back.rows, h.back.blobs, h.back.points⟩⟩

theorem twin_queue (h : Twin t w w' x x') (message : Message) :
    Twin t w w' { x with queue := x.queue ++ [message] }
      { x' with queue := x'.queue ++ [message] } :=
  ⟨⟨h.now.rows, h.now.blobs, h.now.points⟩, ⟨h.back.rows, h.back.blobs, h.back.points⟩⟩

theorem twin_prompts (h : Twin t w w' x x') (messages : List LLMMessage) :
    Twin t w w' { x with prompts := x.prompts ++ [messages] }
      { x' with prompts := x'.prompts ++ [messages] } :=
  ⟨⟨h.now.rows, h.now.blobs, h.now.points⟩, ⟨h.back.rows, h.back.blobs, h.back.points⟩⟩

/-- New rows of the tenant on both sides, with blobs that are the same. -/
theorem twin_rows (h : Twin t w w' x x') (hrows : SameRows t db db')
    (hblobs : SameBlobs t db x.blobs x'.blobs) : Twin t w w' { x with db } { x' with db := db' } :=
  ⟨⟨hrows, hblobs, h.now.points⟩, h.back⟩

theorem same_blobs_save_both {blobs blobs' : Blobs} (key : String) (content : Bytes)
    (h : ∀ v ∈ db.versions, (v.document_id, t) ∈ owners db → v.storage_path ≠ key →
      blobs v.storage_path = blobs' v.storage_path) :
    SameBlobs t db (blobs.save key content) (blobs'.save key content) := by
  intro v hv howner
  by_cases hkey : v.storage_path = key
  · rw [hkey, Blobs.save_self, Blobs.save_self]
  · rw [Blobs.save_ne _ _ hkey, Blobs.save_ne _ _ hkey]
    exact h v hv howner hkey

theorem twin_save (h : Twin t w w' x x') (key : String) (content : Bytes) :
    Twin t w w' { x with blobs := x.blobs.save key content }
      { x' with blobs := x'.blobs.save key content } :=
  ⟨⟨h.now.rows, same_blobs_save_both _ _ (fun v hv ho _ => h.now.blobs v hv ho), h.now.points⟩,
    ⟨h.back.rows, same_blobs_save_both _ _ (fun v hv ho _ => h.back.blobs v hv ho),
      h.back.points⟩⟩

/-- Both indexes take in the same points. -/
theorem same_points_upserts {points points' : List VectorPoint} (h : SamePoints t points points')
    (rows : List VectorPoint) :
    SamePoints t (rows.foldl (keyed_rows.upsert VectorPoint.id) points)
      (rows.foldl (keyed_rows.upsert VectorPoint.id) points') := by
  induction rows generalizing points points' with
  | nil => exact h
  | cons row rows ih =>
    refine ih ?_
    intro p hp
    rw [mem_upsert, mem_upsert, h p hp]

theorem twin_points (h : Twin t w w' x x') (rows : List VectorPoint) :
    Twin t w w'
      { x with points := rows.foldl (keyed_rows.upsert VectorPoint.id) x.points }
      { x' with points := rows.foldl (keyed_rows.upsert VectorPoint.id) x'.points } :=
  ⟨⟨h.now.rows, h.now.blobs, same_points_upserts h.now.points rows⟩,
    ⟨h.back.rows, h.back.blobs, same_points_upserts h.back.points rows⟩⟩

/-- A program that keeps a tenant the same returns the same from a session, and
leaves the same. -/
theorem session_both {p : Service α} (h : Both w w' p (fun _ => Twin t w w') (Twin t w w'))
    (faults : List (Option Interruption)) :
    (session p ⟨w, faults, false⟩).1 = (session p ⟨w', faults, false⟩).1 ∧
      Same t (session p ⟨w, faults, false⟩).2.world (session p ⟨w', faults, false⟩).2.world := by
  have hcommit : Both w w' (do let a ← p; write .ok; return a : Service α)
      (fun _ => Twin t w w') (Twin t w w') := by
    refine both_bind h ?_
    intro a x x' hx
    exact both_write hx (Or.inr ⟨x.db, x'.db, rfl, rfl, both_pure hx⟩)
  have hagree := hcommit ⟨w, faults, false⟩ ⟨w', faults, false⟩ ⟨rfl, rfl, rfl, rfl⟩
  unfold session
  rcases hp : (do let a ← p; write .ok; return a : Service α) ⟨w, faults, false⟩ with ⟨e | a, d⟩ <;>
    rcases hp' : (do let a ← p; write .ok; return a : Service α) ⟨w', faults, false⟩
      with ⟨e' | a', d'⟩ <;>
    rw [hp, hp'] at hagree
  · exact ⟨congrArg Except.error hagree.1, hagree.2.1.back⟩
  · exact hagree.elim
  · exact hagree.elim
  · exact ⟨congrArg Except.ok hagree.1, hagree.2.1.now⟩

/-! ## Documents -/

variable {P : Providers} {settings : Settings} {m : Moment}

/-- Worlds that the operations can work on: the rows are sound, and the tenant
has the same. -/
structure Ready (tenant_id : String) (w w' x x' : World) : Prop where
  twin : Twin tenant_id w w' x x'
  rows : RowsSound x.db x.issued
  rows' : RowsSound x'.db x'.issued

theorem load_document_same (h : Ready t w w' x x') (d : UUID) :
    load_document x.db t d = load_document x'.db t d := by
  unfold load_document
  rw [get_same h.rows h.rows' h.twin.now.rows]

theorem same_blobs_update (h : Same t x x') (db_now : DateTime) (document : KnowledgeDocument) :
    SameBlobs t (SqlAlchemyDocumentRepository.update x.db db_now document) x.blobs x'.blobs := by
  intro v hv howner
  rw [owners_update] at howner
  exact h.blobs v hv howner

theorem twin_update (h : Twin t w w' x x') (db_now : DateTime) (document : KnowledgeDocument) :
    Twin t w w' { x with db := SqlAlchemyDocumentRepository.update x.db db_now document }
      { x' with db := SqlAlchemyDocumentRepository.update x'.db db_now document } :=
  twin_rows h (same_rows_update_both h.now.rows db_now document)
    (same_blobs_update h.now db_now document)

/-- A document of the tenant is there in both worlds, or the call ends alike. -/
theorem both_loaded {d : UUID} {f : KnowledgeDocument → Service α} {Q : α → World → World → Prop}
    (h : Ready t w w' x x')
    (hf : ∀ document, SqlAlchemyDocumentRepository.get x.db t d = some document →
      Both x x' (f document) Q (Twin t w w')) :
    Both x x' (do
      let document ← of_except (← query (fun db => load_document db t d))
      f document) Q (Twin t w w') := by
  refine both_query h.twin (load_document_same h d) ?_
  refine both_of_except h.twin ?_
  intro document hload
  exact hf document (load_document_ok hload)

theorem get_both (data : GetDocumentInput) (h : Ready data.tenant_id w w' x x') :
    Both x x' (GetDocumentUseCase.execute data) (fun _ => Twin data.tenant_id w w')
      (Twin data.tenant_id w w') := by
  unfold GetDocumentUseCase.execute
  exact both_loaded h (fun _ _ => both_pure h.twin)

theorem list_both (data : ListDocumentsInput) (h : Ready data.tenant_id w w' x x') :
    Both x x' (ListDocumentsUseCase.execute m data) (fun _ => Twin data.tenant_id w w')
      (Twin data.tenant_id w w') := by
  unfold ListDocumentsUseCase.execute
  refine both_query h.twin (list_documents_same h.rows h.rows' h.twin.now.rows _ _ _ _) ?_
  exact both_pure h.twin

theorem list_versions_both (data : GetDocumentInput) (h : Ready data.tenant_id w w' x x') :
    Both x x' (ListDocumentVersionsUseCase.execute data) (fun _ => Twin data.tenant_id w w')
      (Twin data.tenant_id w w') := by
  unfold ListDocumentVersionsUseCase.execute
  refine both_loaded h ?_
  intro document hget
  rw [← bind_pure (query _)]
  refine both_query h.twin ?_ (both_pure h.twin)
  exact list_versions_same h.rows h.rows' h.twin.now.rows (document_id_of_get hget).1

theorem update_metadata_both (data : UpdateDocumentMetadataInput)
    (h : Ready data.tenant_id w w' x x') :
    Both x x' (UpdateDocumentMetadataUseCase.execute m data) (fun _ => Twin data.tenant_id w w')
      (Twin data.tenant_id w w') := by
  unfold UpdateDocumentMetadataUseCase.execute
  refine both_loaded h ?_
  intro document _
  have hwritten := twin_update h.twin m.db_now (UpdateDocumentMetadataUseCase.merged data document)
  refine both_write h.twin (Or.inr ⟨_, _, rfl, rfl, ?_⟩)
  exact both_effect hwritten (both_pure (twin_events hwritten _))

theorem delete_both (data : GetDocumentInput) (h : Ready data.tenant_id w w' x x') :
    Both x x' (DeleteDocumentUseCase.execute m data) (fun _ => Twin data.tenant_id w w')
      (Twin data.tenant_id w w') := by
  unfold DeleteDocumentUseCase.execute
  refine both_loaded h ?_
  intro document _
  have hwritten := twin_update h.twin m.db_now
    (DeleteDocumentUseCase.marked (m.clock 0) document)
  refine both_write h.twin (Or.inr ⟨_, _, rfl, rfl, ?_⟩)
  unfold publish
  rw [← bind_pure (effect _)]
  exact both_effect hwritten (both_pure (twin_events hwritten _))

/-- No job stands in the way of the first job of a new document. -/
theorem no_active_job {issued : List UUID} (h : RowsSound db issued)
    (data : CreateProcessingJobInput) (hfresh : ∀ d ∈ db.documents, d.id ≠ data.document_id)
    (order : RowOrder) :
    CreateProcessingJobUseCase.check order db.jobs data = .ok () := by
  apply CreateProcessingJobUseCase.check_of_no_job
  intro j hj heq
  obtain ⟨d, hd, hid⟩ := List.mem_map.mp (h.ordered j hj)
  exact hfresh d hd (hid.trans heq)

/-- The job of an upload is created in both worlds. -/
theorem create_job_both (reading : Nat) (data : CreateProcessingJobInput)
    (h : Twin t w w' x x')
    (hnone : CreateProcessingJobUseCase.check m.order x.db.jobs data = .ok ())
    (hnone' : CreateProcessingJobUseCase.check m.order x'.db.jobs data = .ok ()) :
    Both x x' (CreateProcessingJobUseCase.execute settings m reading data)
      (fun _ => Twin t w w') (Twin t w w') := by
  unfold CreateProcessingJobUseCase.execute
  refine both_query h (hnone.trans hnone'.symm) ?_
  refine both_of_except h ?_
  intro _ _
  have hwritten := twin_rows h (same_rows_add_job_both h.now.rows m.db_now
    (CreateProcessingJobUseCase.new_job settings.processing data m.ids.job (m.clock reading)))
    h.now.blobs
  refine both_write h (Or.inr ⟨_, _, rfl, rfl, ?_⟩)
  refine both_effect hwritten ?_
  have hpublished := twin_events hwritten (.ProcessingJobCreated
    (CreateProcessingJobUseCase.new_job settings.processing data m.ids.job (m.clock reading)).id
    data.document_id data.tenant_id data.job_type.str)
  exact both_effect hpublished (both_pure (twin_queue hpublished _))

/-- A document that is not stored has no version. -/
theorem no_version_of_new {issued : List UUID} (h : RowsSound db issued) {d : UUID}
    (hd : ∀ x ∈ db.documents, x.id ≠ d) : ∀ v ∈ db.versions, v.document_id ≠ d := by
  intro v hv he
  obtain ⟨x, hx, hid⟩ := List.mem_map.mp (h.owned v hv)
  exact hd x hx (hid.trans he)

/-- A new document with its first version comes into both worlds. -/
theorem twin_add (h : Ready t w w' x x') {document : KnowledgeDocument}
    {version : KnowledgeDocumentVersion} (hd : ∀ d ∈ x.db.documents, d.id ≠ document.id)
    (hd' : ∀ d ∈ x'.db.documents, d.id ≠ document.id) (hid : version.document_id = document.id)
    (db_now : DateTime) (content : Bytes) :
    ∃ db db', SqlAlchemyDocumentRepository.add x.db db_now document version = .ok db ∧
      SqlAlchemyDocumentRepository.add x'.db db_now document version = .ok db' ∧
      db.jobs = x.db.jobs ∧ db'.jobs = x'.db.jobs ∧
      Twin t w w' { x with db, blobs := x.blobs.save version.storage_path content }
        { x' with db := db', blobs := x'.blobs.save version.storage_path content } := by
  have hv := no_version_of_new h.rows hd
  have hv' := no_version_of_new h.rows' hd'
  -- the number of the version is free, for the document has no other
  have hfree : ∀ {db : Database}, (∀ v ∈ db.versions, v.document_id ≠ document.id) →
      (version_to_model db_now version).number_key ∉
        db.versions.map KnowledgeDocumentVersionModel.number_key := by
    intro db hnew hin
    obtain ⟨v, hmem, he⟩ := List.mem_map.mp hin
    simp only [KnowledgeDocumentVersionModel.number_key, Prod.mk.injEq] at he
    exact hnew v hmem (he.1.trans hid)
  refine ⟨_, _, SqlAlchemyDocumentRepository.add_ok.mpr ⟨hfree hv, rfl⟩,
    SqlAlchemyDocumentRepository.add_ok.mpr ⟨hfree hv', rfl⟩, rfl, rfl, ?_, ?_⟩
  · refine ⟨same_rows_version_both (same_rows_document_both h.twin.now.rows hv hv') _, ?_,
      h.twin.now.points⟩
    refine same_blobs_save_both _ _ ?_
    intro v hmem howner hpath
    rcases List.mem_append.mp hmem with hmem | hmem
    · refine h.twin.now.blobs v hmem ?_
      unfold owners at howner
      rw [List.map_append, List.mem_append, List.map_cons, List.map_nil, List.mem_singleton,
        Prod.mk.injEq] at howner
      rcases howner with howner | ⟨he, _⟩
      · exact howner
      · exact absurd he (hv v hmem)
    · rw [List.mem_singleton.mp hmem] at hpath
      exact absurd rfl hpath
  · exact (twin_save h.twin _ _).back

theorem upload_both (data : UploadDocumentInput) (h : Ready data.tenant_id w w' x x')
    (hd : ∀ d ∈ x.db.documents, d.id ≠ m.ids.document)
    (hd' : ∀ d ∈ x'.db.documents, d.id ≠ m.ids.document) :
    Both x x' (UploadDocumentUseCase.execute P settings m data) (fun _ => Twin data.tenant_id w w')
      (Twin data.tenant_id w w') := by
  unfold UploadDocumentUseCase.execute
  refine both_of_domain h.twin ?_
  intro extension _
  refine both_query h.twin (get_by_checksum_same h.rows h.rows' h.twin.now.rows _ _) ?_
  split
  · exact both_raise h.twin
  · dsimp only
    generalize hversion : UploadDocumentUseCase.new_version P.sha256_hex data extension
      m.ids.document m.ids.version (m.clock 0) = version
    generalize hdocument : UploadDocumentUseCase.new_document data extension m.ids.document version
      (m.clock 0) = document
    have hid : document.id = m.ids.document := by rw [← hdocument]; rfl
    have howner : version.document_id = document.id := by rw [hid, ← hversion]; rfl
    obtain ⟨db, db', hdb, hdb', hjobs, hjobs', hadded⟩ := twin_add h (by rw [hid]; exact hd)
      (by rw [hid]; exact hd') howner m.db_now data.content
    have hnone := no_active_job h.rows (UploadDocumentUseCase.job_input document version)
      (by rw [← hid] at hd; exact hd) m.order
    have hnone' := no_active_job h.rows' (UploadDocumentUseCase.job_input document version)
      (by rw [← hid] at hd'; exact hd') m.order
    refine both_effect h.twin ?_
    refine both_write (twin_save h.twin _ _) (Or.inr ⟨db, db', hdb, hdb', ?_⟩)
    refine both_effect hadded ?_
    refine both_bind (create_job_both 1 _ (twin_events hadded _) ?_ ?_) ?_
    · dsimp only
      rw [hjobs]
      exact hnone
    · dsimp only
      rw [hjobs']
      exact hnone'
    · exact fun _ y y' hy => both_pure hy

/-- A new version of a document of the tenant comes into both worlds. -/
theorem twin_add_version (h : Twin t w w' x x') (document : KnowledgeDocument)
    {version : KnowledgeDocumentVersion} (howner : (version.document_id, t) ∈ owners x.db)
    (hfree : (version.document_id, version.version_number) ∉
      x.db.versions.map KnowledgeDocumentVersionModel.number_key) (db_now : DateTime)
    (content : Bytes) :
    ∃ db db', SqlAlchemyDocumentRepository.add_version x.db db_now document version = .ok db ∧
      SqlAlchemyDocumentRepository.add_version x'.db db_now document version = .ok db' ∧
      Twin t w w' { x with db, blobs := x.blobs.save version.storage_path content }
        { x' with db := db', blobs := x'.blobs.save version.storage_path content } := by
  have hfree' : (version.document_id, version.version_number) ∉
      x'.db.versions.map KnowledgeDocumentVersionModel.number_key := by
    intro hin
    obtain ⟨v, hmem, he⟩ := List.mem_map.mp hin
    have hdocument : v.document_id = version.document_id := (Prod.mk.inj he).1
    exact hfree (List.mem_map.mpr ⟨v, (h.now.rows.versions v (hdocument ▸ howner)).mpr hmem, he⟩)
  refine ⟨_, _, SqlAlchemyDocumentRepository.add_version_ok.mpr ⟨hfree, rfl⟩,
    SqlAlchemyDocumentRepository.add_version_ok.mpr ⟨hfree', rfl⟩, ?_, (twin_save h _ _).back⟩
  refine ⟨same_rows_modify_both (same_rows_version_both h.now.rows _)
    (SqlAlchemyDocumentRepository.add_version_columns_id _ _)
    (SqlAlchemyDocumentRepository.add_version_columns_tenant_id _ _), ?_, h.now.points⟩
  refine same_blobs_save_both _ _ ?_
  intro v hmem hv hpath
  have hv : (v.document_id, t) ∈ owners x.db :=
    owners_modify (SqlAlchemyDocumentRepository.add_version_columns_id _ _)
      (SqlAlchemyDocumentRepository.add_version_columns_tenant_id _ _) ▸ hv
  rcases List.mem_append.mp hmem with hmem | hmem
  · exact h.now.blobs v hmem hv
  · rw [List.mem_singleton.mp hmem] at hpath
    exact absurd rfl hpath

theorem add_version_both (data : AddDocumentVersionInput) (h : Ready data.tenant_id w w' x x') :
    Both x x' (AddDocumentVersionUseCase.execute P settings m data)
      (fun _ => Twin data.tenant_id w w') (Twin data.tenant_id w w') := by
  have hsame : AddDocumentVersionUseCase.check settings.upload x.db data =
      AddDocumentVersionUseCase.check settings.upload x'.db data := by
    unfold AddDocumentVersionUseCase.check
    rw [get_same h.rows h.rows' h.twin.now.rows]
  unfold AddDocumentVersionUseCase.execute
  refine both_query h.twin hsame ?_
  refine both_of_except h.twin ?_
  rintro ⟨document, extension⟩ hcheck
  have howner := (document_id_of_get (AddDocumentVersionUseCase.check_ok hcheck).2).1
  dsimp only
  refine both_query h.twin (list_versions_same h.rows h.rows' h.twin.now.rows howner) ?_
  have hfree : (document.id, AddDocumentVersionUseCase.next_number
      (SqlAlchemyDocumentRepository.list_versions x.db document.id)) ∉
        x.db.versions.map KnowledgeDocumentVersionModel.number_key :=
    AddDocumentVersionUseCase.next_number_fresh
  generalize hversion : AddDocumentVersionUseCase.new_version P.sha256_hex data extension document
    (AddDocumentVersionUseCase.next_number
      (SqlAlchemyDocumentRepository.list_versions x.db document.id)) m.ids.version (m.clock 0) =
    version
  have hdocument : version.document_id = document.id := by rw [← hversion]; rfl
  have hnumber : version.version_number = AddDocumentVersionUseCase.next_number
      (SqlAlchemyDocumentRepository.list_versions x.db document.id) := by rw [← hversion]; rfl
  obtain ⟨db, db', hdb, hdb', hadded⟩ := twin_add_version h.twin
    (AddDocumentVersionUseCase.pointed document version.id) (hdocument ▸ howner)
    (by rw [hdocument, hnumber]; exact hfree) m.db_now data.content
  refine both_effect h.twin ?_
  refine both_write (twin_save h.twin _ _) (Or.inr ⟨db, db', hdb, hdb', ?_⟩)
  exact both_effect hadded (both_pure (twin_events hadded _))

/-! ## Ingestion and jobs -/

theorem ready_events (h : Ready t w w' x x') (event : DomainEvent) :
    Ready t w w' { x with events := x.events ++ [event] }
      { x' with events := x'.events ++ [event] } :=
  ⟨twin_events h.twin event, h.rows, h.rows'⟩

theorem ready_update_job (h : Ready t w w' x x') (db_now : DateTime) (job : ProcessingJob) :
    Ready t w w'
      { x with db := { x.db with
        jobs := SqlAlchemyProcessingJobRepository.update x.db.jobs db_now job } }
      { x' with db := { x'.db with
        jobs := SqlAlchemyProcessingJobRepository.update x'.db.jobs db_now job } } :=
  ⟨twin_rows h.twin (same_rows_update_job_both h.twin.now.rows db_now job) h.twin.now.blobs,
    rows_sound_update_job h.rows db_now job, rows_sound_update_job h.rows' db_now job⟩

theorem load_blob_both {key : String} (hR : R w w') (hsame : w.blobs key = w'.blobs key) :
    Both w w' (StorageProvider.load P key) (fun _ y y' => y = w ∧ y' = w') R := by
  unfold StorageProvider.load
  refine both_external hR ?_
  rintro c c' ⟨rfl, rfl, hlevel⟩
  simp only [look, ← hsame]
  split
  · exact ⟨rfl, ⟨rfl, rfl⟩, hlevel⟩
  · exact ⟨rfl, hR, hlevel⟩

/-- The blob of the active version of a document of the tenant is the same. -/
theorem active_blob_same (h : Ready t w w' x x') {d : UUID} {document : KnowledgeDocument}
    {version : KnowledgeDocumentVersion}
    (hget : SqlAlchemyDocumentRepository.get x.db t d = some document)
    (hactive : document.active_version = some version) :
    x.blobs version.storage_path = x'.blobs version.storage_path := by
  obtain ⟨row, hrow, hid, htenant, _, rfl⟩ := SqlAlchemyDocumentRepository.get_row hget
  obtain ⟨v, hv, hpointer, howner⟩ := h.rows.pointed row hrow
  have hload : SqlAlchemyDocumentRepository.load_version x.db row.current_version_id =
      some (version_to_entity v) := by
    rw [hpointer]
    unfold SqlAlchemyDocumentRepository.load_version
    dsimp only
    rw [find_of_mem _ h.rows.versions hv]
    rfl
  have hversion : version = version_to_entity v :=
    Option.some_inj.mp (hactive.symm.trans hload)
  rw [hversion]
  exact h.twin.now.blobs v hv (howner.symm ▸ owner_of_mem hrow htenant)

theorem index_chunks_both (tenant_id : String) (document_id : UUID) (chunks : List TextChunk)
    (h : Ready t w w' x x') :
    Both x x' (ProcessDocumentUseCase.index_chunks P tenant_id document_id chunks)
      (fun _ => Ready t w w') (Twin t w w') := by
  unfold ProcessDocumentUseCase.index_chunks
  split
  · unfold FastEmbedEmbeddingProvider.embed_batch
    rw [bind_assoc]
    refine both_external h.twin ?_
    refine both_of_except h.twin ?_
    intro vectors _
    refine both_of_except h.twin ?_
    intro points _
    unfold QdrantVectorRepository.upsert
    rw [← bind_pure (effect _)]
    exact both_effect h.twin (both_pure ⟨twin_points h.twin points, h.rows, h.rows'⟩)
  · exact both_pure h

theorem process_both (document_id : UUID) (h : Ready t w w' x x') :
    Both x x' (ProcessDocumentUseCase.execute P m t document_id) (fun _ => Twin t w w')
      (Twin t w w') := by
  have hsame : ProcessDocumentUseCase.load x.db t document_id =
      ProcessDocumentUseCase.load x'.db t document_id := by
    unfold ProcessDocumentUseCase.load
    rw [get_same h.rows h.rows' h.twin.now.rows]
  unfold ProcessDocumentUseCase.execute
  refine both_query h.twin hsame ?_
  refine both_of_except h.twin ?_
  rintro ⟨document, version⟩ hload
  obtain ⟨hget, hactive⟩ := ProcessDocumentUseCase.load_ok hload
  refine both_bind (load_blob_both h.twin (active_blob_same h hget hactive)) ?_
  rintro content y y' ⟨hy, hy'⟩
  rw [hy, hy']
  refine both_external h.twin ?_
  refine both_of_except h.twin ?_
  intro parsed _
  refine both_bind (index_chunks_both _ _ _ h) ?_
  intro _ z z' hz
  rw [← bind_pure (write _)]
  exact both_write hz.twin (Or.inr ⟨_, _, rfl, rfl, both_pure (twin_update hz.twin _ _)⟩)

theorem get_processing_job_both (data : GetJobInput) (h : Ready data.tenant_id w w' x x') :
    Both x x' (GetProcessingJobUseCase.execute data) (fun _ => Twin data.tenant_id w w')
      (Twin data.tenant_id w w') := by
  unfold GetProcessingJobUseCase.execute
  refine both_query h.twin (get_job_same h.rows h.rows' h.twin.now.rows _) ?_
  split
  · exact both_raise h.twin
  · exact both_pure h.twin

theorem list_processing_jobs_both (data : ListJobsInput) (h : Ready data.tenant_id w w' x x') :
    Both x x' (ListProcessingJobsUseCase.execute m data) (fun _ => Twin data.tenant_id w w')
      (Twin data.tenant_id w w') := by
  unfold ListProcessingJobsUseCase.execute
  refine both_query h.twin (list_jobs_same h.rows h.rows' h.twin.now.rows _ _ _ _ _) ?_
  exact both_pure h.twin

theorem both_publish_all (events : List DomainEvent) {f : Unit → Service β}
    {Q : β → World → World → Prop} {I : World → World → Prop}
    (hI : ∀ y y' event, I y y' → I { y with events := y.events ++ [event] }
      { y' with events := y'.events ++ [event] }) (hR : ∀ y y', I y y' → R y y')
    (h : I w w') (hf : ∀ y y', I y y' → Both y y' (f ()) Q R) :
    Both w w' (events.forM publish >>= f) Q R := by
  induction events generalizing w w' with
  | nil => exact hf w w' h
  | cons event events ih =>
    have hfirst : ((event :: events).forM publish >>= f) =
        (publish event >>= fun _ => events.forM publish >>= f) := bind_assoc ..
    rw [hfirst]
    exact both_effect (hR w w' h) (ih (hI w w' event h))

theorem both_enqueue (message : Option Message) {f : Unit → Service β}
    {Q : β → World → World → Prop} (h : Twin t w w' x x')
    (hf : ∀ y y', Twin t w w' y y' → Both y y' (f ()) Q (Twin t w w')) :
    Both x x' (message.forM enqueue >>= f) Q (Twin t w w') := by
  cases message with
  | none => exact hf x x' h
  | some message =>
    have hfirst : ((some message).forM enqueue >>= f) = (enqueue message >>= f) := rfl
    rw [hfirst]
    exact both_effect h (hf _ _ (twin_queue h message))

theorem attempted_both {run : Service Unit} {I : World → World → Prop}
    (h : Both w w' run (fun _ => I) I) :
    Both w w' (WorkerExecutor.attempted run) (fun _ => I) I := by
  have hrun : Both w w' (do run; return none : Service (Option String)) (fun _ => I) I :=
    both_bind h (fun _ _ _ hI => both_pure hI)
  refine alike_attempt hrun ?_
  intro e
  cases e with
  | Raised e => exact alike_pure (fun _ _ hc => hc)
  | Crashed => exact alike_raise (fun _ _ hc => hc)

/-- The execution of a job of the tenant. -/
theorem execute_both (job : ProcessingJob) (h : Ready job.tenant_id w w' x x') :
    Both x x' (WorkerExecutor.execute P settings m job) (fun _ => Twin job.tenant_id w w')
      (Twin job.tenant_id w w') := by
  unfold WorkerExecutor.execute
  split
  · refine both_of_domain h.twin ?_
    rintro ⟨refused, events⟩ _
    refine both_write h.twin (Or.inr ⟨_, _, rfl, rfl, ?_⟩)
    exact both_publish_all events (I := Twin job.tenant_id w w')
      (fun _ _ event hy => twin_events hy event) (fun _ _ hy => hy)
      (ready_update_job h m.db_now refused).twin (fun _ _ hy => both_pure hy)
  · rename_i name _
    refine both_of_domain h.twin ?_
    rintro ⟨started, events⟩ hstarted
    obtain ⟨_, _, htenant, _, _⟩ := WorkerExecutor.started_ok hstarted
    refine both_write h.twin (Or.inr ⟨_, _, rfl, rfl, ?_⟩)
    refine both_publish_all events (I := Ready job.tenant_id w w')
      (fun _ _ event hy => ready_events hy event) (fun _ _ hy => hy.twin)
      (ready_update_job h m.db_now started) ?_
    intro y y' hy
    have hrun : Both y y' (IngestionWorker.run P m started) (fun _ => Twin job.tenant_id w w')
        (Twin job.tenant_id w w') := by
      unfold IngestionWorker.run
      rw [htenant]
      exact process_both started.document_id hy
    refine both_bind (attempted_both hrun) ?_
    intro outcome z z' hz
    refine both_of_domain hz ?_
    rintro ⟨finished, more, message⟩ _
    have hwritten := twin_rows hz (same_rows_update_job_both hz.now.rows m.db_now finished)
      hz.now.blobs
    refine both_write hz (Or.inr ⟨_, _, rfl, rfl, ?_⟩)
    refine both_enqueue message hwritten ?_
    intro v v' hv
    exact both_publish_all more (I := Twin job.tenant_id w w')
      (fun _ _ event hu => twin_events hu event) (fun _ _ hu => hu) hv (fun _ _ hu => both_pure hu)

theorem handle_both (message : Message) (h : Ready message.tenant_id w w' x x') :
    Both x x' (handle_message P settings m message) (fun _ => Twin message.tenant_id w w')
      (Twin message.tenant_id w w') := by
  unfold handle_message
  refine both_query h.twin (get_job_same h.rows h.rows' h.twin.now.rows _) ?_
  split
  · exact both_pure h.twin
  · rename_i job hget
    split
    · exact both_pure h.twin
    · obtain ⟨_, _, _, hrow, hjob⟩ := SqlAlchemyProcessingJobRepository.get_row hget
      have htenant : message.tenant_id = job.tenant_id := by
        rw [hjob]
        exact hrow.symm
      rw [htenant] at h ⊢
      exact both_bind (execute_both job h) (fun _ _ _ hy => both_pure hy)

/-! ## Search and chat -/

theorem retrieve_both (query : String) (top_k : Nat) (h : Twin t w w' x x')
    (hk : Keyed VectorPoint.id x.points) (hk' : Keyed VectorPoint.id x'.points) :
    Both x x' (retrieve P t query top_k) (fun _ y y' => y = x ∧ y' = x') (Twin t w w') := by
  have hkeyed : Keyed VectorPoint.id (QdrantVectorRepository.filtered x.points t) :=
    keyed_filter _ _ hk
  have hpoints := filtered_same hk hk' h.now.points
  unfold retrieve FastEmbedEmbeddingProvider.embed_text FastEmbedEmbeddingProvider.embed_batch
  simp only [bind_assoc]
  refine both_external h ?_
  refine both_of_except h ?_
  intro vectors _
  unfold QdrantVectorRepository.search
  rcases vectors with _ | ⟨vector, vectors⟩
  · exact both_bind (both_raise h) (fun _ _ _ hy => hy)
  · rw [pure_bind]
    refine both_external h ?_
    rw [← bind_pure (look _)]
    refine both_look (g := fun w => .ok ((P.nearest
      (QdrantVectorRepository.filtered w.points t) vector top_k).map
        (fun hit => (⟨hit.1.id, hit.2, hit.1.payload⟩ : SearchResult)))) h ?_ ?_
    · rw [P.nearest_settled _ _ vector top_k hkeyed hpoints]
    · exact fun _ _ => both_pure ⟨rfl, rfl⟩

theorem search_both (data : SearchInput) (h : Twin data.tenant_id w w' x x')
    (hk : Keyed VectorPoint.id x.points) (hk' : Keyed VectorPoint.id x'.points) :
    Both x x' (SemanticSearchUseCase.execute P data) (fun _ => Twin data.tenant_id w w')
      (Twin data.tenant_id w w') := by
  unfold SemanticSearchUseCase.execute
  refine both_bind (retrieve_both _ _ h hk hk') ?_
  rintro results y y' ⟨hy, hy'⟩
  rw [hy, hy']
  exact both_pure h

theorem load_conversation_both (data : AnswerQuestionInput) (h : Ready data.tenant_id w w' x x') :
    Both x x' (AnswerQuestionUseCase.load_conversation m data)
      (fun conversation y y' => AnswerQuestionUseCase.load_or_create_conversation x.db
        m.ids.conversation data = .ok conversation ∧ y = x ∧ y' = x')
      (Twin data.tenant_id w w') := by
  have hsame : AnswerQuestionUseCase.load_or_create_conversation x.db m.ids.conversation data =
      AnswerQuestionUseCase.load_or_create_conversation x'.db m.ids.conversation data := by
    unfold AnswerQuestionUseCase.load_or_create_conversation
    simp only [get_conversation_same h.rows h.rows' h.twin.now.rows]
  unfold AnswerQuestionUseCase.load_conversation
  split
  · rename_i hdata
    rw [← bind_pure (of_except _)]
    refine both_of_except h.twin ?_
    intro conversation hload
    refine both_pure ⟨?_, rfl, rfl⟩
    unfold AnswerQuestionUseCase.load_or_create_conversation at hload ⊢
    rw [hdata] at hload ⊢
    exact hload
  · refine both_query h.twin hsame ?_
    rw [← bind_pure (of_except _)]
    refine both_of_except h.twin ?_
    intro conversation hload
    exact both_pure ⟨hload, rfl, rfl⟩

theorem answer_both (data : AnswerQuestionInput) (h : Ready data.tenant_id w w' x x')
    (hk : Keyed VectorPoint.id x.points) (hk' : Keyed VectorPoint.id x'.points)
    (hc : ∀ c ∈ x.db.conversations, c.id ≠ m.ids.conversation)
    (hc' : ∀ c ∈ x'.db.conversations, c.id ≠ m.ids.conversation) :
    Both x x' (AnswerQuestionUseCase.execute P settings m data)
      (fun _ => Twin data.tenant_id w w') (Twin data.tenant_id w w') := by
  unfold AnswerQuestionUseCase.execute
  refine both_bind (retrieve_both _ _ h.twin hk hk') ?_
  rintro results y y' ⟨hy, hy'⟩
  rw [hy, hy']
  refine both_bind (load_conversation_both data h) ?_
  rintro conversation y y' ⟨hload, hy, hy'⟩
  rw [hy, hy']
  unfold AnswerQuestionUseCase.complete
  rw [bind_assoc]
  refine both_effect h.twin ?_
  have hprompted := twin_prompts h.twin (AnswerQuestionUseCase.llm_messages settings.chat
    (AnswerQuestionUseCase.context results) conversation data.question)
  refine both_of_except hprompted ?_
  intro answer _
  refine both_write hprompted ?_
  rcases stored_both h.rows h.rows' h.twin.now.rows hc hc' rfl m.db_now hload
    (AnswerQuestionUseCase.appended conversation
      (AnswerQuestionUseCase.question_message data (m.clock 0) m.ids.question)
      (AnswerQuestionUseCase.answer_message answer (m.clock 0) m.ids.answer)) rfl with
    ⟨e, he, he'⟩ | ⟨db, db', hdb, hdb', hrows⟩
  · exact Or.inl ⟨e, he, he'⟩
  · refine Or.inr ⟨db, db', hdb, hdb', both_pure (twin_rows hprompted hrows ?_)⟩
    rw [← conversation_log.committed_written] at hdb
    rw [(conversation_log.committed_ok hdb).2]
    exact h.twin.now.blobs

end cortex_rag.service
