-- The laws of duplicate content. An upload looks for the content among the
-- live documents of the tenant; a new version does not, and this is the one
-- way in which two documents come to own the same content.
import CortexRag.LiveDocuments
import CortexRag.ServiceOutcomes

open keyed_rows labelled_runs state_programs

namespace cortex_rag.duplicates

open service

/-- A version of the document has the checksum. -/
def Owns (db : Database) (document_id : UUID) (checksum : String) : Prop :=
  ∃ v ∈ db.versions, v.document_id = document_id ∧ v.checksum_sha256 = checksum

instance (db : Database) (document_id : UUID) (checksum : String) :
    Decidable (Owns db document_id checksum) :=
  inferInstanceAs (Decidable (∃ v ∈ db.versions, v.document_id = document_id ∧
    v.checksum_sha256 = checksum))

/-- No two live documents of a tenant own the same content. -/
def Distinct (db : Database) : Prop :=
  ∀ tenant_id d d', Live db tenant_id d → Live db tenant_id d' →
    ∀ checksum, Owns db d checksum → Owns db d' checksum → d = d'

/-- No content has two owners, so the order of the rows has no say in what
`get_by_checksum` returns. -/
structure Unambiguous (db : Database) : Prop where
  distinct : Distinct db
  one_answer : ∀ tenant_id checksum order order',
    SqlAlchemyDocumentRepository.get_by_checksum order db tenant_id checksum =
      SqlAlchemyDocumentRepository.get_by_checksum order' db tenant_id checksum

/-- The new version passes its checks, and no call on its way fails: the two
reads, the blob, the write, the event and the commit. -/
def Accepted (settings : Settings) (w : World) (r : Request) (data : AddDocumentVersionInput) :
    Prop :=
  w.fresh r = true ∧ Faultless 6 r.moment.faults ∧
    ∃ found, AddDocumentVersionUseCase.check settings.upload w.db data = .ok found

/-- A new version is accepted whose content another live document of the tenant
owns. -/
def Repeats (P : Providers) (settings : Settings) (w : World) (r : Request) : Prop :=
  ∃ data, r.operation = .AddVersion data ∧ Accepted settings w r data ∧
    ∃ d, d ≠ data.document_id ∧ Live w.db data.tenant_id d ∧
      Owns w.db d (P.sha256_hex data.content)

/-! ## One answer -/

theorem get_by_checksum_some (order : RowOrder) {db : Database} {tenant_id checksum : String}
    {m : KnowledgeDocumentModel}
    (hm : m ∈ SqlAlchemyDocumentRepository.checksum_rows db tenant_id checksum) :
    ∃ m' ∈ SqlAlchemyDocumentRepository.checksum_rows db tenant_id checksum,
      SqlAlchemyDocumentRepository.get_by_checksum order db tenant_id checksum =
        some (doc_to_entity m' (SqlAlchemyDocumentRepository.load_version db
          m'.current_version_id)) := by
  have hperm := perm_ordered (fun _ _ => true) order KnowledgeDocumentModel.id
    (SqlAlchemyDocumentRepository.checksum_rows db tenant_id checksum)
  unfold SqlAlchemyDocumentRepository.get_by_checksum
  split
  · rename_i hnone
    rw [List.head?_eq_none_iff] at hnone
    have hin := hperm.mem_iff.mpr hm
    rw [hnone] at hin
    cases hin
  · rename_i m' hm'
    exact ⟨m', hperm.mem_iff.mp (List.mem_of_mem_head? hm'), rfl⟩

/-- Where no content has two owners, the search for it has one answer. -/
theorem one_answer_of_distinct {db : Database} (hk : Keyed KnowledgeDocumentModel.id db.documents)
    (h : Distinct db) : Unambiguous db := by
  refine ⟨h, ?_⟩
  intro tenant_id checksum order order'
  rcases hrows : SqlAlchemyDocumentRepository.checksum_rows db tenant_id checksum with
    _ | ⟨m, rest⟩
  · simp [SqlAlchemyDocumentRepository.get_by_checksum, hrows, ordered]
  · have hm : m ∈ SqlAlchemyDocumentRepository.checksum_rows db tenant_id checksum := by
      rw [hrows]
      exact List.mem_cons_self
    obtain ⟨a, ha, hget⟩ := get_by_checksum_some order hm
    obtain ⟨b, hb, hget'⟩ := get_by_checksum_some order' hm
    obtain ⟨hamem, hatenant, halive, haowns⟩ :=
      SqlAlchemyDocumentRepository.mem_checksum_rows.mp ha
    obtain ⟨hbmem, hbtenant, hblive, hbowns⟩ :=
      SqlAlchemyDocumentRepository.mem_checksum_rows.mp hb
    have hid := h tenant_id a.id b.id ⟨a, hamem, rfl, hatenant, halive⟩
      ⟨b, hbmem, rfl, hbtenant, hblive⟩ checksum haowns hbowns
    rw [hget, hget', eq_of_key _ hk hamem hbmem hid]

/-- An upload that finds no duplicate has none to find. -/
theorem no_owner_of_none {order : RowOrder} {db : Database} {tenant_id checksum : String}
    (h : SqlAlchemyDocumentRepository.get_by_checksum order db tenant_id checksum = none)
    {d : UUID} (hlive : Live db tenant_id d) : ¬ Owns db d checksum := by
  rintro howns
  obtain ⟨m, hm, rfl, htenant, hdeleted⟩ := hlive
  obtain ⟨m', _, hget⟩ := get_by_checksum_some order
    (SqlAlchemyDocumentRepository.mem_checksum_rows.mpr ⟨hm, htenant, hdeleted, howns⟩)
  rw [h] at hget
  cases hget

/-! ## A new version -/

/-- The rows after a new version. -/
def with_version (P : Providers) (m : Moment) (db : Database) (data : AddDocumentVersionInput)
    (document : KnowledgeDocument) (extension : String) : Database :=
  let version := AddDocumentVersionUseCase.new_version P.sha256_hex data extension document
    (AddDocumentVersionUseCase.next_number
      (SqlAlchemyDocumentRepository.list_versions db document.id)) m.ids.version (m.clock 0)
  { db with
    versions := db.versions ++ [version_to_model m.db_now version]
    documents := modify KnowledgeDocumentModel.id document.id
      (SqlAlchemyDocumentRepository.add_version_columns m.db_now
        (AddDocumentVersionUseCase.pointed document version.id)) db.documents }

section Outcome

variable {P : Providers} {settings : Settings} {m : Moment} {w w' : World}
  {faults : List (Option Interruption)} {data : AddDocumentVersionInput}

theorem five_tails {α : Type} (l : List α) : l.tail.tail.tail.tail.tail = l.drop 5 := by
  simp only [← List.drop_one, List.drop_drop]

/-- A new version that is returned has passed the checks, and no call on its way
has failed. -/
theorem accepted_of_add_version {d : Call} {view : DocumentVersionView}
    (h : AddDocumentVersionUseCase.execute P settings m data ⟨w, faults, false⟩ = (.ok view, d)) :
    Faultless 5 faults ∧ d.faults = faults.drop 5 ∧
      ∃ found, AddDocumentVersionUseCase.check settings.upload w.db data = .ok found := by
  unfold AddDocumentVersionUseCase.execute at h
  simp only [bind_ok, query_ok, of_except_ok, save_ok, publish_ok, write_ok, pure_ok] at h
  obtain ⟨_, _, ⟨_, f0, rfl, rfl⟩, found, _, ⟨hcheck, rfl⟩, h⟩ := h
  obtain ⟨_, _, ⟨_, f1, rfl, rfl⟩, _, _, ⟨f2, rfl⟩, h⟩ := h
  obtain ⟨_, _, ⟨_, f3, db, _, rfl⟩, _, _, ⟨f4, rfl⟩, _, rfl⟩ := h
  refine ⟨?_, five_tails faults, found, hcheck⟩
  simp only [faultless_succ]
  exact ⟨f0, f1, f2, f3, f4, fun k hk => absurd hk (Nat.not_lt_zero k)⟩

theorem add_version_of_accepted {document : KnowledgeDocument} {extension : String}
    (hfaults : Faultless 5 faults)
    (hcheck : AddDocumentVersionUseCase.check settings.upload w.db data =
      .ok (document, extension)) :
    ∃ view d, AddDocumentVersionUseCase.execute P settings m data ⟨w, faults, false⟩ =
        (.ok view, d) ∧
      d.world.db = with_version P m w.db data document extension ∧ d.broken = false ∧
      d.faults = faults.drop 5 := by
  simp only [faultless_succ] at hfaults
  obtain ⟨f0, f1, f2, f3, f4, _⟩ := hfaults
  let version := AddDocumentVersionUseCase.new_version P.sha256_hex data extension document
    (AddDocumentVersionUseCase.next_number
      (SqlAlchemyDocumentRepository.list_versions w.db document.id)) m.ids.version (m.clock 0)
  refine ⟨version, ⟨{ w with
    db := with_version P m w.db data document extension
    blobs := w.blobs.save version.storage_path data.content
    events := w.events ++ [.DocumentVersionAdded document.id document.tenant_id version.id
      version.version_number version.checksum_sha256] }, faults.drop 5, false⟩, ?_, rfl, rfl, rfl⟩
  rw [← five_tails]
  unfold AddDocumentVersionUseCase.execute
  simp only [bind_ok, query_ok, of_except_ok, save_ok, publish_ok, write_ok, pure_ok]
  exact ⟨_, _, ⟨trivial, f0, rfl, rfl⟩, _, _, ⟨hcheck, rfl⟩, _, _, ⟨rfl, f1, rfl, rfl⟩, (), _,
    ⟨f2, rfl⟩, (), _, ⟨rfl, f3, _, SqlAlchemyDocumentRepository.add_version_ok.mpr
      ⟨AddDocumentVersionUseCase.next_number_fresh, rfl⟩, rfl⟩, (), _, ⟨f4, rfl⟩, rfl, rfl⟩

theorem accepted_of_session {response : Response} {d : Call}
    (h : session ((Operation.AddVersion data).program P settings m) ⟨w, faults, false⟩ =
      (.ok response, d)) :
    Faultless 6 faults ∧
      ∃ found, AddDocumentVersionUseCase.check settings.upload w.db data = .ok found := by
  simp only [session_ok, Operation.program, bind_ok, pure_ok] at h
  obtain ⟨e, ⟨view, _, hrun, _, rfl⟩, _, hcommit, _⟩ := h
  obtain ⟨hfaults, he, hfound⟩ := accepted_of_add_version hrun
  rw [he] at hcommit
  exact ⟨faultless_last.mpr ⟨hfaults, hcommit⟩, hfound⟩

theorem session_of_accepted {document : KnowledgeDocument} {extension : String}
    (hfaults : Faultless 6 faults)
    (hcheck : AddDocumentVersionUseCase.check settings.upload w.db data =
      .ok (document, extension)) :
    ∃ response d,
      session ((Operation.AddVersion data).program P settings m) ⟨w, faults, false⟩ =
        (.ok response, d) ∧
      d.world.db = with_version P m w.db data document extension := by
  obtain ⟨hfaults, hcommit⟩ := faultless_last.mp hfaults
  obtain ⟨view, e, hrun, hdb, hbroken, he⟩ :=
    add_version_of_accepted (P := P) (m := m) hfaults hcheck
  refine ⟨.Version view, { e with faults := e.faults.tail }, session_ok.mpr ⟨e, ?_, hbroken, ?_,
    rfl⟩, hdb⟩
  · exact bind_ok.mpr ⟨view, e, hrun, rfl⟩
  · rw [he]
    exact hcommit

/-- The rows after a step that adds a version. -/
theorem add_version_step {r : Request} (hop : r.operation = .AddVersion data)
    (hstep : w.step P settings r = some w') :
    (∃ document extension, Accepted settings w r data ∧
        AddDocumentVersionUseCase.check settings.upload w.db data = .ok (document, extension) ∧
        w'.db = with_version P r.moment w.db data document extension) ∨
      (¬ Accepted settings w r data ∧ w'.db = w.db) := by
  unfold World.step at hstep
  split at hstep
  · rename_i hfresh
    cases hstep
    simp only [perform_eq, hop]
    by_cases haccepted : Accepted settings w r data
    · obtain ⟨hfresh, hfaults, ⟨document, extension⟩, hcheck⟩ := haccepted
      obtain ⟨_, d, hend, hdb⟩ := session_of_accepted (P := P) (m := r.moment)
        (w := opened w r) hfaults hcheck
      refine Or.inl ⟨document, extension, ⟨hfresh, hfaults, _, hcheck⟩, hcheck, ?_⟩
      rw [hend]
      exact hdb
    · refine Or.inr ⟨haccepted, ?_⟩
      rcases hend : session ((Operation.AddVersion data).program P settings r.moment)
        ⟨opened w r, r.moment.faults, false⟩ with ⟨e | response, d⟩
      · exact session_error hend
      · exact absurd ⟨hfresh, accepted_of_session (w := opened w r) hend⟩ haccepted
  · cases hstep

end Outcome

/-! ## The steps -/

variable {P : Providers} {settings : Settings} {w w' : World} {r : Request}

/-- An owner of content owned it before the operation, or has come with it in an
upload that found no other owner. -/
theorem owns_before (hw : w.step P settings r = some w')
    (hop : ∀ data, r.operation ≠ .AddVersion data) {d : UUID} {checksum : String}
    (h : Owns w'.db d checksum) :
    Owns w.db d checksum ∨ ∃ data, r.operation = .Upload data ∧ d = r.moment.ids.document ∧
      SqlAlchemyDocumentRepository.get_by_checksum r.moment.order w.db data.tenant_id checksum =
        none := by
  obtain ⟨_, _, hm⟩ := moved_of_step hw
  generalize r.operation = operation at hm hop
  cases hm with
  | still _ _ hb => exact Or.inl (hb.db ▸ h)
  | saved _ _ tenant_id document_id extension at_ content _ hb => exact Or.inl (hb.db ▸ h)
  | uploaded _ data extension version document job _ hnone hv _ _ _ hb =>
    rw [hb.db] at h
    obtain ⟨v, hmem, rfl, rfl⟩ := h
    rcases List.mem_append.mp hmem with hmem | hmem
    · exact Or.inl ⟨v, hmem, rfl, rfl⟩
    · rw [List.mem_singleton] at hmem
      rw [hmem, hv]
      exact Or.inr ⟨data, rfl, rfl, hnone⟩
  | version_added _ data => exact absurd rfl (hop data)
  | updated _ data document _ hb =>
    rw [hb.db] at h
    exact Or.inl h
  | deleted _ data document _ hb =>
    rw [hb.db] at h
    exact Or.inl h
  | indexed _ _ document_id document points _ hb => exact Or.inl (hb.db ▸ h)
  | processed _ data document points _ hb =>
    rw [hb.db] at h
    exact Or.inl h
  | handled _ message job _ he =>
    cases he with
    | refused job' events _ hb =>
      rw [hb.db] at h
      exact Or.inl h
    | failed name text job1 job2 events more enqueued points _ _ _ hb =>
      rw [hb.db] at h
      exact Or.inl h
    | completed name job1 job2 events more enqueued document points _ _ _ hb =>
      rw [hb.db] at h
      exact Or.inl h
  | answered _ data conversation answer db _ hstored hb =>
    rw [← conversation_log.committed_written] at hstored
    rw [hb.db, (conversation_log.committed_ok hstored).2] at h
    exact Or.inl h

/-- An operation that adds no version keeps the contents of live documents
distinct. -/
theorem distinct_of_no_version (h : Sound P w) (hd : Distinct w.db)
    (hop : ∀ data, r.operation ≠ .AddVersion data) (hw : w.step P settings r = some w') :
    Distinct w'.db := by
  obtain ⟨_, hnew, _⟩ := moved_of_step hw
  have hfresh : r.moment.ids.document ∉ w.issued := hnew _ (by simp [FreshIds.all])
  have hsource : ∀ tenant_id d checksum, Live w'.db tenant_id d → Owns w'.db d checksum →
      (Live w.db tenant_id d ∧ Owns w.db d checksum) ∨ (d = r.moment.ids.document ∧
        ∀ d', Live w.db tenant_id d' → ¬ Owns w.db d' checksum) := by
    intro tenant_id d checksum hlive howns
    rcases live_before h hw hlive with hlive | ⟨data, hup, rfl, rfl⟩
    · rcases owns_before hw hop howns with howns | ⟨_, _, rfl, _⟩
      · exact Or.inl ⟨hlive, howns⟩
      · obtain ⟨m, hm, hid, _⟩ := hlive
        exact absurd (hid ▸ h.rows.document_ids m hm) hfresh
    · refine Or.inr ⟨rfl, ?_⟩
      rcases owns_before hw hop howns with ⟨v, hv, howner, _⟩ | ⟨data', hup', _, hnone⟩
      · obtain ⟨m, hm, hid⟩ := List.mem_map.mp (h.rows.owned v hv)
        rw [howner] at hid
        exact absurd (hid ▸ h.rows.document_ids m hm) hfresh
      · rw [hup] at hup'
        cases hup'
        exact fun d' hlive' => no_owner_of_none hnone hlive'
  intro tenant_id d d' hlive hlive' checksum howns howns'
  rcases hsource tenant_id d checksum hlive howns with ⟨hl, ho⟩ | ⟨rfl, hno⟩ <;>
    rcases hsource tenant_id d' checksum hlive' howns' with ⟨hl', ho'⟩ | ⟨rfl, hno'⟩
  · exact hd tenant_id d d' hl hl' checksum ho ho'
  · exact absurd ho (hno' d hl)
  · exact absurd ho' (hno d' hl')
  · rfl

section WithVersion

variable {m : Moment} {data : AddDocumentVersionInput} {document : KnowledgeDocument}
  {extension : String} {db : Database}

theorem owns_with_version {d : UUID} {checksum : String} :
    Owns (with_version P m db data document extension) d checksum ↔
      Owns db d checksum ∨ (document.id = d ∧ P.sha256_hex data.content = checksum) := by
  unfold Owns with_version
  simp [or_and_right, exists_or, version_to_model, AddDocumentVersionUseCase.new_version]

theorem live_with_version {tenant_id : String} {d : UUID} :
    Live (with_version P m db data document extension) tenant_id d ↔ Live db tenant_id d :=
  live_add_version _ (AddDocumentVersionUseCase.pointed document _) _

/-- New content keeps the contents of live documents distinct where no other
live document of the tenant owns it. -/
theorem distinct_with_version {tenant_id : String}
    (hk : Keyed KnowledgeDocumentModel.id db.documents)
    (hd : Distinct db) (hlive : Live db tenant_id document.id)
    (hno : ∀ d, d ≠ document.id → Live db tenant_id d → ¬ Owns db d (P.sha256_hex data.content)) :
    Distinct (with_version P m db data document extension) := by
  intro t d d' hl hl' checksum ho ho'
  rw [live_with_version] at hl hl'
  rw [owns_with_version] at ho ho'
  have htenant : Live db t document.id → t = tenant_id := by
    rintro ⟨a, ha, haid, hat, _⟩
    obtain ⟨b, hb, hbid, hbt, _⟩ := hlive
    rw [← hat, ← hbt, eq_of_key _ hk ha hb (haid.trans hbid.symm)]
  rcases ho with ho | ⟨rfl, rfl⟩ <;> rcases ho' with ho' | ⟨rfl, hc⟩
  · exact hd t d d' hl hl' checksum ho ho'
  · by_contra hne
    exact hno d hne (htenant hl' ▸ hl) (hc ▸ ho)
  · by_contra hne
    exact hno d' (fun he => hne he.symm) (htenant hl ▸ hl') ho'
  · rfl

end WithVersion

theorem unambiguous_keeps (h : Sound P w) (hu : Unambiguous w.db)
    (hr : ¬ Repeats P settings w r) (hw : w.step P settings r = some w') :
    Unambiguous w'.db := by
  refine one_answer_of_distinct (sound_keeps h hw).rows.documents ?_
  by_cases hop : ∃ data, r.operation = .AddVersion data
  · obtain ⟨data, hop⟩ := hop
    rcases add_version_step hop hw with ⟨document, extension, haccepted, hcheck, hdb⟩ | ⟨_, hdb⟩
    · have hget := (AddDocumentVersionUseCase.check_ok hcheck).2
      have hid := (document_id_of_get hget).2.1
      rw [hdb]
      refine distinct_with_version h.rows.documents hu.distinct (live_of_get hget) ?_
      intro d hne hlive howns
      exact hr ⟨data, hop, haccepted, d, hid ▸ hne, hlive, howns⟩
    · rw [hdb]
      exact hu.distinct
  · exact distinct_of_no_version h hu.distinct (fun data he => hop ⟨data, he⟩) hw

/-- A repeated content has two owners after the step. -/
theorem repeats_breaks (hr : Repeats P settings w r) :
    ∃ w', w.step P settings r = some w' ∧ ¬ Unambiguous w'.db := by
  obtain ⟨data, hop, haccepted, d, hne, hlive, howns⟩ := hr
  have hw : w.step P settings r = some (w.perform P settings r).2 := if_pos haccepted.1
  refine ⟨_, hw, ?_⟩
  intro hu
  rcases add_version_step hop hw with ⟨document, extension, _, hcheck, hdb⟩ | ⟨hnot, _⟩
  · have hget := (AddDocumentVersionUseCase.check_ok hcheck).2
    have hid := (document_id_of_get hget).2.1
    rw [hdb] at hu
    refine hne (hid ▸ hu.distinct data.tenant_id d document.id (live_with_version.mpr hlive)
      (live_with_version.mpr (live_of_get hget)) (P.sha256_hex data.content)
      (owns_with_version.mpr (Or.inl howns)) (owns_with_version.mpr (Or.inr ⟨rfl, rfl⟩)))
  · exact hnot haccepted

/-- Every content of a tenant has one live owner in every state of a run exactly
when no step of the run gives a document a version with the content of
another. -/
theorem contents_have_one_owner_unless_a_version_repeats_one (rs : List Request) :
    Throughout (World.step P settings) (fun w => Unambiguous w.db) {} rs ↔
      Along (World.step P settings) (fun w r => ¬ Repeats P settings w r) {} rs := by
  refine throughout_iff_along (I := Sound P) ?_ ?_ ?_ (sound_init P) ?_ rs
  · intro w r w' h _ _ hw
    exact sound_keeps h hw
  · intro w r w' h hu hr hw
    exact unambiguous_keeps h hu hr hw
  · intro w r _ _ hr
    exact repeats_breaks (not_not.mp hr)
  · refine one_answer_of_distinct (by simp [Keyed]) ?_
    rintro tenant_id d d' ⟨_, hm, _⟩
    cases hm

/-- Two uploads of their own content, and the content of the first again, as a
version of the second. -/
def repeated_content : List Request :=
  [plain.request 0 (plain.upload [65]), plain.request 1 (plain.upload [66]),
    plain.request 2 (plain.add_version (plain.ids 1).document [65])]

theorem a_version_can_repeat_the_content_of_another_document :
    ¬ Throughout (World.step plain.providers {}) (fun w => Unambiguous w.db) {}
      repeated_content := by
  intro h
  have hrun : (run (World.step plain.providers {}) {} repeated_content).map (fun w => decide
      (Live w.db "acme" (plain.ids 0).document ∧ Live w.db "acme" (plain.ids 1).document ∧
        Owns w.db (plain.ids 0).document "A" ∧ Owns w.db (plain.ids 1).document "A")) =
      some true := by
    decide +kernel
  obtain ⟨w, hw, hboth⟩ := Option.map_eq_some_iff.mp hrun
  obtain ⟨hlive, hlive', howns, howns'⟩ := of_decide_eq_true hboth
  have hw := h repeated_content [] w (List.append_nil _).symm hw
  exact absurd (hw.distinct _ _ _ hlive hlive' _ howns howns') (by decide)

end cortex_rag.duplicates
