-- The law that retries rely on: ingestion runs in any order, repeated, and with
-- failures among them leave the same index.
import CortexRag.Indexing
import CortexRag.Overwriting
import CortexRag.ProcessedRows
import CortexRag.TenantViews

open keyed_rows labelled_runs state_programs

namespace cortex_rag.confluence

open service indexing

/-! ## The upsert of a run -/

/-- The document whose chunks the request has brought to the index, if it is an
ingestion run that comes to the end of its upsert. -/
def upserted (P : Providers) (w : World) (r : Request) : Option UUID :=
  match r.operation with
  | .Process data =>
    match (indexed_document P data.tenant_id data.document_id
      ⟨opened w r, r.moment.faults, false⟩).1 with
    | .ok _ => some data.document_id
    | .error _ => none
  | _ => none

/-- The documents whose upsert some run of a sequence has reached. -/
def reached (P : Providers) (settings : Settings) (w : World) (rs : List Request) : List UUID :=
  (outputs (fun _ => true) (upserted P) (World.step P settings) w rs).filterMap id

/-- The points that a run on the document puts into the index. -/
def indexed_points (P : Providers) (w : World) (d : UUID) : Set VectorPoint :=
  {p | ∃ tenant_id texts vectors, Read P w tenant_id d texts vectors ∧
    p ∈ chunk_points P tenant_id d texts vectors}

/-- The names that are hashed for the points of the index and for the chunks of
the documents. -/
def names (P : Providers) (w : World) : Set String :=
  chunk_names w.points ∪
    {name | ∃ m ∈ w.db.documents, ∃ texts,
      (document_text P w m.tenant_id m.id).map (P.split_text {}) = some texts ∧
        ∃ i < texts.length, name = chunk_name m.id i}

/-- The request is an ingestion run. -/
def is_ingestion (r : Request) : Bool :=
  match r.operation with
  | .Process _ => true
  | _ => false

variable {P : Providers} {settings : Settings} {m : Moment} {w w' : World} {r : Request}
  {tenant_id : String} {d : UUID} {texts : List String} {vectors : List Vector}

theorem is_ingestion_iff : is_ingestion r = true ↔ ∃ data, r.operation = .Process data := by
  unfold is_ingestion
  split
  · rename_i data hop
    simp [hop]
  · rename_i hno
    simp only [Bool.false_eq_true, false_iff]
    rintro ⟨data, hop⟩
    exact hno data hop

/-! ## One run -/

/-- A run keeps the blobs. It comes to the end of its upsert with the chunks of
its document in the index, or the index stays. -/
theorem ingestion_step {data : GetDocumentInput} (hop : r.operation = .Process data)
    (hw : w.step P settings r = some w') :
    w'.blobs = w.blobs ∧
      ((upserted P w r = none ∧ w'.points = w.points) ∨
        (upserted P w r = some data.document_id ∧ ∃ document,
          Ingested P w data.tenant_id data.document_id document w'.points)) := by
  obtain ⟨_, rfl⟩ := step_some.mp hw
  have hprogram : (Operation.Process data).program P settings r.moment =
      indexed_document P data.tenant_id data.document_id >>= fun document => (do
        write (fun db => .ok (SqlAlchemyDocumentRepository.update db r.moment.db_now
          (ProcessDocumentUseCase.processed document)))
        return .Done) := by
    unfold Operation.program
    simp only [execute_eq, bind_assoc]
  have hends := indexed_document_ends (P := P) data.tenant_id data.document_id
    ⟨opened w r, r.moment.faults, false⟩ rfl
  simp only [perform_eq, upserted, hop, hprogram]
  rcases hrun : indexed_document P data.tenant_id data.document_id
    ⟨opened w r, r.moment.faults, false⟩ with ⟨e | document, d⟩
  · rw [hrun] at hends
    have hstill : d.world = opened w r := hends
    have hblobs : d.world.blobs = w.blobs := by
      rw [hstill]
      rfl
    have hpoints : d.world.points = w.points := by
      rw [hstill]
      rfl
    refine ⟨?_, Or.inl ⟨rfl, ?_⟩⟩
    · simp [session, bind, hrun, hblobs]
    · simp [session, bind, hrun, hpoints]
  · rw [hrun] at hends
    obtain ⟨points, hi, hb⟩ := hends
    let rest : KnowledgeDocument → Service Response := fun document => do
      write (fun db => .ok (SqlAlchemyDocumentRepository.update db r.moment.db_now
        (ProcessDocumentUseCase.processed document)))
      return .Done
    let kept : World → Prop := fun w' => w'.blobs = w.blobs ∧ w'.points = points
    have hrest : Ends d.world (rest document) (fun _ => kept) kept := by
      refine ends_write ⟨hb.blobs, hb.points⟩ ?_
      intro db _
      exact ends_pure ⟨hb.blobs, hb.points⟩
    obtain ⟨hblobs, hpoints⟩ := session_past hrun (fun _ _ h => h) hrest
    refine ⟨hblobs, Or.inr ⟨rfl, document, ?_⟩⟩
    rw [hpoints]
    exact ingested_of_opened hi

/-! ## The texts stay -/

/-- The active version of a document after a run on some document. -/
theorem active_of_processed {issued : List UUID} {db : Database} (h : RowsSound db issued)
    {owner : String} {k : UUID} {document : KnowledgeDocument}
    (hget : SqlAlchemyDocumentRepository.get db owner k = some document) (db_now : DateTime) :
    (SqlAlchemyDocumentRepository.get (SqlAlchemyDocumentRepository.update db db_now
        (ProcessDocumentUseCase.processed document)) tenant_id d).bind
        (fun document => document.active_version) =
      (SqlAlchemyDocumentRepository.get db tenant_id d).bind
        (fun document => document.active_version) := by
  have h' := rows_sound_update h (ProcessDocumentUseCase.processed document) hget rfl rfl db_now
  rcases hbefore : SqlAlchemyDocumentRepository.get db tenant_id d with _ | before
  · rcases hafter : SqlAlchemyDocumentRepository.get (SqlAlchemyDocumentRepository.update db
      db_now (ProcessDocumentUseCase.processed document)) tenant_id d with _ | after
    · rfl
    · have hlive := live_of_update (ProcessDocumentUseCase.processed document) h hget rfl
        (live_of_get hafter)
      rw [(document_id_of_get hafter).2.1] at hlive
      obtain ⟨before, hsome⟩ := get_of_live h.documents hlive
      rw [hbefore] at hsome
      cases hsome
  · obtain ⟨row, hrow, hid, htenant, hlive, rfl⟩ := SqlAlchemyDocumentRepository.get_row hbefore
    have hstays : Live (SqlAlchemyDocumentRepository.update db db_now
        (ProcessDocumentUseCase.processed document)) tenant_id d := by
      apply live_update
      · intro _
        obtain ⟨row0, _, _, _, hlive0, rfl⟩ := SqlAlchemyDocumentRepository.get_row hget
        exact hlive0
      · exact ⟨row, hrow, hid, htenant, hlive⟩
    obtain ⟨after, hafter⟩ := get_of_live h'.documents hstays
    obtain ⟨row', hrow', hid', _, _, rfl⟩ := SqlAlchemyDocumentRepository.get_row hafter
    have hpointer : row'.current_version_id = row.current_version_id := by
      rcases row_of_update h (ProcessDocumentUseCase.processed document) hget rfl rfl hrow' with
        ⟨hkept, _⟩ | ⟨row0, hrow0, _, _, _, rfl, hsame, _, hpointer, _⟩
      · rw [eq_of_key _ h.documents hkept hrow (hid'.trans hid.symm)]
      · obtain rfl := eq_of_key _ h.documents hrow0 hrow
          (hsame.symm.trans (hid'.trans hid.symm))
        exact hpointer
    rw [hafter]
    simp only [Option.bind_some, doc_to_entity, hpointer]
    rfl

theorem document_text_eq (P : Providers) (w : World) (tenant_id : String) (d : UUID) :
    document_text P w tenant_id d =
      ((SqlAlchemyDocumentRepository.get w.db tenant_id d).bind
        (fun document => document.active_version)).bind (fun version =>
          (w.blobs version.storage_path).bind (fun content =>
            (P.parse content version.mime_type).toOption.map (fun parsed => parsed.text))) := by
  unfold document_text
  rcases SqlAlchemyDocumentRepository.get w.db tenant_id d with _ | document
  · rfl
  · rcases hactive : document.active_version with _ | version
    · simp [hactive]
    · rcases hblob : w.blobs version.storage_path with _ | content
      · simp [hactive, hblob]
      · simp [hactive, hblob, Option.map_eq_bind]

/-- A run changes the text of no document. -/
theorem text_stays (h : Sound P w) (hr : is_ingestion r = true)
    (hw : w.step P settings r = some w') (tenant_id : String) (d : UUID) :
    document_text P w' tenant_id d = document_text P w tenant_id d := by
  obtain ⟨data, hop⟩ := is_ingestion_iff.mp hr
  rw [document_text_eq, document_text_eq, (ingestion_step hop hw).1]
  rcases process_step hop hw with ⟨_, hdb⟩ | ⟨document, _, hi, hdb⟩
  · rw [hdb]
  · rw [hdb, active_of_processed h.rows hi.got]

/-! ## The points of a document -/

theorem index_of_chunk_name {i i' : Nat} (h : chunk_name d i = chunk_name d i') : i = i' := by
  have hchars := congrArg String.toList h
  unfold chunk_name at hchars
  simp only [String.toList_append, List.append_assoc] at hchars
  have hdigits := List.append_cancel_left (List.append_cancel_left (List.append_cancel_left hchars))
  have hrepr : Nat.toDigits 10 i = Nat.toDigits 10 i' := by
    rw [← Nat.toList_repr, ← Nat.toList_repr]
    exact hdigits
  rw [← Nat.ofDigitChars_ten_toDigits (n := i), hrepr, Nat.ofDigitChars_ten_toDigits]

/-- What a run reads is the text of the row of its document. -/
theorem row_of_read (h : Read P w tenant_id d texts vectors) :
    ∃ m ∈ w.db.documents, m.id = d ∧ m.tenant_id = tenant_id := by
  rcases hget : SqlAlchemyDocumentRepository.get w.db tenant_id d with _ | document
  · have hsplit := h.split
    rw [document_text_eq, hget] at hsplit
    cases hsplit
  · obtain ⟨m, hm, hid, htenant, _⟩ := SqlAlchemyDocumentRepository.get_row hget
    exact ⟨m, hm, hid, htenant⟩

/-- Two runs on a document read the same. -/
theorem read_unique (hk : Keyed KnowledgeDocumentModel.id w.db.documents)
    (h : Read P w tenant_id d texts vectors) {tenant_id' : String} {texts' : List String}
    {vectors' : List Vector} (h' : Read P w tenant_id' d texts' vectors') :
    tenant_id' = tenant_id ∧ texts' = texts ∧ vectors' = vectors := by
  obtain ⟨m, hm, hid, htenant⟩ := row_of_read h
  obtain ⟨m', hm', hid', htenant'⟩ := row_of_read h'
  obtain rfl := eq_of_key _ hk hm hm' (hid.trans hid'.symm)
  obtain rfl : tenant_id' = tenant_id := htenant'.symm.trans htenant
  obtain rfl : texts' = texts := Option.some.inj (h'.split.symm.trans h.split)
  refine ⟨rfl, rfl, ?_⟩
  by_cases hnone : texts' = []
  · have hlength := h.aligned
    have hlength' := h'.aligned
    rw [hnone, List.length_nil, List.length_eq_zero_iff] at hlength hlength'
    rw [hlength, hlength']
  · exact Except.ok.inj ((h'.embedded hnone).symm.trans (h.embedded hnone))

theorem indexed_points_eq (hk : Keyed KnowledgeDocumentModel.id w.db.documents)
    (h : Read P w tenant_id d texts vectors) :
    indexed_points P w d = {p | p ∈ chunk_points P tenant_id d texts vectors} := by
  ext p
  constructor
  · rintro ⟨tenant_id', texts', vectors', h', hp⟩
    obtain ⟨rfl, rfl, rfl⟩ := read_unique hk h h'
    exact hp
  · intro hp
    exact ⟨tenant_id, texts, vectors, h, hp⟩

/-- The id of a point is the hash of the name of its chunk. -/
theorem name_of_chunk_point (h : Read P w tenant_id d texts vectors) {p : VectorPoint}
    (hp : p ∈ chunk_points P tenant_id d texts vectors) :
    p.payload.document_id = d.str ∧ p.id = P.uuid5 (chunk_name d p.payload.chunk_index) ∧
      chunk_name d p.payload.chunk_index ∈ names P w := by
  obtain ⟨m, hm, rfl, rfl⟩ := row_of_read h
  obtain ⟨c, hc, rfl⟩ := List.mem_map.mp hp
  obtain ⟨_, hi, _⟩ := List.mem_zipIdx hc
  refine ⟨rfl, rfl, Or.inr ⟨m, hm, texts, h.split, c.2, ?_, rfl⟩⟩
  rw [List.length_zip] at hi
  omega

/-- Two points of a text with one chunk number are one. -/
theorem chunk_point_unique {p q : VectorPoint}
    (hp : p ∈ chunk_points P tenant_id d texts vectors)
    (hq : q ∈ chunk_points P tenant_id d texts vectors)
    (hindex : p.payload.chunk_index = q.payload.chunk_index) : p = q := by
  obtain ⟨⟨a, i⟩, ha, rfl⟩ := List.mem_map.mp hp
  obtain ⟨⟨b, j⟩, hb, rfl⟩ := List.mem_map.mp hq
  obtain rfl : i = j := hindex
  rw [List.mem_zipIdx_iff_getElem?] at ha hb
  rw [Option.some.inj (ha.symm.trans hb)]

/-- No two points of the documents share an id. -/
theorem indexed_points_injective (hk : Keyed KnowledgeDocumentModel.id w.db.documents)
    (hnames : Set.InjOn P.uuid5 (names P w)) :
    Set.InjOn VectorPoint.id (⋃ d, indexed_points P w d) := by
  intro p hp q hq hid
  obtain ⟨d, tenant_id, texts, vectors, h, hp⟩ := Set.mem_iUnion.mp hp
  obtain ⟨d', tenant_id', texts', vectors', h', hq⟩ := Set.mem_iUnion.mp hq
  obtain ⟨_, hpid, hpname⟩ := name_of_chunk_point h hp
  obtain ⟨_, hqid, hqname⟩ := name_of_chunk_point h' hq
  have hname := hnames hpname hqname (hpid.symm.trans (hid.trans hqid))
  obtain rfl := document_of_chunk_name hname
  obtain ⟨rfl, rfl, rfl⟩ := read_unique hk h h'
  exact chunk_point_unique hp hq (index_of_chunk_name hname)

theorem keyed_chunk_points (h : Read P w tenant_id d texts vectors)
    (hnames : Set.InjOn P.uuid5 (names P w)) :
    Keyed VectorPoint.id (chunk_points P tenant_id d texts vectors) := by
  obtain ⟨m, hm, rfl, rfl⟩ := row_of_read h
  have hname : ∀ i ∈ List.range texts.length, chunk_name m.id i ∈ names P w := by
    intro i hi
    exact Or.inr ⟨m, hm, texts, h.split, i, List.mem_range.mp hi, rfl⟩
  unfold Keyed
  rw [chunk_points_ids h.aligned]
  refine List.Nodup.map_on ?_ List.nodup_range
  intro i hi j hj heq
  exact index_of_chunk_name (hnames (hname i hi) (hname j hj) heq)

/-! ## Runs -/

/-- A run of ingestions from a world `u` with the texts of `w` writes the points
of the documents whose upsert it reaches. -/
theorem points_after_run (hk : Keyed KnowledgeDocumentModel.id w.db.documents)
    (hnames : Set.InjOn P.uuid5 (names P w)) {rs : List Request}
    (hrs : ∀ r ∈ rs, is_ingestion r = true) {u v : World} (hu : Sound P u)
    (htexts : ∀ tenant_id d, document_text P u tenant_id d = document_text P w tenant_id d)
    (hrun : run (World.step P settings) u rs = some v) :
    {p | p ∈ v.points} = (reached P settings u rs).foldl
      (fun base d => overwrite VectorPoint.id base (indexed_points P w d)) {p | p ∈ u.points} := by
  induction rs generalizing u with
  | nil =>
    simp only [run, Option.some.injEq] at hrun
    rw [hrun]
    rfl
  | cons r rs ih =>
    obtain ⟨x, hx, hrun⟩ := run_cons.mp hrun
    have hr := hrs r List.mem_cons_self
    have hnext := ih (fun r hr => hrs r (List.mem_cons_of_mem _ hr)) (sound_keeps hu hx)
      (fun tenant_id d => (text_stays hu hr hx tenant_id d).trans (htexts tenant_id d)) hrun
    obtain ⟨data, hop⟩ := is_ingestion_iff.mp hr
    have hlist : reached P settings u (r :: rs) =
        (upserted P u r).toList ++ reached P settings x rs := by
      unfold reached
      simp only [outputs, if_true, hx]
      cases upserted P u r <;> rfl
    rw [hnext, hlist, List.foldl_append]
    rcases (ingestion_step hop hx).2 with ⟨hnone, hpoints⟩ | ⟨hsome, document, hi⟩
    · rw [hnone, hpoints]
      rfl
    · obtain ⟨texts, vectors, hread, hpoints⟩ := read_of_ingested hi
      have hread : Read P w data.tenant_id data.document_id texts vectors :=
        ⟨htexts _ _ ▸ hread.split, hread.embedded, hread.aligned⟩
      rw [hsome, hpoints, upserts_overwrite (keyed_chunk_points hread hnames),
        ← indexed_points_eq hk hread]
      rfl

/-- From a world of the service, ingestion runs leave the index to which one
write of the points of the documents leads whose upsert some run has reached.
So two sequences of runs that reach the same documents leave the same index, and
the points of other documents are as before. -/
theorem indexing_is_confluent {rs rs' : List Request} {w v v' : World}
    (hw : Reachable (World.step P settings) {} w) (hnames : Set.InjOn P.uuid5 (names P w))
    (hrs : ∀ r ∈ rs ++ rs', is_ingestion r = true)
    (hv : run (World.step P settings) w rs = some v)
    (hv' : run (World.step P settings) w rs' = some v')
    (hsame : ∀ d, d ∈ reached P settings w rs ↔ d ∈ reached P settings w rs') :
    v.points.Perm v'.points ∧
      ∀ p, (∀ d ∈ reached P settings w rs, p.payload.document_id ≠ d.str) →
        (p ∈ v.points ↔ p ∈ w.points) := by
  have h : Sound P w := sound_of_reachable hw
  have hinj := indexed_points_injective h.rows.documents hnames
  have hafter := points_after_run h.rows.documents hnames
    (fun r hr => hrs r (List.mem_append_left _ hr)) h (fun _ _ => rfl) hv
  have hafter' := points_after_run h.rows.documents hnames
    (fun r hr => hrs r (List.mem_append_right _ hr)) h (fun _ _ => rfl) hv'
  constructor
  · have hsound : Sound P v := run_invariant (fun _ _ _ => sound_keeps) h hv
    have hsound' : Sound P v' := run_invariant (fun _ _ _ => sound_keeps) h hv'
    apply perm_of_same_rows _ hsound.points.keyed hsound'.points.keyed
    intro p
    have hsets : {p | p ∈ v.points} = {p | p ∈ v'.points} := by
      rw [hafter, hafter', overwrites_confluent hinj hsame]
    exact Set.ext_iff.mp hsets p
  · intro p hother
    rw [foldl_overwrite hinj] at hafter
    have hkept : ∀ q ∈ ⋃ d ∈ reached P settings w rs, indexed_points P w d,
        p ∈ w.points → q.id ≠ p.id := by
      intro q hq hp hid
      obtain ⟨d, hd, tenant_id, texts, vectors, hread, hq⟩ := Set.mem_iUnion₂.mp hq
      obtain ⟨_, hqid, hqname⟩ := name_of_chunk_point hread hq
      obtain ⟨owner, _, hdocument, hpid⟩ := h.points.owned p hp
      have hname := hnames hqname (Or.inl ⟨p, hp, owner, hdocument, rfl⟩)
        (hqid.symm.trans (hid.trans hpid))
      exact hother d hd (document_of_chunk_name hname ▸ hdocument)
    have hmem : p ∈ v.points ↔ p ∈ overwrite VectorPoint.id {p | p ∈ w.points}
        (⋃ d ∈ reached P settings w rs, indexed_points P w d) := Set.ext_iff.mp hafter p
    rw [hmem, mem_overwrite]
    constructor
    · rintro (hp | ⟨hp, _⟩)
      · obtain ⟨d, hd, tenant_id, texts, vectors, hread, hp⟩ := Set.mem_iUnion₂.mp hp
        exact absurd (name_of_chunk_point hread hp).1 (hother d hd)
      · exact hp
    · intro hp
      exact Or.inr ⟨hp, fun q hq => hkept q hq hp⟩

/-- The uploads of a text of two lines and of one of one line. -/
def two_texts : List Request :=
  [plain.request 0 (plain.upload [65, 10, 66]), plain.request 1 (plain.upload [67])]

/-- Each text is ingested, the first one again after a crash at its commit. -/
def crashed_and_repeated : List Request :=
  [plain.crashing 6 (plain.request 2 (.Process ⟨"acme", (plain.ids 0).document⟩)),
    plain.request 3 (.Process ⟨"acme", (plain.ids 1).document⟩),
    plain.request 4 (.Process ⟨"acme", (plain.ids 0).document⟩)]

/-- Each text is ingested once, the second one first. -/
def the_other_way_round : List Request :=
  [plain.request 2 (.Process ⟨"acme", (plain.ids 1).document⟩),
    plain.request 3 (.Process ⟨"acme", (plain.ids 0).document⟩)]

theorem a_crash_and_a_repetition_leave_the_same_index :
    ∃ w v v', run (World.step plain.providers {}) {} two_texts = some w ∧
      run (World.step plain.providers {}) w crashed_and_repeated = some v ∧
      run (World.step plain.providers {}) w the_other_way_round = some v' ∧
      v.points.length = 3 ∧ v.points.Perm v'.points := by
  have hrun : (run (World.step plain.providers {}) {} two_texts).map (fun w => decide (
      w.points.length = 0 ∧
      (∀ m ∈ w.db.documents, m.id ∈ [(plain.ids 0).document, (plain.ids 1).document] ∧
        ∀ texts ∈ (document_text plain.providers w m.tenant_id m.id).map
          (plain.providers.split_text {}), texts.length ≤ 2) ∧
      (run (World.step plain.providers {}) w crashed_and_repeated).map
        (fun v => v.points.length) = some 3 ∧
      (run (World.step plain.providers {}) w the_other_way_round).isSome = true ∧
      reached plain.providers {} w crashed_and_repeated =
        [(plain.ids 0).document, (plain.ids 1).document, (plain.ids 0).document] ∧
      reached plain.providers {} w the_other_way_round =
        [(plain.ids 1).document, (plain.ids 0).document])) = some true := by
    decide +kernel
  have hhashes : ∀ d ∈ [(plain.ids 0).document, (plain.ids 1).document],
      ∀ d' ∈ [(plain.ids 0).document, (plain.ids 1).document], ∀ i < 2, ∀ j < 2,
      plain.providers.uuid5 (chunk_name d i) = plain.providers.uuid5 (chunk_name d' j) →
        chunk_name d i = chunk_name d' j := by
    decide +kernel
  obtain ⟨w, hw, hall⟩ := Option.map_eq_some_iff.mp hrun
  obtain ⟨hempty, hdocuments, hlength, hother, hreached, hreached'⟩ := of_decide_eq_true hall
  obtain ⟨v, hv, hthree⟩ := Option.map_eq_some_iff.mp hlength
  obtain ⟨v', hv'⟩ := Option.isSome_iff_exists.mp hother
  have hnamed : ∀ name ∈ names plain.providers w,
      ∃ d ∈ [(plain.ids 0).document, (plain.ids 1).document], ∃ i < 2,
        name = chunk_name d i := by
    rintro name (⟨p, hp, _⟩ | ⟨m, hm, texts, htexts, i, hi, rfl⟩)
    · rw [List.length_eq_zero_iff.mp hempty] at hp
      cases hp
    · obtain ⟨hid, hshort⟩ := hdocuments m hm
      have := hshort texts htexts
      exact ⟨m.id, hid, i, by omega, rfl⟩
  have hnames : Set.InjOn plain.providers.uuid5 (names plain.providers w) := by
    intro a ha b hb hab
    obtain ⟨d, hd, i, hi, rfl⟩ := hnamed a ha
    obtain ⟨d', hd', j, hj, rfl⟩ := hnamed b hb
    exact hhashes d hd d' hd' i hi j hj hab
  have hsame : ∀ d, d ∈ reached plain.providers {} w crashed_and_repeated ↔
      d ∈ reached plain.providers {} w the_other_way_round := by
    intro d
    rw [hreached, hreached']
    simp only [List.mem_cons, List.not_mem_nil, or_false]
    constructor
    · rintro (hd | hd | hd)
      · exact Or.inr hd
      · exact Or.inl hd
      · exact Or.inr hd
    · rintro (hd | hd)
      · exact Or.inr (Or.inl hd)
      · exact Or.inl hd
  exact ⟨w, v, v', hw, hv, hv', hthree,
    (indexing_is_confluent ⟨_, hw⟩ hnames (by decide) hv hv' hsame).1⟩

end cortex_rag.confluence
