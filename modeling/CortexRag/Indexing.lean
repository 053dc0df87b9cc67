-- The laws of the index: an ingestion run stores one point for each chunk and
-- removes none, so it leaves the index exact when its points cover those that
-- earlier runs have stored.
import CortexRag.ServiceOutcomes
import CortexRag.ServiceSound

open keyed_rows labelled_runs state_programs

namespace cortex_rag.indexing

open service

/-! ## An exact index -/

section Exactness

variable (P : Providers) (tenant_id : String) (document_id : UUID)

/-- One point for each chunk of a text, under the number of the chunk. -/
def chunk_points (texts : List String) (vectors : List Vector) : List VectorPoint :=
  (texts.zip vectors).zipIdx.map (fun c => {
    id := chunk_vector_id P document_id c.2
    vector := c.1.2
    payload := {
      tenant_id
      document_id := document_id.str
      chunk_index := c.2
      content := c.1.1 } })

/-- The points of the document in the index. -/
def points_of_document (points : List VectorPoint) : List VectorPoint :=
  points.filter (fun p => p.payload.document_id = document_id.str)

/-- The points of the document are one for each chunk: none is missing, none
stands twice, and none is left over. -/
def Exact (texts : List String) (vectors : List Vector) (points : List VectorPoint) : Prop :=
  (points_of_document document_id points).Perm
    (chunk_points P tenant_id document_id texts vectors)

/-- The ids of `n` chunks are distinct, and each point of the document has one of
them. -/
def Covered (n : Nat) (points : List VectorPoint) : Prop :=
  ((List.range n).map (chunk_vector_id P document_id)).Nodup ∧
    ∀ p ∈ points, p.payload.document_id = document_id.str →
      p.id ∈ (List.range n).map (chunk_vector_id P document_id)

end Exactness

variable {P : Providers} {settings : Settings} {tenant_id : String} {d : UUID}
  {texts : List String} {vectors : List Vector}

/-- The points that the code builds are one for each chunk. -/
theorem points_of_split {points : List VectorPoint}
    (h : ProcessDocumentUseCase.points_of P tenant_id d
      (texts.zipIdx.map (fun c => { index := c.2, content := c.1 })) vectors = .ok points) :
    vectors.length = texts.length ∧ points = chunk_points P tenant_id d texts vectors := by
  unfold ProcessDocumentUseCase.points_of at h
  split at h
  · rename_i hlength
    cases h
    simp only [List.length_map, List.length_zipIdx] at hlength
    refine ⟨hlength.symm, ?_⟩
    apply List.ext_getElem
    · simp [chunk_points, hlength]
    · intro i h1 h2
      simp [chunk_points, ProcessDocumentUseCase.point]
  · cases h

theorem chunk_points_ids (hlength : vectors.length = texts.length) :
    (chunk_points P tenant_id d texts vectors).map VectorPoint.id =
      (List.range texts.length).map (chunk_vector_id P d) := by
  apply List.ext_getElem
  · simp [chunk_points, hlength]
  · intro i h1 h2
    simp [chunk_points]

theorem chunk_points_document {p : VectorPoint}
    (h : p ∈ chunk_points P tenant_id d texts vectors) : p.payload.document_id = d.str := by
  unfold chunk_points at h
  obtain ⟨c, _, rfl⟩ := List.mem_map.mp h
  rfl

/-- An upsert of the points of a document leaves its index exact when they cover
what the index has held, and in no other case. -/
theorem exact_iff_covered (hlength : vectors.length = texts.length) {points : List VectorPoint}
    (hk : Keyed VectorPoint.id points) :
    Exact P tenant_id d texts vectors
        ((chunk_points P tenant_id d texts vectors).foldl (upsert VectorPoint.id) points) ↔
      Covered P d texts.length points := by
  have hids : (chunk_points P tenant_id d texts vectors).map VectorPoint.id =
      (List.range texts.length).map (chunk_vector_id P d) := chunk_points_ids hlength
  have hafter : Keyed VectorPoint.id
      ((chunk_points P tenant_id d texts vectors).foldl (upsert VectorPoint.id) points) :=
    keyed_upserts _ _ hk
  have hkept : Keyed VectorPoint.id (points_of_document d
      ((chunk_points P tenant_id d texts vectors).foldl (upsert VectorPoint.id) points)) :=
    keyed_filter VectorPoint.id _ hafter
  have hmem : ∀ p, p ∈ points_of_document d
        ((chunk_points P tenant_id d texts vectors).foldl (upsert VectorPoint.id) points) ↔
      p ∈ (chunk_points P tenant_id d texts vectors).foldl (upsert VectorPoint.id) points ∧
        p.payload.document_id = d.str := by
    intro p
    simp [points_of_document]
  constructor
  · intro h
    have hnew : Keyed VectorPoint.id (chunk_points P tenant_id d texts vectors) :=
      (h.map VectorPoint.id).nodup_iff.mp hkept
    refine ⟨hids ▸ hnew, ?_⟩
    intro p hp hdocument
    by_contra hid
    have hstays : p ∈ (chunk_points P tenant_id d texts vectors).foldl (upsert VectorPoint.id)
        points := (mem_upserts _ hnew).mpr (Or.inr ⟨hp, hids ▸ hid⟩)
    have hchunk := h.mem_iff.mp ((hmem p).mpr ⟨hstays, hdocument⟩)
    exact hid (hids ▸ List.mem_map.mpr ⟨p, hchunk, rfl⟩)
  · rintro ⟨hdistinct, hcovered⟩
    have hnew : Keyed VectorPoint.id (chunk_points P tenant_id d texts vectors) := by
      unfold Keyed
      rw [hids]
      exact hdistinct
    refine perm_of_same_rows _ hkept hnew ?_
    intro p
    rw [hmem, mem_upserts _ hnew]
    constructor
    · rintro ⟨hp | ⟨hp, hid⟩, hdocument⟩
      · exact hp
      · rw [hids] at hid
        exact absurd (hcovered p hp hdocument) hid
    · intro hp
      exact ⟨Or.inl hp, chunk_points_document hp⟩

/-- Where no two chunks of a document share an id, the points are covered when
no chunk number is past the last chunk. -/
theorem covered_iff_no_left_over {w : World} (h : Sound P w) {n : Nat}
    (hids : Set.InjOn (chunk_vector_id P d)
      {i | i < n ∨ ∃ p ∈ w.points, p.payload.document_id = d.str ∧ p.payload.chunk_index = i}) :
    Covered P d n w.points ↔
      ∀ p ∈ w.points, p.payload.document_id = d.str → p.payload.chunk_index < n := by
  constructor
  · rintro ⟨_, hcovered⟩ p hp hdocument
    obtain ⟨i, hi, heq⟩ := List.mem_map.mp (hcovered p hp hdocument)
    rw [List.mem_range] at hi
    obtain ⟨d', _, hd', hid⟩ := h.points.owned p hp
    obtain rfl := UUID.str_injective d' d (hd'.symm.trans hdocument)
    rw [← hids (Or.inl hi) (Or.inr ⟨p, hp, hdocument, rfl⟩) (heq.trans hid)]
    exact hi
  · intro hindex
    refine ⟨?_, ?_⟩
    · refine List.Nodup.map_on ?_ List.nodup_range
      intro i hi j hj heq
      rw [List.mem_range] at hi hj
      exact hids (Or.inl hi) (Or.inl hj) heq
    · intro p hp hdocument
      obtain ⟨d', _, hd', hid⟩ := h.points.owned p hp
      obtain rfl := UUID.str_injective d' d (hd'.symm.trans hdocument)
      exact List.mem_map.mpr ⟨_, List.mem_range.mpr (hindex p hp hdocument), hid.symm⟩

/-! ## Ingestion runs -/

/-- The text that the bytes of the active version of a document parse to. -/
def document_text (P : Providers) (w : World) (tenant_id : String) (document_id : UUID) :
    Option String := do
  let document ← SqlAlchemyDocumentRepository.get w.db tenant_id document_id
  let version ← document.active_version
  let content ← w.blobs version.storage_path
  let parsed ← (P.parse content version.mime_type).toOption
  return parsed.text

/-- What an ingestion run that ends well has read: the chunks of the text of the
document, with a vector for each. -/
structure Read (P : Providers) (w : World) (tenant_id : String) (document_id : UUID)
    (texts : List String) (vectors : List Vector) : Prop where
  split : (document_text P w tenant_id document_id).map (P.split_text {}) = some texts
  embedded : texts ≠ [] → P.embed .Document texts = .ok vectors
  aligned : vectors.length = texts.length

/-- A run that has stored its chunks has read them. -/
theorem read_of_ingested {w : World} {document : KnowledgeDocument} {after : List VectorPoint}
    (h : Ingested P w tenant_id d document after) :
    ∃ texts vectors, Read P w tenant_id d texts vectors ∧
      after = (chunk_points P tenant_id d texts vectors).foldl (upsert VectorPoint.id)
        w.points := by
  obtain ⟨version, content, parsed, hactive, hcontent, hparsed, hindexed⟩ := h.indexed
  have hsplit : (document_text P w tenant_id d).map (P.split_text {}) =
      some (P.split_text {} parsed.text) := by
    simp [document_text, h.got, hactive, hcontent, hparsed, Except.toOption]
  rw [(document_id_of_get h.got).2.1] at hindexed
  unfold RecursiveChunkingStrategy.split at hindexed
  rcases hindexed with ⟨hnone, rfl⟩ | ⟨vectors, rows, hembed, hrows, rfl⟩
  · -- no chunk, so that the embedder is not called
    have htexts : P.split_text {} parsed.text = [] := by simpa using hnone
    exact ⟨_, [], ⟨hsplit, fun hne => absurd htexts hne, by rw [htexts]; rfl⟩,
      by simp [chunk_points]⟩
  · obtain ⟨hlength, rfl⟩ := points_of_split hrows
    refine ⟨_, vectors, ⟨hsplit, fun _ => ?_, hlength⟩, rfl⟩
    simpa [List.map_map, Function.comp_def] using hembed

/-- An ingestion run stores its points in the index that it finds. -/
theorem process_read {m : Moment} {c c' : Call}
    (h : ProcessDocumentUseCase.execute P m tenant_id d c = (.ok (), c')) :
    ∃ texts vectors, Read P c.world tenant_id d texts vectors ∧ c'.world.points =
      (chunk_points P tenant_id d texts vectors).foldl (upsert VectorPoint.id) c.world.points := by
  obtain ⟨document, points, hingested, hw'⟩ := ends_ok (process_ends tenant_id d) h
  rw [hw'.points]
  exact read_of_ingested hingested

/-- After a run of the service, an ingestion that ends well has left exactly the
chunks of the text in the index of its document where they cover the points of
the runs before it. -/
theorem an_ingestion_is_exact_where_it_covers_what_is_indexed {rs : List Request} {w : World}
    (hrun : run (World.step P settings) {} rs = some w) {m : Moment} {c c' : Call}
    (hc : c.world.points = w.points)
    (h : ProcessDocumentUseCase.execute P m tenant_id d c = (.ok (), c')) :
    ∃ texts vectors, Read P c.world tenant_id d texts vectors ∧
      (Exact P tenant_id d texts vectors c'.world.points ↔
        Covered P d texts.length w.points) := by
  have hsound : Sound P w := run_invariant (fun _ _ _ => sound_keeps) (sound_init P) hrun
  obtain ⟨texts, vectors, hread, hpoints⟩ := process_read h
  refine ⟨texts, vectors, hread, ?_⟩
  rw [hpoints, hc]
  exact exact_iff_covered hread.aligned hsound.points.keyed

/-- The first ingestion of an upload. -/
theorem the_first_ingestion_is_exact_where_nothing_is_indexed :
    ∃ w c', run (World.step plain.providers {}) {} [plain.request 0 (plain.upload [65, 10, 66])] =
        some w ∧
      ProcessDocumentUseCase.execute plain.providers (plain.moment 1) "acme"
        (plain.ids 0).document ⟨w, [], false⟩ = (.ok (), c') ∧
      ∃ texts vectors, Read plain.providers w "acme" (plain.ids 0).document texts vectors ∧
        (Exact plain.providers "acme" (plain.ids 0).document texts vectors c'.world.points ↔
          Covered plain.providers (plain.ids 0).document texts.length w.points) := by
  have hrun : (run (World.step plain.providers {}) {}
      [plain.request 0 (plain.upload [65, 10, 66])]).map (fun w =>
        (ProcessDocumentUseCase.execute plain.providers (plain.moment 1) "acme"
          (plain.ids 0).document ⟨w, [], false⟩).1) = some (.ok ()) := by
    decide +kernel
  obtain ⟨w, hw, hok⟩ := Option.map_eq_some_iff.mp hrun
  exact ⟨w, _, hw, Prod.ext hok rfl,
    an_ingestion_is_exact_where_it_covers_what_is_indexed hw rfl (Prod.ext hok rfl)⟩

/-- A worker stores two chunks and crashes at its commit, and the document gets
a version of one line before the message of the job comes again. -/
def shortened : List Request :=
  [plain.request 0 (plain.upload [65, 10, 66]),
    plain.crashing 11 (plain.request 1 (.Handle ⟨"acme", (plain.ids 0).job⟩)),
    plain.request 2 (plain.add_version (plain.ids 0).document [67])]

theorem a_shorter_version_leaves_a_chunk_of_the_longer_one :
    ∃ w c', run (World.step plain.providers {}) {} shortened = some w ∧
      ProcessDocumentUseCase.execute plain.providers (plain.moment 3) "acme"
        (plain.ids 0).document ⟨w, [], false⟩ = (.ok (), c') ∧
      Read plain.providers w "acme" (plain.ids 0).document ["C"] [[⟨1⟩]] ∧
      ¬ Exact plain.providers "acme" (plain.ids 0).document ["C"] [[⟨1⟩]] c'.world.points := by
  have hrun : (run (World.step plain.providers {}) {} shortened).map (fun w =>
      let call := ProcessDocumentUseCase.execute plain.providers (plain.moment 3) "acme"
        (plain.ids 0).document ⟨w, [], false⟩
      (call.1, (document_text plain.providers w "acme" (plain.ids 0).document).map
        (plain.providers.split_text {}),
        (points_of_document (plain.ids 0).document call.2.world.points).length)) =
      some (.ok (), some ["C"], 2) := by
    decide +kernel
  obtain ⟨w, hw, hcall⟩ := Option.map_eq_some_iff.mp hrun
  simp only [Prod.mk.injEq] at hcall
  obtain ⟨hok, hsplit, hlength⟩ := hcall
  refine ⟨w, _, hw, Prod.ext hok rfl, ⟨hsplit, fun _ => by decide, rfl⟩, ?_⟩
  intro h
  have := h.length_eq
  rw [hlength] at this
  cases this

end cortex_rag.indexing
