-- The laws of the version history under any overlap of transactions: the
-- numbers are 1, 2, 3 and so on, a version never changes, its bytes stay in
-- the blob store, and the active version of a document is one of its own.
import CortexRag.DocumentTransactions

open keyed_rows labelled_runs

namespace cortex_rag.version_history

open document_transactions

/-- The version numbers of a document, in the order of the rows. -/
def numbers (db : Database) (d : UUID) : List Nat :=
  (db.versions.filter (fun v => v.document_id = d)).map (fun v => v.version_number)

/-- The bytes of a version are in the blob store, with their size and hash. -/
def Backed (sha256_hex : Bytes → String) (blobs : Blobs) (v : KnowledgeDocumentVersion) : Prop :=
  ∃ content, blobs v.storage_path = some content ∧ v.size = content.length ∧
    v.checksum_sha256 = sha256_hex content

/-- What holds of the documents and versions in every committed state. -/
structure HistorySound (sha256_hex : Bytes → String) (db : Database) (blobs : Blobs) : Prop where
  one_row_an_id : Keyed KnowledgeDocumentVersionModel.id db.versions
  no_gap : ∀ d, (numbers db d).Perm (List.range' 1 (numbers db d).length)
  newest_first : ∀ d,
    (SqlAlchemyDocumentRepository.list_versions db d).map (fun v => v.version_number) =
      (List.range' 1 (numbers db d).length).reverse
  backed : ∀ v ∈ db.versions, Backed sha256_hex blobs (version_to_entity v)
  pointed : ∀ m ∈ db.documents, ∃ v ∈ db.versions,
    m.current_version_id = some v.id ∧ v.document_id = m.id
  active : ∀ tenant_id d document,
    SqlAlchemyDocumentRepository.get db tenant_id d = some document →
      ∃ v ∈ db.versions, document.active_version = some (version_to_entity v) ∧ v.document_id = d
  processable : ∀ tenant_id d, ProcessDocumentUseCase.load db tenant_id d ≠
    .error (.Domain (ProcessDocumentUseCase.no_active_version d))

/-! ## The numbers -/

theorem numbers_append (db : Database) (row : KnowledgeDocumentVersionModel) (d : UUID) :
    numbers { db with versions := db.versions ++ [row] } d =
      numbers db d ++ if row.document_id = d then [row.version_number] else [] := by
  unfold numbers
  simp only [List.filter_append, List.map_append]
  by_cases h : row.document_id = d <;> simp [h]

/-- With the numbers 1 to n, `list_versions` gives n, n - 1 down to 1. -/
theorem list_versions_numbers {db : Database} {d : UUID} {n : Nat}
    (h : (numbers db d).Perm (List.range' 1 n)) :
    (SqlAlchemyDocumentRepository.list_versions db d).map (fun v => v.version_number) =
      (List.range' 1 n).reverse := by
  unfold SqlAlchemyDocumentRepository.list_versions
  rw [List.map_map]
  refine map_key_sorted (r := fun a b : Nat => b ≤ a) KnowledgeDocumentVersionModel.version_number
    ?_ ?_
  · rw [List.pairwise_reverse]
    exact (List.pairwise_lt_range' 1).imp (fun h => Nat.le_of_lt h)
  · exact h.trans (List.reverse_perm _).symm

/-- With the numbers 1 to n, the next number is n + 1. -/
theorem next_number_eq {db : Database} {d : UUID} {n : Nat}
    (h : (numbers db d).Perm (List.range' 1 n)) :
    AddDocumentVersionUseCase.next_number (SqlAlchemyDocumentRepository.list_versions db d) =
      n + 1 := by
  unfold AddDocumentVersionUseCase.next_number
  rw [list_versions_numbers h]
  cases n with
  | zero => simp
  | succ n =>
    have hmax : (List.range' 1 (n + 1)).reverse.max? = some (n + 1) := by
      rw [List.max?_eq_some_iff]
      simp only [List.mem_reverse, List.mem_range'_1]
      exact ⟨by omega, fun b hb => by omega⟩
    rw [hmax]

/-- A stale number collides, unless it is the next one after all. -/
theorem free_number {db : Database} {d : UUID} {n k : Nat}
    (h : (numbers db d).Perm (List.range' 1 n)) (hpos : 1 ≤ k) (hle : k ≤ n + 1)
    (hfree : (d, k) ∉ db.versions.map KnowledgeDocumentVersionModel.number_key) : k = n + 1 := by
  by_contra hne
  have hk : k ∈ numbers db d := h.mem_iff.mpr (List.mem_range'_1.mpr (by omega))
  unfold numbers at hk
  obtain ⟨v, hv, rfl⟩ := List.mem_map.mp hk
  obtain ⟨hv, hd⟩ := List.mem_filter.mp hv
  refine hfree (List.mem_map.mpr ⟨v, hv, ?_⟩)
  simp only [decide_eq_true_eq] at hd
  rw [KnowledgeDocumentVersionModel.number_key, hd]

/-! ## The ids and the blobs -/

/-- A version whose id is given out, and whose bytes lie under its own key. -/
structure Settled (sha256_hex : Bytes → String) (s : Transactions)
    (v : KnowledgeDocumentVersion) : Prop where
  issued : v.id ∈ s.issued
  keyed : ∃ tenant_id extension at_, '.' ∉ extension.toList ∧
    v.storage_path = build_document_version_key tenant_id v.document_id v.id extension at_
  backed : Backed sha256_hex s.blobs v

/-- The extension that a transaction will put into a key. -/
def Session.accepted : Session → Prop
  | .Checked _ extension => '.' ∉ extension.toList
  | .Opened change _ _ => change.accepted
  | _ => True

/-- Every version, committed or pending, has an id and a blob of its own. -/
structure Stores (sha256_hex : Bytes → String) (s : Transactions) : Prop where
  accepted : ∀ i session, s.sessions i = some session → Session.accepted session
  keyed : Keyed KnowledgeDocumentVersionModel.id s.db.versions
  settled : ∀ v ∈ s.db.versions, Settled sha256_hex s (version_to_entity v)
  pending_settled : ∀ i session v, s.sessions i = some session → session.pending = some v →
    Settled sha256_hex s v
  pending_new : ∀ i session v, s.sessions i = some session → session.pending = some v →
    ∀ w ∈ s.db.versions, w.id ≠ v.id
  pending_apart : ∀ i j session session' v v', s.sessions i = some session →
    s.sessions j = some session' → session.pending = some v → session'.pending = some v' →
    v.id = v'.id → i = j

theorem stores_init (sha256_hex : Bytes → String) : Stores sha256_hex {} := by
  constructor <;> simp [Keyed]

/-- The bytes of a new version under its own key hide the bytes of no other. -/
theorem backed_save {sha256_hex : Bytes → String} {s : Transactions}
    {v w : KnowledgeDocumentVersion} (hv : Settled sha256_hex s v) (hne : v.id ≠ w.id)
    (hkey : ∃ tenant_id extension at_, '.' ∉ extension.toList ∧
      w.storage_path = build_document_version_key tenant_id w.document_id w.id extension at_)
    (content : Bytes) : Backed sha256_hex (s.blobs.save w.storage_path content) v := by
  obtain ⟨tenant_id, extension, at_, hdot, hpath⟩ := hv.keyed
  obtain ⟨tenant_id', extension', at_', hdot', hpath'⟩ := hkey
  obtain ⟨bytes, hbytes, hsize, hsha⟩ := hv.backed
  refine ⟨bytes, ?_, hsize, hsha⟩
  rw [Blobs.save_ne]
  · exact hbytes
  · intro heq
    rw [hpath, hpath'] at heq
    exact hne (version_id_of_key hdot hdot' heq)

theorem settled_step {sha256_hex : Bytes → String} {settings : Settings} {s t : Transactions}
    {a : Action} (hs : Stores sha256_hex s) (h : Moved sha256_hex settings s a t)
    {v : KnowledgeDocumentVersion} (hv : Settled sha256_hex s v) : Settled sha256_hex t v := by
  refine ⟨issued_mono h hv.issued, hv.keyed, ?_⟩
  cases h with
  | stored i now document_id version_id data extension version document hi hd hvid hne hve hde =>
    refine backed_save hv ?_ ?_ data.content
    · intro heq
      have hid : v.id = version_id := by rw [heq, hve]; rfl
      exact hvid (hid ▸ hv.issued)
    · subst hve
      exact ⟨_, _, _, hs.accepted i _ hi, rfl⟩
  | adding i now document_id version_id data extension document since version hi hvid hve =>
    refine backed_save hv ?_ ?_ data.content
    · intro heq
      have hid : v.id = version_id := by rw [heq, hve]; rfl
      exact hvid (hid ▸ hv.issued)
    · subst hve
      exact ⟨_, _, _, hs.accepted i _ hi, rfl⟩
  | _ => exact hv.backed

/-- A pending version was pending before the step, or has a new id and its
bytes just stored. -/
theorem pending_cases {sha256_hex : Bytes → String} {settings : Settings} {s t : Transactions}
    {a : Action} (hs : Stores sha256_hex s) (h : Moved sha256_hex settings s a t) {j : Nat}
    {session : Session} {v : KnowledgeDocumentVersion} (hj : t.sessions j = some session)
    (hv : session.pending = some v) :
    s.sessions j = some session ∨
      (v.id ∉ s.issued ∧ Settled sha256_hex t v ∧ ∀ k, k ≠ j → t.sessions k = s.sessions k) := by
  cases session_moved h hj with
  | kept _ hsj => exact Or.inl hsj
  | checked data extension hdot => cases hv
  | opened change document tenant_id document_id hc hget => cases hv
  | stored data extension document_id version_id now document version hsj hrest hd hvid hne hissued
      hve hde hblobs =>
    cases hv
    refine Or.inr ⟨by rw [hve]; exact hvid, ⟨?_, ?_, ?_⟩, hrest⟩
    · rw [hissued, hve]
      exact List.mem_cons_of_mem _ List.mem_cons_self
    · rw [hve]
      exact ⟨_, _, _, hs.accepted j _ hsj, rfl⟩
    · refine ⟨data.content, ?_, by rw [hve]; rfl, by rw [hve]; rfl⟩
      rw [hblobs, Blobs.save_self]
  | adding data extension document since version_id now version hsj hrest hvid hissued hve hblobs =>
    cases hv
    refine Or.inr ⟨by rw [hve]; exact hvid, ⟨?_, ?_, ?_⟩, hrest⟩
    · rw [hissued, hve]
      exact List.mem_cons_self
    · rw [hve]
      exact ⟨_, _, _, hs.accepted j _ hsj, rfl⟩
    · refine ⟨data.content, ?_, by rw [hve]; rfl, by rw [hve]; rfl⟩
      rw [hblobs, Blobs.save_self]

section Stores

variable {sha256_hex : Bytes → String} {settings : Settings} {s t : Transactions} {a : Action}

/-- A row after a step is an old one, or the pending version of a transaction which the
step has closed. -/
theorem version_before (h : Moved sha256_hex settings s a t) {w : KnowledgeDocumentVersionModel}
    (hw : w ∈ t.db.versions) :
    w ∈ s.db.versions ∨ ∃ i session v, s.sessions i = some session ∧ session.pending = some v ∧
      t.sessions i = none ∧ ∃ db_now, w = version_to_model db_now v := by
  cases versions_moved h with
  | kept ht => exact Or.inl (ht ▸ hw)
  | inserted i session v db_now hi hv hti _ ht =>
    rw [ht, List.mem_append, List.mem_singleton] at hw
    rcases hw with hw | hw
    · exact Or.inl hw
    · exact Or.inr ⟨i, session, v, hi, hv, hti, db_now, hw⟩

theorem accepted_step (hs : Stores sha256_hex s) (h : Moved sha256_hex settings s a t) {j : Nat}
    {session : Session} (hj : t.sessions j = some session) : Session.accepted session := by
  cases session_moved h hj with
  | kept _ hsj => exact hs.accepted j session hsj
  | checked data extension hdot => exact hdot
  | opened change document tenant_id document_id hc hget => exact hc
  | stored => trivial
  | adding => trivial

theorem versions_keyed_step (hs : Stores sha256_hex s) (h : Moved sha256_hex settings s a t) :
    Keyed KnowledgeDocumentVersionModel.id t.db.versions := by
  cases versions_moved h with
  | kept ht =>
    rw [ht]
    exact hs.keyed
  | inserted i session v db_now hi hv hti _ ht =>
    rw [ht]
    exact keyed_append _ hs.keyed (fun w hw => hs.pending_new i session v hi hv w hw)

theorem pending_new_step (hs : Stores sha256_hex s) (h : Moved sha256_hex settings s a t) {j : Nat}
    {session : Session} {v : KnowledgeDocumentVersion} (hj : t.sessions j = some session)
    (hv : session.pending = some v) : ∀ w ∈ t.db.versions, w.id ≠ v.id := by
  intro w hw heq
  rcases pending_cases hs h hj hv with hsj | ⟨hnew, _, _⟩
  · rcases version_before h hw with hw | ⟨i, session', v', hi, hv', hti, db_now, rfl⟩
    · exact hs.pending_new j session v hsj hv w hw heq
    · -- the step has closed the only transaction with this version
      have hij := hs.pending_apart i j session' session v' v hi hsj hv' hv heq
      rw [hij, hj] at hti
      cases hti
  · rcases version_before h hw with hw | ⟨i, session', v', hi, hv', _, db_now, rfl⟩
    · exact hnew (heq ▸ (hs.settled w hw).issued)
    · exact hnew (heq ▸ (hs.pending_settled i session' v' hi hv').issued)

theorem pending_apart_step (hs : Stores sha256_hex s) (h : Moved sha256_hex settings s a t)
    {i j : Nat} {session session' : Session} {v v' : KnowledgeDocumentVersion}
    (hi : t.sessions i = some session) (hj : t.sessions j = some session')
    (hv : session.pending = some v) (hv' : session'.pending = some v') (heq : v.id = v'.id) :
    i = j := by
  rcases pending_cases hs h hi hv with hsi | ⟨hnew, _, hrest⟩
  · rcases pending_cases hs h hj hv' with hsj | ⟨hnew, _, _⟩
    · exact hs.pending_apart i j session session' v v' hsi hsj hv hv' heq
    · exact absurd (heq ▸ (hs.pending_settled i session v hsi hv).issued) hnew
  · by_contra hij
    rw [hrest j (fun h => hij h.symm)] at hj
    exact hnew (heq ▸ (hs.pending_settled j session' v' hj hv').issued)

theorem stores_step (hs : Stores sha256_hex s) (h : Moved sha256_hex settings s a t) :
    Stores sha256_hex t where
  accepted := fun _ _ => accepted_step hs h
  keyed := versions_keyed_step hs h
  settled := by
    intro w hw
    rcases version_before h hw with hw | ⟨i, session, v, hi, hv, _, db_now, rfl⟩
    · exact settled_step hs h (hs.settled w hw)
    · obtain ⟨h1, h2, h3⟩ := settled_step hs h (hs.pending_settled i session v hi hv)
      exact ⟨h1, h2, h3⟩
  pending_settled := by
    intro j session v hj hv
    rcases pending_cases hs h hj hv with hsj | ⟨_, hsettled, _⟩
    · exact settled_step hs h (hs.pending_settled j session v hsj hv)
    · exact hsettled
  pending_new := fun _ _ _ => pending_new_step hs h
  pending_apart := fun _ _ _ _ _ _ => pending_apart_step hs h

end Stores

/-! ## The numbers and the pointers -/

/-- A pointer to a committed version of the document. -/
def PointsIn (s : Transactions) (d : UUID) (pointer : Option UUID) : Prop :=
  ∃ v ∈ s.db.versions, pointer = some v.id ∧ v.document_id = d

/-- Every document has the numbers 1 to n and points to one of its versions;
a pending number is at most the next one. -/
structure Numbering (s : Transactions) : Prop where
  owned : ∀ v ∈ s.db.versions, ∃ m, s.row v.document_id = some m
  no_gap : ∀ d, (numbers s.db d).Perm (List.range' 1 (numbers s.db d).length)
  pointers : ∀ d m, s.row d = some m → PointsIn s d m.current_version_id
  copies : ∀ i change copy since, s.sessions i = some (.Opened change copy since) →
    PointsIn s copy.id copy.current_version_id
  uploads : ∀ i document version, s.sessions i = some (.Stored document version) →
    version.document_id = document.id ∧ document.current_version_id = some version.id ∧
      version.version_number = 1
  additions : ∀ i data extension document version since,
    s.sessions i = some (.Adding data extension document version since) →
    version.document_id = document.id ∧ document.current_version_id = some version.id ∧
      1 ≤ version.version_number ∧
      version.version_number ≤ (numbers s.db document.id).length + 1

theorem numbering_init : Numbering {} := by
  constructor <;> simp [numbers, Transactions.row, find]

theorem points_in_step {sha256_hex : Bytes → String} {settings : Settings} {s t : Transactions}
    {a : Action} (h : Moved sha256_hex settings s a t) {d : UUID} {pointer : Option UUID}
    (hp : PointsIn s d pointer) : PointsIn t d pointer := by
  obtain ⟨v, hv, hpointer, hd⟩ := hp
  exact ⟨v, versions_stay h hv, hpointer, hd⟩

theorem row_of_mem {s : Transactions} (hs : Tied s) {m : KnowledgeDocumentModel}
    (hm : m ∈ s.db.documents) : s.row m.id = some m := find_of_mem _ hs.documents_keyed hm

/-- The version that a step inserts has the next number of its document. -/
theorem next_of_pending {s : Transactions} (hs : Tied s) (hn : Numbering s) {i : Nat}
    {session : Session} {v : KnowledgeDocumentVersion} {db_now : DateTime}
    (hi : s.sessions i = some session) (hv : session.pending = some v)
    (hfree : (version_to_model db_now v).number_key ∉
      s.db.versions.map KnowledgeDocumentVersionModel.number_key) :
    v.version_number = (numbers s.db v.document_id).length + 1 := by
  cases session with
  | Checked data extension => cases hv
  | Opened change document since => cases hv
  | Stored document version =>
    cases hv
    obtain ⟨hd, _, hone⟩ := hn.uploads i document v hi
    -- no row has the id of the upload, so no version belongs to it yet
    have hnone : numbers s.db v.document_id = [] := by
      unfold numbers
      rw [List.map_eq_nil_iff, List.filter_eq_nil_iff]
      intro w hw hwd
      obtain ⟨m, hm⟩ := hn.owned w hw
      obtain ⟨hmem, hid⟩ := find_some _ hm
      rw [decide_eq_true_eq] at hwd
      exact hs.stored_new i document v hi m hmem (hid.trans (hwd.trans hd))
    rw [hone, hnone]
    rfl
  | Adding data extension document version since =>
    cases hv
    obtain ⟨hd, _, hpos, hle⟩ := hn.additions i data extension document v since hi
    rw [← hd] at hle
    exact free_number (hn.no_gap _) hpos hle hfree

theorem no_gap_step {sha256_hex : Bytes → String} {settings : Settings} {s t : Transactions}
    {a : Action} (hs : Tied s) (hn : Numbering s) (h : Moved sha256_hex settings s a t) (d : UUID) :
    (numbers t.db d).Perm (List.range' 1 (numbers t.db d).length) := by
  cases versions_moved h with
  | kept ht =>
    unfold numbers
    rw [ht]
    exact hn.no_gap d
  | inserted i session v db_now hi hv hti hfree ht =>
    have hnumbers : numbers t.db d =
        numbers s.db d ++ if v.document_id = d then [v.version_number] else [] := by
      have happ := numbers_append s.db (version_to_model db_now v) d
      unfold numbers at happ ⊢
      rw [ht]
      exact happ
    rw [hnumbers]
    split
    · rename_i hd
      subst hd
      rw [next_of_pending hs hn hi hv hfree, List.length_append, List.length_singleton,
        List.range'_1_concat, Nat.add_comm 1]
      exact (hn.no_gap _).append_right _
    · rw [List.append_nil]
      exact hn.no_gap d

theorem numbers_mono {sha256_hex : Bytes → String} {settings : Settings} {s t : Transactions}
    {a : Action} (h : Moved sha256_hex settings s a t) (d : UUID) :
    (numbers s.db d).length ≤ (numbers t.db d).length := by
  cases versions_moved h with
  | kept ht =>
    unfold numbers
    rw [ht]
  | inserted i session v db_now hi hv hti hfree ht =>
    unfold numbers
    rw [ht, List.filter_append, List.map_append, List.length_append]
    exact Nat.le_add_right _ _

theorem applied_pointer (now : DateTime) (change : Change) (document : KnowledgeDocument) :
    (change.applied now document).current_version_id = document.current_version_id := by
  cases change <;> rfl

theorem pointers_step {sha256_hex : Bytes → String} {settings : Settings} {s t : Transactions}
    {a : Action} (hs : Tied s) (hn : Numbering s) (h : Moved sha256_hex settings s a t) (d : UUID)
    (m : KnowledgeDocumentModel) (hm : t.row d = some m) : PointsIn t d m.current_version_id := by
  cases row_moved hs h d with
  | kept _ others hrow => exact points_in_step h (hn.pointers d m (hrow ▸ hm))
  | inserted _ i document version db_now hi _ hnone hrow _ ht =>
    rw [hrow, Option.some.injEq] at hm
    subst hm
    have hd : document.id = d := (find_some _ hrow).2
    obtain ⟨howner, hpointer, _⟩ := hn.uploads i document version hi
    exact ⟨version_to_model db_now version, by rw [ht]; simp, hpointer, howner.trans hd⟩
  | updated i order now db_now job_id change document since m0 hi hc hd hm0 htenant hrow =>
    rw [hrow, Option.some.injEq] at hm
    subst hm
    obtain ⟨u, hu⟩ := SqlAlchemyDocumentRepository.update_columns_eq db_now
      (htenant.trans (applied_tenant_id now change document).symm)
    rw [hu, ← hd]
    exact applied_pointer now change document ▸
      points_in_step h (hn.copies i change document since hi)
  | added i order now db_now job_id data extension document version since m0 hi _ hd hm0 _ hrow _
      ht =>
    rw [hrow, Option.some.injEq] at hm
    subst hm
    obtain ⟨u, hu⟩ := SqlAlchemyDocumentRepository.add_version_columns_eq db_now document m0
    obtain ⟨howner, hpointer, _⟩ := hn.additions i data extension document version since hi
    rw [hu]
    exact ⟨version_to_model db_now version, by rw [ht]; simp, hpointer, howner.trans hd⟩

theorem owned_step {sha256_hex : Bytes → String} {settings : Settings} {s t : Transactions}
    {a : Action} (hs : Tied s) (hn : Numbering s) (h : Moved sha256_hex settings s a t)
    (w : KnowledgeDocumentVersionModel) (hw : w ∈ t.db.versions) :
    ∃ m, t.row w.document_id = some m := by
  have hold : w ∈ s.db.versions → ∃ m, t.row w.document_id = some m := by
    intro hw
    obtain ⟨m, hm⟩ := hn.owned w hw
    exact row_stays hs h hm
  cases h with
  | inserted i order now db_now job_id document version jobs hi hjob hk =>
    rcases List.mem_append.mp hw with hw | hw
    · exact hold hw
    · rw [List.mem_singleton] at hw
      subst hw
      exact exists_of_find _ (List.mem_append_right _ List.mem_cons_self)
        (hn.uploads i document version hi).1.symm
  | added i order now db_now job_id data extension document version since hi hk =>
    rcases List.mem_append.mp hw with hw | hw
    · exact hold hw
    · rw [List.mem_singleton] at hw
      subst hw
      obtain ⟨m, hm, _⟩ := copy_row hs hi rfl
      have hd : (version_to_model db_now version).document_id = document.id :=
        (hn.additions i data extension document version since hi).1
      rw [hd]
      exact ⟨_, SqlAlchemyDocumentRepository.find_pointed _ hm⟩
  | _ => exact hold hw

theorem numbering_step {sha256_hex : Bytes → String} {settings : Settings} {s t : Transactions}
    {a : Action} (hs : Tied s) (hn : Numbering s) (h : Moved sha256_hex settings s a t) :
    Numbering t := by
  refine ⟨owned_step hs hn h, no_gap_step hs hn h, pointers_step hs hn h, ?_, ?_, ?_⟩
  · intro j change copy since hj
    cases session_moved h hj with
    | kept _ hsj => exact points_in_step h (hn.copies j change copy since hsj)
    | opened _ _ tenant_id document_id hc hget =>
      obtain ⟨m, hm, hid, _, _, rfl⟩ := SqlAlchemyDocumentRepository.get_row hget
      exact points_in_step h (hn.pointers m.id m (row_of_mem hs hm))
  · intro j document version hj
    cases session_moved h hj with
    | kept _ hsj => exact hn.uploads j document version hsj
    | stored data extension document_id version_id now _ _ _ _ _ _ _ _ hve hde _ =>
      rw [hde, hve]
      exact ⟨rfl, rfl, rfl⟩
  · intro j data extension document version since hj
    cases session_moved h hj with
    | kept _ hsj =>
      obtain ⟨howner, hpointer, hpos, hle⟩ :=
        hn.additions j data extension document version since hsj
      exact ⟨howner, hpointer, hpos, hle.trans (Nat.add_le_add_right (numbers_mono h _) 1)⟩
    | adding _ _ document _ version_id now _ hsj hrest hvid hissued hve hblobs =>
      have hnext := next_number_eq (hn.no_gap document.id)
      rw [hnext] at hve
      rw [hve]
      exact ⟨rfl, rfl, Nat.le_add_left 1 _, Nat.add_le_add_right (numbers_mono h document.id) 1⟩

/-! ## The laws -/

/-- The joint invariant of the tables, the blobs and the open transactions. -/
structure Sound (sha256_hex : Bytes → String) (s : Transactions) : Prop where
  tied : Tied s
  stores : Stores sha256_hex s
  numbering : Numbering s

theorem sound_init (sha256_hex : Bytes → String) : Sound sha256_hex {} :=
  ⟨tied_init, stores_init sha256_hex, numbering_init⟩

theorem sound_keeps {sha256_hex : Bytes → String} {settings : Settings} (s : Transactions)
    (a : Action) (t : Transactions) (hs : Sound sha256_hex s)
    (h : s.step sha256_hex settings a = some t) : Sound sha256_hex t := by
  have hm := moved_of_step h
  exact ⟨tied_step hs.tied hm, stores_step hs.stores hm, numbering_step hs.tied hs.numbering hm⟩

/-- What the pointer of a document loads is a version of that document. -/
theorem load_pointed {sha256_hex : Bytes → String} {s : Transactions} (hs : Sound sha256_hex s)
    {d : UUID} {pointer : Option UUID} (hp : PointsIn s d pointer) :
    ∃ v ∈ s.db.versions, SqlAlchemyDocumentRepository.load_version s.db pointer =
      some (version_to_entity v) ∧ v.document_id = d := by
  obtain ⟨v, hv, rfl, hd⟩ := hp
  refine ⟨v, hv, ?_, hd⟩
  simp only [SqlAlchemyDocumentRepository.load_version]
  rw [find_of_mem _ hs.stores.keyed hv]
  rfl

theorem active_of_get {sha256_hex : Bytes → String} {s : Transactions} (hs : Sound sha256_hex s)
    {tenant_id : String} {d : UUID} {document : KnowledgeDocument}
    (h : SqlAlchemyDocumentRepository.get s.db tenant_id d = some document) :
    ∃ v ∈ s.db.versions, document.active_version = some (version_to_entity v) ∧
      v.document_id = d := by
  obtain ⟨m, hm, rfl, _, _, rfl⟩ := SqlAlchemyDocumentRepository.get_row h
  exact load_pointed hs (hs.numbering.pointers m.id m (row_of_mem hs.tied hm))

theorem history_sound_of_sound {sha256_hex : Bytes → String} {s : Transactions}
    (hs : Sound sha256_hex s) : HistorySound sha256_hex s.db s.blobs := by
  refine ⟨hs.stores.keyed, hs.numbering.no_gap, ?_, ?_, ?_, ?_, ?_⟩
  · intro d
    exact list_versions_numbers (hs.numbering.no_gap d)
  · intro v hv
    exact (hs.stores.settled v hv).backed
  · intro m hm
    exact hs.numbering.pointers m.id m (row_of_mem hs.tied hm)
  · intro tenant_id d document h
    exact active_of_get hs h
  · intro tenant_id d h
    unfold ProcessDocumentUseCase.load at h
    split at h
    · simp [ProcessDocumentUseCase.not_found, ProcessDocumentUseCase.no_active_version] at h
    · rename_i document hget
      obtain ⟨v, _, hactive, _⟩ := active_of_get hs hget
      rw [hactive] at h
      cases h

/-- In every committed state the version history is sound, and a version that
has committed is there, unchanged, in every later state. -/
theorem the_version_history_is_sound (sha256_hex : Bytes → String) (settings : Settings)
    (as bs : List Action) {s t : Transactions}
    (hs : run (Transactions.step sha256_hex settings) {} as = some s)
    (ht : run (Transactions.step sha256_hex settings) s bs = some t) :
    HistorySound sha256_hex t.db t.blobs ∧ ∀ v ∈ s.db.versions, v ∈ t.db.versions := by
  have hsound : Sound sha256_hex s := run_invariant sound_keeps (sound_init sha256_hex) hs
  refine ⟨history_sound_of_sound (run_invariant sound_keeps hsound ht), ?_⟩
  intro v hv
  exact run_invariant (I := fun u => v ∈ u.db.versions)
    (fun u a w hu h => versions_stay (moved_of_step h) hu) hv ht

/-- Two versions that are added at the same time: the second one to commit
collides with the first. -/
def two_additions : List Action :=
  let data : AddDocumentVersionInput := {
    tenant_id := "acme", document_id := ⟨1⟩, original_filename := "plan.pdf"
    content := [37, 80, 68, 70], content_type := "application/pdf" }
  [.Open 1 (fun _ => 0) (.AddVersion data),
    .Open 2 (fun _ => 0) (.AddVersion data),
    .Store 1 noon ⟨4⟩ ⟨5⟩,
    .Store 2 noon ⟨4⟩ ⟨6⟩,
    .Commit 2 (fun _ => 0) noon noon ⟨7⟩,
    .Commit 1 (fun _ => 0) noon noon ⟨7⟩]

theorem two_additions_leave_a_sound_history :
    ∃ s t, run (Transactions.step pdf_sha256 {}) {} one_upload = some s ∧
      run (Transactions.step pdf_sha256 {}) s two_additions = some t ∧
      HistorySound pdf_sha256 t.db t.blobs ∧ (∀ v ∈ s.db.versions, v ∈ t.db.versions) ∧
      numbers t.db ⟨1⟩ = [1, 2] := by
  have hrun : ((run (Transactions.step pdf_sha256 {}) {} one_upload).bind (fun s =>
      run (Transactions.step pdf_sha256 {}) s two_additions)).map (fun t => numbers t.db ⟨1⟩) =
      some [1, 2] := by
    decide +kernel
  obtain ⟨t, ht, hnumbers⟩ := Option.map_eq_some_iff.mp hrun
  obtain ⟨s, hs, ht⟩ := Option.bind_eq_some_iff.mp ht
  have hsound := the_version_history_is_sound pdf_sha256 {} one_upload two_additions hs ht
  exact ⟨s, t, hs, ht, hsound.1, hsound.2, hnumbers⟩

end cortex_rag.version_history
