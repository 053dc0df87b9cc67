-- The service refines the catalogue: the rows of every state that it reaches stand
-- for a catalogue, and every call does to the rows what it does to that one.
import CortexRag.Catalogue
import CortexRag.Refinements
import CortexRag.ServiceOutcomes
import CortexRag.ServiceSound

open keyed_rows refinements state_programs

namespace cortex_rag.catalogue

open service

/-! ## Rows and entries -/

/-- The row of an entry. -/
def Entry.row (entry : Entry) : KnowledgeDocumentModel where
  id := entry.id
  tenant_id := entry.tenant_id
  knowledge_space_id := entry.knowledge_space_id
  title := entry.title
  source_type := entry.source_type
  current_version_id := some entry.newest.id
  status := entry.document.status
  metadata := entry.metadata
  created_by := entry.created_by
  deleted_at := entry.document.deleted_at
  created_at := entry.created_at
  updated_at := entry.updated_at

/-- The rows stand for the catalogue. -/
structure Represents (db : Database) (c : Catalogue) : Prop where
  rows : db.documents = c.map Entry.row
  versions : ∀ entry ∈ c,
    SqlAlchemyDocumentRepository.list_versions db entry.id = entry.versions

theorem represents_init : Represents {} [] := ⟨rfl, fun _ h => by cases h⟩

theorem live_iff (entry : Entry) : entry.row.deleted_at = none ↔ entry.live = true := by
  unfold Entry.row Entry.document Entry.live
  rcases entry.stage with _ | _ | at_ <;> simp

/-- A document read from the row of an entry is the entry's. -/
theorem document_of_row (entry : Entry) :
    doc_to_entity entry.row (some entry.newest) = entry.document := rfl

variable {db : Database} {issued : List UUID} {c : Catalogue} {entry : Entry}

theorem keyed_entries (h : RowsSound db issued) (hc : Represents db c) : Keyed Entry.id c := by
  have hkeyed := h.documents
  rw [hc.rows] at hkeyed
  exact (keyed_map KnowledgeDocumentModel.id).mp hkeyed

/-- The versions of an entry are rows of its own. -/
theorem mem_versions (hc : Represents db c) (hentry : entry ∈ c) {v : KnowledgeDocumentVersion} :
    v ∈ entry.versions ↔
      ∃ row ∈ db.versions, row.document_id = entry.id ∧ version_to_entity row = v := by
  rw [← hc.versions entry hentry]
  unfold SqlAlchemyDocumentRepository.list_versions
  simp only [List.mem_map, List.mem_insertionSort, List.mem_filter, decide_eq_true_eq, and_assoc]

theorem load_newest (h : RowsSound db issued) (hc : Represents db c) (hentry : entry ∈ c) :
    SqlAlchemyDocumentRepository.load_version db (some entry.newest.id) = some entry.newest := by
  obtain ⟨row, hrow, _, hnewest⟩ := (mem_versions hc hentry).mp List.mem_cons_self
  have hid : row.id = entry.newest.id := congrArg KnowledgeDocumentVersion.id hnewest
  unfold SqlAlchemyDocumentRepository.load_version
  rw [← hid]
  simp only [find_of_mem _ h.versions hrow, Option.map_some, hnewest]

theorem get_eq (h : RowsSound db issued) (hc : Represents db c) (tenant_id : String)
    (document_id : UUID) :
    SqlAlchemyDocumentRepository.get db tenant_id document_id =
      (lookup c tenant_id document_id).map Entry.document := by
  have hrow : SqlAlchemyDocumentRepository.live_row db tenant_id document_id =
      (lookup c tenant_id document_id).map Entry.row := by
    unfold SqlAlchemyDocumentRepository.live_row lookup
    rw [hc.rows, List.find?_map]
    congr 2
    funext entry
    simp only [Function.comp_apply, live_iff]
    rfl
  unfold SqlAlchemyDocumentRepository.get
  rw [hrow]
  rcases hlookup : lookup c tenant_id document_id with _ | entry
  · rfl
  · have hload := load_newest h hc (mem_of_lookup hlookup).1
    have hcurrent : entry.row.current_version_id = some entry.newest.id := rfl
    simp only [Option.map_some, hcurrent, hload, document_of_row]

/-- The entries that hold a content are those of the rows with its checksum. -/
theorem mem_checksum_rows (hc : Represents db c) {tenant_id checksum : String}
    {m : KnowledgeDocumentModel} :
    m ∈ SqlAlchemyDocumentRepository.checksum_rows db tenant_id checksum ↔
      ∃ entry ∈ c, Holds tenant_id checksum entry ∧ entry.row = m := by
  rw [SqlAlchemyDocumentRepository.mem_checksum_rows, hc.rows]
  constructor
  · rintro ⟨hm, htenant, hlive, row, hrow, howner, hsum⟩
    obtain ⟨entry, hentry, rfl⟩ := List.mem_map.mp hm
    exact ⟨entry, hentry, ⟨htenant, (live_iff entry).mp hlive, version_to_entity row,
      (mem_versions hc hentry).mpr ⟨row, hrow, howner, rfl⟩, hsum⟩, rfl⟩
  · rintro ⟨entry, hentry, ⟨htenant, hlive, v, hv, hsum⟩, rfl⟩
    obtain ⟨row, hrow, howner, rfl⟩ := (mem_versions hc hentry).mp hv
    exact ⟨List.mem_map_of_mem hentry, htenant, (live_iff entry).mpr hlive, row, hrow, howner, hsum⟩

theorem get_by_checksum_none (hc : Represents db c) {order : RowOrder}
    {tenant_id checksum : String}
    (hnone : SqlAlchemyDocumentRepository.get_by_checksum order db tenant_id checksum = none) :
    ∀ entry ∈ c, ¬ Holds tenant_id checksum entry := by
  intro entry hentry hholds
  obtain ⟨hm, hrow⟩ := SqlAlchemyDocumentRepository.mem_checksum_rows.mp
    ((mem_checksum_rows hc).mpr ⟨entry, hentry, hholds, rfl⟩)
  have hsome : ∃ document, SqlAlchemyDocumentRepository.get_by_checksum order db tenant_id
      checksum = some document :=
    SqlAlchemyDocumentRepository.get_by_checksum_iff.mpr ⟨entry.row, hm, hrow⟩
  obtain ⟨document, hsome⟩ := hsome
  rw [hnone] at hsome
  cases hsome

theorem get_by_checksum_some (hc : Represents db c) {order : RowOrder}
    {tenant_id checksum : String} {document : KnowledgeDocument}
    (hsome : SqlAlchemyDocumentRepository.get_by_checksum order db tenant_id checksum =
      some document) :
    ∃ entry ∈ c, Holds tenant_id checksum entry ∧ document.id = entry.id := by
  obtain ⟨m, hm, rfl⟩ := SqlAlchemyDocumentRepository.get_by_checksum_row hsome
  obtain ⟨entry, hentry, hholds, rfl⟩ := (mem_checksum_rows hc).mp hm
  exact ⟨entry, hentry, hholds, rfl⟩

theorem list_documents_eq (h : RowsSound db issued) (hc : Represents db c) (order : RowOrder)
    (tenant_id : String) (knowledge_space_id : Option UUID) (limit offset : Nat) :
    SqlAlchemyDocumentRepository.list_documents order db tenant_id knowledge_space_id limit offset =
      ((page limit offset (listing order c tenant_id knowledge_space_id)).map Entry.document,
        (listing order c tenant_id knowledge_space_id).length) := by
  have hrows : db.documents.filter
      (SqlAlchemyDocumentRepository.listed tenant_id knowledge_space_id) =
      (c.filter (fun entry => entry.tenant_id = tenant_id ∧ entry.live ∧
        (knowledge_space_id = none ∨ entry.knowledge_space_id = knowledge_space_id))).map
          Entry.row := by
    rw [hc.rows, List.filter_map]
    congr 2
    funext entry
    simp only [Function.comp_apply, SqlAlchemyDocumentRepository.listed, live_iff]
    rfl
  have hordered : ordered (fun a b : KnowledgeDocumentModel => b.created_at.le a.created_at) order
      KnowledgeDocumentModel.id (db.documents.filter
        (SqlAlchemyDocumentRepository.listed tenant_id knowledge_space_id)) =
      (listing order c tenant_id knowledge_space_id).map Entry.row := by
    rw [hrows]
    symm
    apply List.map_insertionSort
    intro a _ b _
    rfl
  unfold SqlAlchemyDocumentRepository.list_documents
  have hpage : page limit offset ((listing order c tenant_id knowledge_space_id).map Entry.row) =
      (page limit offset (listing order c tenant_id knowledge_space_id)).map Entry.row := by
    unfold page
    rw [List.map_take, List.map_drop]
  simp only [hordered, hpage]
  refine Prod.ext ?_ ?_
  · rw [List.map_map]
    refine List.map_congr_left ?_
    intro entry hentry
    have hmem : entry ∈ c := List.mem_of_mem_filter
      ((perm_ordered _ _ _ _).mem_iff.mp (List.mem_of_mem_drop (List.mem_of_mem_take hentry)))
    have hload := SqlAlchemyDocumentRepository.load_listed_version h.versions
      (List.mem_map_of_mem (f := Entry.row) hentry)
    rw [Function.comp_apply, hload]
    exact (congrArg _ (load_newest h hc hmem)).trans (document_of_row entry)
  · rw [hrows]
    simp [listing, (perm_ordered _ _ _ _).length_eq]

/-! ## Changes of the rows -/

theorem represents_congr {db' : Database} (hc : Represents db c)
    (hdocuments : db'.documents = db.documents) (hversions : db'.versions = db.versions) :
    Represents db' c := by
  refine ⟨hdocuments.trans hc.rows, ?_⟩
  intro entry hentry
  rw [← hc.versions entry hentry]
  unfold SqlAlchemyDocumentRepository.list_versions
  rw [hversions]

/-- The versions of a document after a row of another one has come in. -/
theorem list_versions_other {row : KnowledgeDocumentVersionModel} {d : UUID}
    {documents : List KnowledgeDocumentModel} (hne : row.document_id ≠ d) :
    SqlAlchemyDocumentRepository.list_versions
        { db with versions := db.versions ++ [row], documents } d =
      SqlAlchemyDocumentRepository.list_versions db d := by
  unfold SqlAlchemyDocumentRepository.list_versions
  simp [List.filter_append, hne]

/-- A row of the document with a number above the others comes first. -/
theorem list_versions_newest (row : KnowledgeDocumentVersionModel)
    (documents : List KnowledgeDocumentModel)
    (hkeyed : Keyed KnowledgeDocumentVersionModel.number_key (db.versions ++ [row]))
    (hhighest : ∀ v ∈ db.versions, v.document_id = row.document_id →
      v.version_number < row.version_number) :
    SqlAlchemyDocumentRepository.list_versions
        { db with versions := db.versions ++ [row], documents } row.document_id =
      version_to_entity row ::
        SqlAlchemyDocumentRepository.list_versions db row.document_id := by
  unfold SqlAlchemyDocumentRepository.list_versions
  have htotal : Std.Total (fun a b : KnowledgeDocumentVersionModel =>
      b.version_number ≤ a.version_number) := ⟨fun a b => Nat.le_total _ _⟩
  have htrans : IsTrans KnowledgeDocumentVersionModel (fun a b =>
      b.version_number ≤ a.version_number) := ⟨fun _ _ _ hab hbc => Nat.le_trans hbc hab⟩
  have hsplit : (db.versions ++ [row]).filter (fun v => v.document_id = row.document_id) =
      db.versions.filter (fun v => v.document_id = row.document_id) ++ [row] := by
    simp [List.filter_append]
  have hsettled : ((db.versions ++ [row]).filter
        (fun v => v.document_id = row.document_id)).insertionSort
          (fun a b => b.version_number ≤ a.version_number) =
      (row :: db.versions.filter (fun v => v.document_id = row.document_id)).insertionSort
        (fun a b => b.version_number ≤ a.version_number) := by
    apply sort_settled
    · intro a ha b hb hab hba
      obtain ⟨ha, howner⟩ := List.mem_filter.mp ha
      obtain ⟨hb, howner'⟩ := List.mem_filter.mp hb
      refine eq_of_key _ hkeyed ha hb (Prod.ext ?_ (Nat.le_antisymm hba hab))
      exact (of_decide_eq_true howner).trans (of_decide_eq_true howner').symm
    · rw [hsplit]
      exact List.perm_append_singleton row _
  simp only [hsettled]
  rw [List.insertionSort_cons_of_forall_rel]
  · rfl
  · intro v hv
    obtain ⟨hv, howner⟩ := List.mem_filter.mp hv
    exact Nat.le_of_lt (hhighest v hv (of_decide_eq_true howner))

/-- A new entry with its one version. -/
theorem represents_insert (h : RowsSound db issued) (hc : Represents db c)
    (new : Entry) {row : KnowledgeDocumentVersionModel} (hnew : ∀ e ∈ c, e.id ≠ new.id)
    (howner : row.document_id = new.id) (hversions : new.versions = [version_to_entity row]) :
    Represents { db with
      versions := db.versions ++ [row], documents := db.documents ++ [new.row] }
      (c ++ [new]) := by
  have hnone : db.versions.filter (fun v => v.document_id = new.id) = [] := by
    rw [List.filter_eq_nil_iff]
    intro v hv hown
    obtain ⟨m, hm, hid⟩ := List.mem_map.mp (h.owned v hv)
    rw [hc.rows] at hm
    obtain ⟨e, he, rfl⟩ := List.mem_map.mp hm
    exact hnew e he (hid.trans (of_decide_eq_true hown))
  refine ⟨?_, forall_append ?_ ?_⟩
  · rw [hc.rows, List.map_append]
    rfl
  · intro e he
    rw [list_versions_other (fun heq => hnew e he (heq.symm.trans howner))]
    exact hc.versions e he
  · unfold SqlAlchemyDocumentRepository.list_versions
    simp [List.filter_append, hnone, howner, hversions]

/-- One entry replaced, with its row and its versions. -/
theorem represents_replaced (h : RowsSound db issued) (hc : Represents db c) (hentry : entry ∈ c)
    {db' : Database} {new : Entry} {f : KnowledgeDocumentModel → KnowledgeDocumentModel}
    (hid : new.id = entry.id) (hrow : f entry.row = new.row)
    (hdocuments : db'.documents = modify KnowledgeDocumentModel.id entry.id f db.documents)
    (hversions : SqlAlchemyDocumentRepository.list_versions db' new.id = new.versions)
    (hothers : ∀ e ∈ c, e.id ≠ entry.id →
      SqlAlchemyDocumentRepository.list_versions db' e.id =
        SqlAlchemyDocumentRepository.list_versions db e.id) :
    Represents db' (replaced c new) := by
  have hkeyed := keyed_entries h hc
  constructor
  · rw [hdocuments, hc.rows]
    unfold replaced keyed_rows.modify
    rw [List.map_map, List.map_map]
    refine List.map_congr_left ?_
    intro e he
    simp only [Function.comp_apply]
    by_cases heq : e.id = entry.id
    · obtain rfl := eq_of_key _ hkeyed he hentry heq
      simp only [hid, if_true]
      exact (if_pos rfl).trans hrow
    · have hne : e.id ≠ new.id := fun hne => heq (hne.trans hid)
      rw [if_neg hne]
      exact if_neg heq
  · intro e he
    rcases mem_of_modify _ he with ⟨he, hne⟩ | ⟨_, _, _, rfl⟩
    · have hne' : e.id ≠ entry.id := fun heq => hne (heq.trans hid.symm)
      rw [hothers e he hne']
      exact hc.versions e he
    · exact hversions

/-! ## The columns of a change -/

/-- A change of the columns that `update` assigns shows in the row. -/
theorem row_eq_iff (title : String) (knowledge_space_id : Option UUID) (stage : Stage)
    (metadata : KnowledgeMetadata) :
    { entry with title, knowledge_space_id, stage, metadata }.row = entry.row ↔
      { entry with title, knowledge_space_id, stage, metadata } = entry := by
  rcases entry with ⟨_, _, _, _, _, old, _, _, _, _, _, _, _, _⟩
  rcases stage with _ | _ | at_ <;> rcases old with _ | _ | at_' <;>
    simp [Entry.row, Entry.document] <;> tauto

theorem row_dated (now : DateTime) (title : String) (knowledge_space_id : Option UUID)
    (stage : Stage) (metadata : KnowledgeMetadata) :
    entry.row.flushed now { entry with title, knowledge_space_id, stage, metadata }.row =
      (entry.dated now { entry with title, knowledge_space_id, stage, metadata }).row := by
  unfold KnowledgeDocumentModel.flushed Entry.dated
  simp only [row_eq_iff]
  split <;> rfl

/-! ## Calls -/

/-- No call to the outside fails. -/
def NoFailure (faults : List (Option Interruption)) : Prop := ∀ fault ∈ faults, fault = none

/-- From the world `w` the program ends in a world of `Q`. In a calm call it
fails with a DomainError of `E` only. -/
def Settles {α : Type} (calm : Prop) (w : World) (p : Service α) (Q : α → World → Prop)
    (E : DomainError → Prop) : Prop :=
  Triple (fun c => c.world = w ∧ (calm → c.broken = false ∧ NoFailure c.faults)) p
    (fun a c => Q a c.world ∧ (calm → c.broken = false ∧ NoFailure c.faults))
    (fun i _ => calm → ∃ e, i = .Raised (.Domain e) ∧ E e)

section Rules

variable {α β : Type} {calm : Prop} {w : World} {Q : β → World → Prop} {E : DomainError → Prop}

theorem settles_pure {b : β} (h : Q b w) : Settles calm w (pure b) Q E :=
  triple_pure (fun _ hc => ⟨hc.1.symm ▸ h, hc.2⟩)

theorem settles_refuse {e : DomainError} (h : E e) :
    Settles calm w (raise (.Raised (.Domain e))) Q E := triple_raise (fun _ _ _ => ⟨e, rfl, h⟩)

theorem settles_bind {p : Service α} {f : α → Service β} {M : α → World → Prop}
    (hp : Settles calm w p M E) (hf : ∀ a w', M a w' → Settles calm w' (f a) Q E) :
    Settles calm w (p >>= f) Q E :=
  triple_bind hp (fun a c hc => hf a c.world hc.1 c ⟨rfl, hc.2⟩)

theorem settles_external {f : Unit → Service β} (h : Settles calm w (f ()) Q E) :
    Settles calm w (external >>= f) Q E := by
  refine settles_bind (M := fun _ w' => w' = w) ?_ (fun _ w' hw' => hw' ▸ h)
  rintro ⟨world, faults, broken⟩ ⟨hw, hcalm⟩
  rcases faults with _ | ⟨_ | fault, faults⟩
  · exact ⟨hw, hcalm⟩
  · exact ⟨hw, fun hc => ⟨(hcalm hc).1, fun x hx => (hcalm hc).2 x (List.mem_cons_of_mem _ hx)⟩⟩
  · intro hc
    cases (hcalm hc).2 _ List.mem_cons_self

theorem settles_of_except {x : Except PyException α} {f : α → Service β}
    (hE : ∀ e, x = .error e → ∃ d, e = .Domain d ∧ E d)
    (h : ∀ a, x = .ok a → Settles calm w (f a) Q E) :
    Settles calm w (of_except x >>= f) Q E := by
  rcases x with e | a
  · obtain ⟨d, rfl, hd⟩ := hE e rfl
    exact settles_bind (M := fun _ _ => False) (settles_refuse hd) (fun _ _ hfalse => hfalse.elim)
  · exact h a rfl

theorem settles_of_domain {x : Except DomainError α} {f : α → Service β}
    (hE : ∀ e, x = .error e → E e) (h : ∀ a, x = .ok a → Settles calm w (f a) Q E) :
    Settles calm w (of_domain x >>= f) Q E := by
  rcases x with e | a
  · exact settles_bind (M := fun _ _ => False) (settles_refuse (hE e rfl))
      (fun _ _ hfalse => hfalse.elim)
  · exact h a rfl

/-- A statement that has its way with the rows fails by a fault only. -/
theorem settles_statement {g : Database → Except PyException (α × Database)}
    {f : α → Service β} {a : α} {db : Database} (hg : g w.db = .ok (a, db))
    (h : Settles calm { w with db } (f a) Q E) : Settles calm w (statement g >>= f) Q E := by
  refine settles_bind (M := fun b w' => b = a ∧ w' = { w with db }) ?_ ?_
  · rintro ⟨world, faults, broken⟩ ⟨rfl, hcalm⟩
    cases broken
    · rcases faults with _ | ⟨_ | fault, faults⟩
      · simp only [statement, external, hg, Bool.false_eq_true, if_false]
        exact ⟨⟨rfl, rfl⟩, hcalm⟩
      · simp only [statement, external, hg, Bool.false_eq_true, if_false]
        exact ⟨⟨rfl, rfl⟩, fun hc => ⟨rfl, fun x hx => (hcalm hc).2 x (List.mem_cons_of_mem _ hx)⟩⟩
      · intro hc
        cases (hcalm hc).2 _ List.mem_cons_self
    · intro hc
      cases (hcalm hc).1
  · rintro b w' ⟨rfl, rfl⟩
    exact h

theorem settles_query {g : Database → α} {f : α → Service β}
    (h : Settles calm w (f (g w.db)) Q E) : Settles calm w (query g >>= f) Q E :=
  settles_statement rfl h

theorem settles_write {g : Database → Except PyException Database} {f : Unit → Service β}
    {db : Database} (hg : g w.db = .ok db) (h : Settles calm { w with db } (f ()) Q E) :
    Settles calm w (write g >>= f) Q E :=
  settles_statement (by rw [hg]; rfl) h

theorem settles_effect {g : World → World} {f : Unit → Service β}
    (h : Settles calm (g w) (f ()) Q E) : Settles calm w (effect g >>= f) Q E := by
  unfold effect
  rw [bind_assoc]
  refine settles_external ?_
  refine settles_bind (M := fun _ w' => w' = g w) ?_ (fun _ w' hw' => hw' ▸ h)
  rintro c ⟨rfl, hcalm⟩
  exact ⟨rfl, hcalm⟩

theorem settles_map {p : Service α} {f : α → β}
    (h : Settles calm w p (fun a => Q (f a)) E) :
    Settles calm w (do let a ← p; return f a : Service β) Q E :=
  settles_bind h (fun _ _ hQ => settles_pure hQ)

/-- What a session of the program gives, and the rows that it leaves. -/
theorem session_settles {p : Service β} (h : Settles calm w p Q E)
    {faults : List (Option Interruption)} (hcalm : calm → NoFailure faults) :
    match session p ⟨w, faults, false⟩ with
    | (.ok b, d) => Q b d.world
    | (.error i, d) => d.world.db = w.db ∧ (calm → ∃ e, i = .Raised (.Domain e) ∧ E e) := by
  have hcommit : Settles calm w (do let b ← p; write .ok; return b : Service β) Q E := by
    refine settles_bind h ?_
    intro b w' hQ
    refine settles_write rfl ?_
    exact settles_pure hQ
  have hgives := hcommit ⟨w, faults, false⟩ ⟨rfl, fun hc => ⟨rfl, hcalm hc⟩⟩
  unfold session
  split
  · rename_i hend
    split at hend
    · rename_i hdone
      rw [hdone] at hgives
      cases hend
      exact hgives.1
    · cases hend
  · rename_i hend
    split at hend
    · cases hend
    · rename_i hfail
      rw [hfail] at hgives
      cases hend
      exact ⟨rfl, hgives⟩

end Rules

/-! ## The operations -/

section Operations

variable {P : Providers} {settings : Settings} {m : Moment} {calm : Prop} {w : World}

/-- The answers to an operation, with rows that stand for the catalogue after it. -/
def Answers (P : Providers) (settings : Settings) (m : Moment) (c : Catalogue)
    (operation : Operation) (response : Response) (w : World) : Prop :=
  ∃ c', Serves P settings m c operation (.ok response) c' ∧ Represents w.db c'

/-- The refusals of an operation. -/
def Refusals (P : Providers) (settings : Settings) (m : Moment) (c : Catalogue)
    (operation : Operation) (e : DomainError) : Prop :=
  Serves P settings m c operation (.error e) c

/-- The job of a document that has none yet is always created. -/
theorem create_job_settles {reading : Nat} {data : CreateProcessingJobInput}
    {E : DomainError → Prop}
    (hcheck : CreateProcessingJobUseCase.check m.order w.db.jobs data = .ok ()) :
    Settles calm w (CreateProcessingJobUseCase.execute settings m reading data)
      (fun _ w' => w'.db.documents = w.db.documents ∧ w'.db.versions = w.db.versions) E := by
  unfold CreateProcessingJobUseCase.execute
  refine settles_query ?_
  rw [hcheck]
  refine settles_write rfl ?_
  refine settles_effect ?_
  refine settles_effect ?_
  exact settles_pure ⟨rfl, rfl⟩

theorem upload_settles (h : RowsSound w.db issued) (hc : Represents w.db c)
    (hnew : m.ids.document ∉ issued) (data : UploadDocumentInput) :
    Settles calm w (UploadDocumentUseCase.execute P settings m data)
      (fun view => Answers P settings m c (.Upload data) (.Document view))
      (Refusals P settings m c (.Upload data)) := by
  have hids : ∀ e ∈ c, e.id ≠ m.ids.document := by
    intro e he heq
    have hrow : e.row ∈ w.db.documents := hc.rows ▸ List.mem_map_of_mem he
    exact hnew (heq ▸ h.document_ids _ hrow)
  have hfree : ∀ d ∈ w.db.documents, d.id ≠ m.ids.document :=
    fun d hd heq => hnew (heq ▸ h.document_ids d hd)
  unfold UploadDocumentUseCase.execute
  refine settles_of_domain (fun e he => .invalid_upload data e he) ?_
  intro extension hextension
  refine settles_query ?_
  split
  · rename_i existing hsome
    obtain ⟨entry, hentry, hholds, hid⟩ := get_by_checksum_some hc hsome
    refine settles_refuse ?_
    unfold UploadDocumentUseCase.conflict
    rw [hid]
    exact .duplicate data extension entry hextension hentry hholds
  · rename_i hnone
    refine settles_effect ?_
    refine settles_write (SqlAlchemyDocumentRepository.add_ok.mpr ⟨?_, rfl⟩) ?_
    · intro hin
      obtain ⟨v, hv, hkey⟩ := List.mem_map.mp hin
      obtain ⟨d, hd, hid⟩ := List.mem_map.mp (h.owned v hv)
      exact hfree d hd (hid.trans (congrArg Prod.fst hkey))
    · refine settles_effect ?_
      refine settles_bind (create_job_settles ?_) ?_
      · refine CreateProcessingJobUseCase.check_of_no_job ?_
        intro j hj heq
        obtain ⟨d, hd, hid⟩ := List.mem_map.mp (h.ordered j hj)
        exact hfree d hd (hid.trans heq)
      · rintro job w' ⟨hdocuments, hversions⟩
        refine settles_pure ⟨c ++ [uploaded P m data extension],
          .uploaded data extension hextension (get_by_checksum_none hc hnone) hids, ?_⟩
        refine represents_congr ?_ hdocuments hversions
        exact represents_insert h hc (uploaded P m data extension) hids rfl rfl

/-- The entry behind a document that a call loads, or the refusal of the call. -/
theorem settles_load {α : Type} (h : RowsSound w.db issued) (hc : Represents w.db c)
    (operation : Operation) {document_id : UUID} (hnamed : named operation = some document_id)
    {f : KnowledgeDocument → Service α} {Q : α → World → Prop}
    (hf : ∀ entry, lookup c operation.tenant_id document_id = some entry →
      Settles calm w (f entry.document) Q (Refusals P settings m c operation)) :
    Settles calm w (do
      let document ← of_except (← query (fun db =>
        load_document db operation.tenant_id document_id))
      f document) Q (Refusals P settings m c operation) := by
  refine settles_query ?_
  unfold load_document
  rw [get_eq h hc]
  rcases hlookup : lookup c operation.tenant_id document_id with _ | entry
  · refine settles_of_except ?_ (fun _ h => by cases h)
    rintro e he
    cases he
    exact ⟨_, rfl, .no_document operation document_id hnamed hlookup⟩
  · exact hf entry hlookup

/-- The next version of an entry takes the next number. -/
theorem next_number_of_entry (entry : Entry) :
    AddDocumentVersionUseCase.next_number entry.versions = entry.older.length + 2 := by
  have hmax : (List.range' 1 (entry.older.length + 1)).reverse.max? =
      some (entry.older.length + 1) := by
    rw [List.max?_eq_some_iff]
    simp only [List.mem_reverse, List.mem_range'_1]
    exact ⟨by omega, fun b hb => by omega⟩
  unfold AddDocumentVersionUseCase.next_number Entry.versions
  rw [entry.numbered, hmax]

/-- The row of an entry whose pointer is moved to a new version. -/
theorem row_revised {now : DateTime} {version : KnowledgeDocumentVersion}
    (hnumber : version.version_number = entry.older.length + 2)
    (howner : version.document_id = entry.id) (hne : version.id ≠ entry.newest.id) :
    SqlAlchemyDocumentRepository.add_version_columns now
        (AddDocumentVersionUseCase.pointed entry.document version.id) entry.row =
      { entry.revised version hnumber howner with updated_at := now }.row := by
  unfold SqlAlchemyDocumentRepository.add_version_columns KnowledgeDocumentModel.flushed
  rw [if_neg]
  · rfl
  · intro heq
    have hpointer := congrArg KnowledgeDocumentModel.current_version_id heq
    exact hne (Option.some.inj hpointer)

/-- The rows with one more version of the entry. -/
theorem represents_revised (h : RowsSound db issued) (hc : Represents db c) (hentry : entry ∈ c)
    {now : DateTime} {version : KnowledgeDocumentVersion}
    (hnumber : version.version_number = entry.older.length + 2)
    (howner : version.document_id = entry.id) (hid : version.id ∉ issued) :
    Represents { db with
      versions := db.versions ++ [version_to_model now version]
      documents := modify KnowledgeDocumentModel.id entry.id
        (SqlAlchemyDocumentRepository.add_version_columns now
          (AddDocumentVersionUseCase.pointed entry.document version.id)) db.documents }
      (replaced c { entry.revised { version with created_at := some now } hnumber howner with
        updated_at := now }) := by
  have hne : version.id ≠ entry.newest.id := by
    obtain ⟨row, hrow, _, hnewest⟩ := (mem_versions hc hentry).mp List.mem_cons_self
    intro heq
    exact hid (heq ▸ hnewest ▸ h.version_ids row hrow)
  have hnext : version.version_number = AddDocumentVersionUseCase.next_number
      (SqlAlchemyDocumentRepository.list_versions db entry.id) := by
    rw [hc.versions entry hentry, next_number_of_entry, hnumber]
  have hfree : (entry.id, version.version_number) ∉
      db.versions.map KnowledgeDocumentVersionModel.number_key := by
    rw [hnext]
    exact AddDocumentVersionUseCase.next_number_fresh
  refine represents_replaced h hc hentry rfl (row_revised hnumber howner hne) rfl ?_ ?_
  · have howner' : (version_to_model now version).document_id = entry.id := howner
    have hkeyed : Keyed KnowledgeDocumentVersionModel.number_key
        (db.versions ++ [version_to_model now version]) := by
      refine keyed_append _ h.numbers ?_
      intro v hv heq
      refine hfree (List.mem_map.mpr ⟨v, hv, heq.trans ?_⟩)
      exact Prod.ext howner rfl
    have hnewest := list_versions_newest _
      (modify KnowledgeDocumentModel.id entry.id
        (SqlAlchemyDocumentRepository.add_version_columns now
          (AddDocumentVersionUseCase.pointed entry.document version.id)) db.documents) hkeyed ?_
    · rw [howner', hc.versions entry hentry] at hnewest
      exact hnewest
    · intro v hv hsame
      have hlt := AddDocumentVersionUseCase.lt_next_number hv (hsame.trans howner)
      exact Nat.lt_of_lt_of_eq hlt hnext.symm
  · intro e _ he
    exact list_versions_other (fun heq => he (heq.symm.trans howner))

theorem add_version_settles (h : RowsSound w.db issued) (hc : Represents w.db c)
    (hnew : m.ids.version ∉ issued) (data : AddDocumentVersionInput) :
    Settles calm w (AddDocumentVersionUseCase.execute P settings m data)
      (fun view => Answers P settings m c (.AddVersion data) (.Version view))
      (Refusals P settings m c (.AddVersion data)) := by
  unfold AddDocumentVersionUseCase.execute
  refine settles_query ?_
  unfold AddDocumentVersionUseCase.check
  rw [get_eq h hc]
  rcases hlookup : lookup c data.tenant_id data.document_id with _ | entry
  · refine settles_of_except ?_ (fun _ h => by cases h)
    rintro e he
    cases he
    exact ⟨_, rfl, .no_document (.AddVersion data) data.document_id rfl hlookup⟩
  · obtain ⟨hentry, _, _, _⟩ := mem_of_lookup hlookup
    simp only [Option.map_some]
    rcases hextension : validate_upload settings.upload data.original_filename data.content
      data.content_type with e | extension
    · refine settles_of_except ?_ (fun _ h => by cases h)
      rintro e' he
      cases he
      exact ⟨_, rfl, .invalid_version data entry e hlookup hextension⟩
    · refine settles_of_except (fun _ h => by cases h) ?_
      rintro ⟨document, extension'⟩ hok
      cases hok
      have hid : entry.document.id = entry.id := rfl
      simp only [hid]
      refine settles_query ?_
      simp only [hc.versions entry hentry, next_number_of_entry]
      refine settles_effect ?_
      refine settles_write (SqlAlchemyDocumentRepository.add_version_ok.mpr ⟨?_, rfl⟩) ?_
      · rw [← next_number_of_entry entry, ← hc.versions entry hentry]
        exact AddDocumentVersionUseCase.next_number_fresh
      · refine settles_effect ?_
        refine settles_pure ⟨_, .version_added data extension entry hlookup hextension, ?_⟩
        exact represents_revised h hc hentry rfl rfl hnew

/-- The rows after `update` of a document that keeps its version. -/
theorem represents_updated (h : RowsSound db issued) (hc : Represents db c) (hentry : entry ∈ c)
    (now : DateTime) (title : String) (knowledge_space_id : Option UUID) (stage : Stage)
    (metadata : KnowledgeMetadata) {document : KnowledgeDocument}
    (hdocument : document = { entry with title, knowledge_space_id, stage, metadata }.document) :
    Represents (SqlAlchemyDocumentRepository.update db now document)
      (replaced c (entry.dated now { entry with title, knowledge_space_id, stage, metadata })) := by
  have hid : (entry.dated now { entry with title, knowledge_space_id, stage, metadata }).id =
      entry.id := by
    unfold Entry.dated
    split <;> rfl
  have hversions :
      (entry.dated now { entry with title, knowledge_space_id, stage, metadata }).versions =
        entry.versions := by
    unfold Entry.dated
    split <;> rfl
  subst hdocument
  refine represents_replaced h hc hentry hid ?_ rfl ?_ (fun _ _ _ => rfl)
  · rw [← row_dated]
    exact if_neg (not_not.mpr rfl)
  · rw [hid, hversions]
    exact hc.versions entry hentry

theorem get_settles (h : RowsSound w.db issued) (hc : Represents w.db c) (data : GetDocumentInput) :
    Settles calm w (GetDocumentUseCase.execute data)
      (fun view => Answers P settings m c (.Get data) (.Document view))
      (Refusals P settings m c (.Get data)) := by
  unfold GetDocumentUseCase.execute
  refine settles_load h hc (.Get data) rfl ?_
  intro entry hlookup
  exact settles_pure ⟨c, .got data entry hlookup, hc⟩

theorem list_settles (h : RowsSound w.db issued) (hc : Represents w.db c)
    (data : ListDocumentsInput) :
    Settles calm w (ListDocumentsUseCase.execute m data)
      (fun page => Answers P settings m c (.List data) (.Documents page))
      (Refusals P settings m c (.List data)) := by
  unfold ListDocumentsUseCase.execute
  refine settles_query ?_
  rw [list_documents_eq h hc]
  refine settles_pure ⟨c, ?_, hc⟩
  simp only [List.map_map]
  exact .listed data _ rfl

theorem list_versions_settles (h : RowsSound w.db issued) (hc : Represents w.db c)
    (data : GetDocumentInput) :
    Settles calm w (ListDocumentVersionsUseCase.execute data)
      (fun views => Answers P settings m c (.ListVersions data) (.Versions views))
      (Refusals P settings m c (.ListVersions data)) := by
  unfold ListDocumentVersionsUseCase.execute
  refine settles_load h hc (.ListVersions data) rfl ?_
  intro entry hlookup
  rw [← bind_pure (query _)]
  refine settles_query ?_
  have hversions := hc.versions entry (mem_of_lookup hlookup).1
  refine settles_pure ⟨c, ?_, hc⟩
  exact hversions ▸ .versions_listed data entry hlookup

theorem update_metadata_settles (h : RowsSound w.db issued) (hc : Represents w.db c)
    (data : UpdateDocumentMetadataInput) :
    Settles calm w (UpdateDocumentMetadataUseCase.execute m data)
      (fun view => Answers P settings m c (.UpdateMetadata data) (.Document view))
      (Refusals P settings m c (.UpdateMetadata data)) := by
  unfold UpdateDocumentMetadataUseCase.execute
  refine settles_load h hc (.UpdateMetadata data) rfl ?_
  intro entry hlookup
  refine settles_write rfl ?_
  refine settles_effect ?_
  refine settles_pure ⟨_, .described data entry hlookup, ?_⟩
  exact represents_updated h hc (mem_of_lookup hlookup).1 m.db_now _ _ entry.stage _ rfl

theorem delete_settles (h : RowsSound w.db issued) (hc : Represents w.db c)
    (data : GetDocumentInput) :
    Settles calm w (DeleteDocumentUseCase.execute m data)
      (fun _ => Answers P settings m c (.Delete data) .Done)
      (Refusals P settings m c (.Delete data)) := by
  unfold DeleteDocumentUseCase.execute
  refine settles_load h hc (.Delete data) rfl ?_
  intro entry hlookup
  obtain ⟨hentry, _, _, hlive⟩ := mem_of_lookup hlookup
  refine settles_write rfl ?_
  unfold publish
  rw [← bind_pure (effect _)]
  refine settles_effect ?_
  refine settles_pure ⟨_, .deleted data entry hlookup, ?_⟩
  have hupdated := represents_updated h hc hentry m.db_now entry.title entry.knowledge_space_id
    (.Deleted (m.clock 0)) entry.metadata rfl
  have hchanged : { entry with stage := .Deleted (m.clock 0) } ≠ entry := by
    intro heq
    rw [← heq] at hlive
    cases hlive
  unfold Entry.dated at hupdated
  rw [if_neg hchanged] at hupdated
  exact hupdated

theorem operation_settles (h : RowsSound w.db issued) (hc : Represents w.db c)
    (hnew : ∀ id ∈ m.ids.all, id ∉ issued) (operation : Operation)
    (hanswered : answered operation = true) :
    Settles calm w (operation.program P settings m) (Answers P settings m c operation)
      (Refusals P settings m c operation) := by
  have hdocument := hnew m.ids.document (by simp [FreshIds.all])
  have hversion := hnew m.ids.version (by simp [FreshIds.all])
  cases operation with
  | Upload data => exact settles_map (upload_settles h hc hdocument data)
  | AddVersion data => exact settles_map (add_version_settles h hc hversion data)
  | Get data => exact settles_map (get_settles h hc data)
  | List data => exact settles_map (list_settles h hc data)
  | ListVersions data => exact settles_map (list_versions_settles h hc data)
  | UpdateMetadata data => exact settles_map (update_metadata_settles h hc data)
  | Delete data => exact settles_map (delete_settles h hc data)
  | Process data => cases hanswered
  | GetJob data => cases hanswered
  | ListJobs data => cases hanswered
  | Handle message => cases hanswered
  | Search data => cases hanswered
  | Answer data => cases hanswered

end Operations

/-! ## The refinement -/

variable (P : Providers) (settings : Settings)

/-- One call of the service, with its result. -/
def Serve (w : World) (turn : Request × Except Interruption Response) (w' : World) : Prop :=
  w.fresh turn.1 = true ∧ w.perform P settings turn.1 = (turn.2, w')

/-- The requests of a run, each with its result. -/
def turns : World → List Request → List (Request × Except Interruption Response)
  | _, [] => []
  | w, r :: rs => (r, (w.perform P settings r).1) :: turns (w.perform P settings r).2 rs

variable {P settings} {w w' : World}

theorem runs_of_run {rs : List Request}
    (hrun : labelled_runs.run (World.step P settings) w rs = some w') :
    Runs (Serve P settings) w (turns P settings w rs) w' := by
  induction rs generalizing w with
  | nil =>
    cases hrun
    exact .nil _
  | cons r rs ih =>
    obtain ⟨w1, hstep, hrun⟩ := labelled_runs.run_cons.mp hrun
    unfold World.step at hstep
    split at hstep
    · rename_i hfresh
      cases hstep
      exact .cons ⟨hfresh, rfl⟩ (ih hrun)
    · cases hstep

/-- The rows after an ingestion that ends well. -/
theorem represents_processed (h : RowsSound w.db issued) (hc : Represents w.db c)
    {tenant_id : String} {document_id : UUID} {document : KnowledgeDocument} (now : DateTime)
    (hget : SqlAlchemyDocumentRepository.get w.db tenant_id document_id = some document) :
    ∃ entry, lookup c tenant_id document_id = some entry ∧
      Represents (SqlAlchemyDocumentRepository.update w.db now
        (ProcessDocumentUseCase.processed document)) (replaced c (entry.processed now)) := by
  rw [get_eq h hc] at hget
  obtain ⟨entry, hlookup, rfl⟩ := Option.map_eq_some_iff.mp hget
  obtain ⟨hentry, _, _, hlive⟩ := mem_of_lookup hlookup
  refine ⟨entry, hlookup, ?_⟩
  have hdocument : ProcessDocumentUseCase.processed entry.document =
      { entry with stage := .Processed }.document := by
    unfold Entry.live at hlive
    unfold ProcessDocumentUseCase.processed Entry.document
    rcases hstage : entry.stage with _ | _ | at_
    · rfl
    · rfl
    · rw [hstage] at hlive
      cases hlive
  exact represents_updated h hc hentry now _ _ .Processed _ hdocument

/-- What a job execution, a question or a read of jobs leaves of the documents. -/
theorem represents_moved (h : RowsSound w.db issued) (hc : Represents w.db c) {m : Moment}
    {operation : Operation} (hm : Moved P settings m w operation w')
    (haside : answered operation = false) (hprocess : ∀ data, operation ≠ .Process data) :
    Represents w'.db c ∨ ∃ message document_id entry, operation = .Handle message ∧
      lookup c message.tenant_id document_id = some entry ∧
      Represents w'.db (replaced c (entry.processed m.db_now)) := by
  cases hm with
  | still _ _ hb => exact Or.inl (hb.db ▸ hc)
  | saved _ _ tenant_id document_id extension at_ content _ hb => exact Or.inl (hb.db ▸ hc)
  | uploaded => cases haside
  | version_added => cases haside
  | updated => cases haside
  | deleted => cases haside
  | indexed _ _ document_id document points _ hb => exact Or.inl (hb.db ▸ hc)
  | processed _ data => exact absurd rfl (hprocess data)
  | handled _ message job hjob he =>
    obtain ⟨row, _, _, htenant, rfl⟩ := SqlAlchemyProcessingJobRepository.get_row hjob
    cases he with
    | refused job' events _ hb =>
      exact Or.inl (represents_congr hc (by rw [hb.db]) (by rw [hb.db]))
    | failed name text job1 job2 events more enqueued points _ _ _ hb =>
      exact Or.inl (represents_congr hc (by rw [hb.db]) (by rw [hb.db]))
    | completed name job1 job2 events more enqueued document points _ _ hi hb =>
      obtain ⟨entry, hlookup, hrows⟩ := represents_processed h hc m.db_now hi.got
      have htenant : (to_entity row).tenant_id = message.tenant_id := htenant
      rw [htenant] at hlookup
      refine Or.inr ⟨message, _, entry, rfl, hlookup, ?_⟩
      exact represents_congr hrows (by rw [hb.db]) (by rw [hb.db])
  | answered _ data conversation answer db _ hstored hb =>
    rw [← conversation_log.committed_written] at hstored
    obtain ⟨_, hdb⟩ := conversation_log.committed_ok hstored
    exact Or.inl (represents_congr hc (by rw [hb.db, hdb]) (by rw [hb.db, hdb]))

variable {r : Request} {result : Except Interruption Response}

/-- A call on documents. -/
theorem answered_refines (h : RowsSound w.db w.issued) (hc : Represents w.db c)
    (hnew : ∀ id ∈ r.moment.ids.all, id ∉ w.issued) (hanswered : answered r.operation = true)
    (hperform : w.perform P settings r = (result, w')) :
    ∃ c', Step P settings c (r, result) c' ∧ Represents w'.db c' := by
  have hsettles : Settles (NoFailure r.moment.faults) (opened w r)
      (r.operation.program P settings r.moment) (Answers P settings r.moment c r.operation)
      (Refusals P settings r.moment c r.operation) :=
    operation_settles (w := opened w r) h hc hnew r.operation hanswered
  have hsession := session_settles hsettles (fun hcalm => hcalm)
  rw [perform_eq] at hperform
  generalize session (r.operation.program P settings r.moment)
    ⟨opened w r, r.moment.faults, false⟩ = s at hperform hsession
  rcases s with ⟨i | response, d⟩
  · cases hperform
    obtain ⟨hdb, hrefused⟩ := hsession
    have hrows : Represents d.world.db c := hdb.symm ▸ hc
    by_cases hcalm : NoFailure r.moment.faults
    · obtain ⟨e, rfl, hserves⟩ := hrefused hcalm
      exact ⟨c, .served r (.error e) c hserves, hrows⟩
    · unfold NoFailure at hcalm
      push Not at hcalm
      exact ⟨c, .failed r i hcalm, hrows⟩
  · cases hperform
    obtain ⟨c', hserves, hrows⟩ := hsession
    exact ⟨c', .served r (.ok response) c' hserves, hrows⟩

/-- A direct ingestion. -/
theorem process_refines (h : RowsSound w.db w.issued) (hc : Represents w.db c)
    {data : GetDocumentInput} (hprocess : r.operation = .Process data)
    (hperform : w.perform P settings r = (result, w')) :
    ∃ c', Step P settings c (r, result) c' ∧ Represents w'.db c' := by
  rw [perform_eq] at hperform
  generalize hsession : session (r.operation.program P settings r.moment)
    ⟨opened w r, r.moment.faults, false⟩ = s at hperform
  rcases s with ⟨i | response, d⟩
  · cases hperform
    have hrows : Represents d.world.db c := (session_error hsession).symm ▸ hc
    exact ⟨c, .aside r _ (by rw [hprocess]; rfl) (fun _ _ _ he => by cases he), hrows⟩
  · cases hperform
    rw [hprocess] at hsession
    obtain ⟨e, he, _, _, rfl⟩ := session_ok.mp hsession
    have hends : Ends (opened w r) ((Operation.Process data).program P settings r.moment)
        (fun response w' => response = .Done ∧ ∃ entry,
          lookup c data.tenant_id data.document_id = some entry ∧
          Represents w'.db (replaced c (entry.processed r.moment.db_now))) (fun _ => True) := by
      refine ends_bind (ends_weaken (process_ends _ _) (fun _ _ h => h) (fun _ _ => trivial)) ?_
      rintro _ w' ⟨document, points, hingested, hw'⟩
      obtain ⟨entry, hlookup, hrows⟩ :=
        represents_processed (w := opened w r) h hc r.moment.db_now hingested.got
      exact ends_pure ⟨rfl, entry, hlookup, hw'.db.symm ▸ hrows⟩
    obtain ⟨rfl, entry, hlookup, hrows⟩ := ends_ok hends he
    exact ⟨_, .processed r data entry hprocess hlookup, hrows⟩

/-- A message, a question, a search or a read of jobs. -/
theorem aside_refines (h : RowsSound w.db w.issued) (hc : Represents w.db c)
    (hmoved : Moved P settings r.moment (opened w r) r.operation w')
    (haside : answered r.operation = false) (hprocess : ∀ data, r.operation ≠ .Process data)
    (hperform : w.perform P settings r = (result, w')) :
    ∃ c', Step P settings c (r, result) c' ∧ Represents w'.db c' := by
  have hquiet : ∀ data response, r.operation = .Process data → result ≠ .ok response :=
    fun data _ he => absurd he (hprocess data)
  rw [perform_eq] at hperform
  generalize hsession : session (r.operation.program P settings r.moment)
    ⟨opened w r, r.moment.faults, false⟩ = s at hperform
  rcases s with ⟨i | response, d⟩
  · cases hperform
    exact ⟨c, .aside r _ haside hquiet, (session_error hsession).symm ▸ hc⟩
  · cases hperform
    rcases represents_moved (w := opened w r) h hc hmoved haside hprocess with
      hrows | ⟨message, document_id, entry, hhandle, hlookup, hrows⟩
    · exact ⟨c, .aside r _ haside hquiet, hrows⟩
    · rw [hhandle] at hsession
      obtain ⟨e, he, _⟩ := session_ok.mp hsession
      obtain ⟨_, _, _, hdone⟩ := bind_ok.mp he
      obtain ⟨rfl, _⟩ := pure_ok.mp hdone
      exact ⟨_, .handled r message document_id entry hhandle hlookup, hrows⟩

theorem serve_refines :
    Refines (fun w c => Sound P w ∧ Represents w.db c) (Serve P settings) (Step P settings) := by
  rintro w c ⟨r, result⟩ w' ⟨hsound, hc⟩ ⟨hfresh, hperform⟩
  have hstep : w.step P settings r = some w' := by
    unfold World.step
    rw [if_pos hfresh, hperform]
  have hsound' := sound_keeps hsound hstep
  obtain ⟨_, hnew, hmoved⟩ := moved_of_step hstep
  have hmatched : ∃ c', Step P settings c (r, result) c' ∧ Represents w'.db c' := by
    by_cases hprocess : ∃ data, r.operation = .Process data
    · obtain ⟨data, hprocess⟩ := hprocess
      exact process_refines hsound.rows hc hprocess hperform
    · push Not at hprocess
      cases hanswered : answered r.operation with
      | true => exact answered_refines hsound.rows hc hnew hanswered hperform
      | false => exact aside_refines hsound.rows hc hmoved hanswered hprocess hperform
  obtain ⟨c', hc', hrows⟩ := hmatched
  exact ⟨c', hc', hsound', hrows⟩

/-- Every run of the service is a run of the catalogue: each call on documents
that no fault has struck is answered as the catalogue answers it, each call that
fails leaves it as it is, and at the end the rows stand for it. -/
theorem the_service_refines_the_catalogue {rs : List Request}
    (hrun : labelled_runs.run (World.step P settings) {} rs = some w) :
    ∃ c, Runs (Step P settings) [] (turns P settings {} rs) c ∧ Represents w.db c := by
  obtain ⟨c, hruns, _, hrows⟩ := runs_refine serve_refines
    (⟨sound_init P, represents_init⟩ : Sound P {} ∧ Represents ({} : World).db [])
    (runs_of_run hrun)
  exact ⟨c, hruns, hrows⟩

/-- An upload, a second version and a deletion of the document. -/
def one_document : List Request :=
  [plain.request 0 (plain.upload [65]),
    plain.request 1 (plain.add_version (plain.ids 0).document [66]),
    plain.request 2 (.Delete { tenant_id := "acme", document_id := (plain.ids 0).document })]

theorem one_document_is_catalogued :
    ∃ w, labelled_runs.run (World.step plain.providers {}) {} one_document = some w ∧
      ∃ c, Runs (Step plain.providers {}) [] (turns plain.providers {} {} one_document) c ∧
        Represents w.db c := by
  have hruns : (labelled_runs.run (World.step plain.providers {}) {} one_document).isSome := by
    decide +kernel
  obtain ⟨w, hw⟩ := Option.isSome_iff_exists.mp hruns
  exact ⟨w, hw, the_service_refines_the_catalogue hw⟩

/-! ## What the service keeps -/

/-- The row that a later state has of a document: the columns that no call
changes, the old versions under the new ones, and a deleted document as it was. -/
structure StaysWith (db db' : Database) (d d' : KnowledgeDocumentModel) : Prop where
  id : d'.id = d.id
  tenant_id : d'.tenant_id = d.tenant_id
  source_type : d'.source_type = d.source_type
  created_by : d'.created_by = d.created_by
  created_at : d'.created_at = d.created_at
  versions : SqlAlchemyDocumentRepository.list_versions db d.id <:+
    SqlAlchemyDocumentRepository.list_versions db' d.id
  deleted : d.deleted_at ≠ none → d' = d

/-- No call of any run takes a document or a version away, or brings a deleted
document back: the law of the catalogue, for the rows that stand for it. -/
theorem documents_stay {rs more : List Request}
    (hrun : labelled_runs.run (World.step P settings) {} rs = some w)
    (hmore : labelled_runs.run (World.step P settings) w more = some w') :
    ∀ d ∈ w.db.documents, ∃ d' ∈ w'.db.documents, StaysWith w.db w'.db d d' := by
  obtain ⟨c, _, hsound, hc⟩ := runs_refine serve_refines
    (⟨sound_init P, represents_init⟩ : Sound P {} ∧ Represents ({} : World).db [])
    (runs_of_run hrun)
  obtain ⟨c', hruns, _, hc'⟩ := runs_refine serve_refines ⟨hsound, hc⟩ (runs_of_run hmore)
  obtain ⟨_, hgrows⟩ := runs_keep hruns (keyed_entries hsound.rows hc)
  intro d hd
  rw [hc.rows] at hd
  obtain ⟨entry, hentry, rfl⟩ := List.mem_map.mp hd
  obtain ⟨i, hi⟩ := List.mem_iff_getElem?.mp hentry
  obtain ⟨new, hnew, hsucceeds⟩ := hgrows i entry hi
  have hmem := List.mem_of_getElem? hnew
  refine ⟨new.row, ?_, hsucceeds.id, hsucceeds.tenant_id, hsucceeds.source_type,
    hsucceeds.created_by, hsucceeds.created_at, ?_, ?_⟩
  · rw [hc'.rows]
    exact List.mem_map_of_mem hmem
  · have hversions := hc'.versions new hmem
    rw [hsucceeds.id] at hversions
    have hrow : entry.row.id = entry.id := rfl
    rw [hrow, hc.versions entry hentry, hversions]
    exact hsucceeds.versions
  · intro hdeleted
    have hdead : entry.live = false := by
      rw [← Bool.not_eq_true]
      exact fun hlive => hdeleted ((live_iff entry).mpr hlive)
    rw [hsucceeds.deleted hdead]

theorem one_document_stays :
    ∃ w, labelled_runs.run (World.step plain.providers {}) {} one_document = some w ∧
      ∃ w', labelled_runs.run (World.step plain.providers {}) w
          [plain.request 3 (plain.upload [65])] = some w' ∧
        ∀ d ∈ w.db.documents, ∃ d' ∈ w'.db.documents, StaysWith w.db w'.db d d' := by
  have hruns : (labelled_runs.run (World.step plain.providers {}) {}
      (one_document ++ [plain.request 3 (plain.upload [65])])).isSome := by
    decide +kernel
  obtain ⟨w', hw'⟩ := Option.isSome_iff_exists.mp hruns
  obtain ⟨w, hw, hmore⟩ := labelled_runs.run_append.mp hw'
  exact ⟨w, hw, w', hmore, documents_stay hw hmore⟩

end cortex_rag.catalogue
