-- The law of the two statuses. The pipeline writes the status of a document and
-- the executor writes the status of its job, and one transaction commits both.
import CortexRag.ProcessedRows

open keyed_rows labelled_runs

namespace cortex_rag.status_agreement

open service

/-- An ingestion job of the document is COMPLETED. -/
def IngestionCompleted (db : Database) (document_id : UUID) : Prop :=
  ∃ j ∈ db.jobs, j.document_id = document_id ∧ j.job_type = .DocumentIngestion ∧
    j.status = .Completed

/-- A live document is PROCESSED exactly when an ingestion job of it is
COMPLETED, and UPLOADED when none is. -/
def Agrees (db : Database) : Prop :=
  ∀ m ∈ db.documents, m.deleted_at = none →
    (m.status = .Processed ↔ IngestionCompleted db m.id) ∧
      (¬ IngestionCompleted db m.id → m.status = .Uploaded)

/-- The pipeline runs for the message of a job only. -/
def by_message (r : Request) : Bool :=
  match r.operation with
  | .Process _ => false
  | _ => true

/-- Every job is an ingestion job. -/
def Ingestions (db : Database) : Prop := ∀ j ∈ db.jobs, j.job_type = .DocumentIngestion

variable {P : Providers} {settings : Settings} {w w' : World} {r : Request}

/-! ## The jobs -/

theorem origin_document {j j' : ProcessingJobModel} (h : j'.origin = j.origin) :
    j'.document_id = j.document_id := congrArg (fun o => o.2.1) h

theorem origin_job_type {j j' : ProcessingJobModel} (h : j'.origin = j.origin) :
    j'.job_type = j.job_type := congrArg (fun o => o.2.2.2.1) h

theorem ingestions_step (h : Sound P w) (hi : Ingestions w.db)
    (hw : w.step P settings r = some w') : Ingestions w'.db := by
  intro j' hj'
  cases job_after h hw hj' with
  | kept hj => exact hi j' hj
  | created data _ hcreated => exact hcreated.job_type
  | unfinished j hj horigin _ => exact (origin_job_type horigin).trans (hi j hj)
  | completed message j _ _ hj horigin _ => exact (origin_job_type horigin).trans (hi j hj)

/-- A completed ingestion stays one. -/
theorem ingestion_stays (h : Sound P w) (hw : w.step P settings r = some w') {d : UUID}
    (hc : IngestionCompleted w.db d) : IngestionCompleted w'.db d := by
  obtain ⟨j, hj, hd, htype, hstatus⟩ := hc
  exact ⟨j, completed_stays h hw hj hstatus, hd, htype, hstatus⟩

/-- The run that a message has brought to its end is that of an ingestion job. -/
theorem ingestion_of_processed (hi : Ingestions w.db) (hr : by_message r = true)
    (hw : w.step P settings r = some w') {tenant_id : String} {d : UUID}
    (hp : processed_document P settings w r = some (tenant_id, d)) :
    IngestionCompleted w'.db d := by
  unfold processed_document at hp
  split at hp
  · rename_i data hop
    simp [by_message, hop] at hr
  · rename_i message hop
    rw [(step_some.mp hw).2] at hp
    obtain ⟨job, hjob, heq⟩ := Option.map_eq_some_iff.mp hp
    obtain ⟨j, hj, rfl, _, j', hj', horigin, hstatus⟩ := completed_row hop hw hjob
    rw [Prod.mk.injEq] at heq
    exact ⟨j', hj', (origin_document horigin).trans heq.2,
      (origin_job_type horigin).trans (hi j hj), hstatus⟩
  · cases hp

/-- A completed ingestion was one before the step, or the step has processed
its document. -/
theorem ingestion_before (h : Sound P w) (hw : w.step P settings r = some w') {d : UUID}
    (hc : IngestionCompleted w'.db d) :
    IngestionCompleted w.db d ∨
      ∃ tenant_id, processed_document P settings w r = some (tenant_id, d) := by
  obtain ⟨j', hj', rfl, htype, hstatus⟩ := hc
  cases job_after h hw hj' with
  | kept hj => exact Or.inl ⟨j', hj, rfl, htype, hstatus⟩
  | created data _ hcreated =>
    rw [hcreated.status] at hstatus
    cases hstatus
  | unfinished j _ _ hnot => exact absurd hstatus hnot
  | completed message j hop hcompleted hj horigin _ =>
    refine Or.inr ⟨j.tenant_id, ?_⟩
    unfold processed_document
    simp only [hop, (step_some.mp hw).2, hcompleted, Option.map_some, origin_document horigin]
    rfl

/-! ## The documents -/

theorem agrees_step (h : Sound P w) (hi : Ingestions w.db) (ha : Agrees w.db)
    (hr : by_message r = true) (hw : w.step P settings r = some w') : Agrees w'.db := by
  obtain ⟨_, hnew, _⟩ := moved_of_step hw
  intro m' hm' hlive
  -- a row that keeps its status has no run of its own in this step
  have hsame : ∀ m ∈ w.db.documents, m.deleted_at = none → m'.id = m.id → m'.status = m.status →
      (∀ tenant_id, processed_document P settings w r ≠ some (tenant_id, m'.id)) →
      (m'.status = .Processed ↔ IngestionCompleted w'.db m'.id) ∧
        (¬ IngestionCompleted w'.db m'.id → m'.status = .Uploaded) := by
    intro m hm hlive0 hid hstatus hno
    have hjobs : IngestionCompleted w'.db m'.id ↔ IngestionCompleted w.db m.id := by
      rw [← hid]
      constructor
      · intro hc
        rcases ingestion_before h hw hc with hc | ⟨tenant_id, hp⟩
        · exact hc
        · exact absurd hp (hno tenant_id)
      · exact ingestion_stays h hw
    rw [hjobs, hstatus]
    exact ha m hm hlive0
  cases document_after h hw hm' hlive with
  | kept m hm hlive0 hid hstatus _ hno => exact hsame m hm hlive0 hid hstatus hno
  | uploaded data hop hid hstatus _ =>
    have hnone : ¬ IngestionCompleted w'.db m'.id := by
      intro hc
      rcases ingestion_before h hw hc with ⟨j, hj, hd, _⟩ | ⟨tenant_id, hp⟩
      · obtain ⟨m, hm, hmid⟩ := List.mem_map.mp (h.rows.ordered j hj)
        have hfresh : r.moment.ids.document ∉ w.issued := hnew _ (by simp [FreshIds.all])
        exact hfresh (hid ▸ hd ▸ hmid ▸ h.rows.document_ids m hm)
      · rw [processed_document_of_other (by simp [hop]) (by simp [hop])] at hp
        cases hp
    simp [hstatus, hnone]
  | pointed data m hop _ hm hlive0 _ hid hstatus _ =>
    apply hsame m hm hlive0 hid hstatus
    intro tenant_id hp
    rw [processed_document_of_other (by simp [hop]) (by simp [hop])] at hp
    cases hp
  | processed m hm hlive0 hid hstatus _ hp _ =>
    have hc : IngestionCompleted w'.db m'.id := hid ▸ ingestion_of_processed hi hr hw hp
    simp [hstatus, hc]

/-- After any uploads, new versions, metadata updates, deletions, messages and
other calls, whatever fails in them, the documents and their jobs tell the same
story. -/
theorem documents_and_jobs_tell_the_same_story {rs : List Request} {w : World}
    (hrs : ∀ r ∈ rs, by_message r = true) (hrun : run (World.step P settings) {} rs = some w) :
    Agrees w.db := by
  have halong : Along (World.step P settings) (fun _ r => by_message r = true) {} rs := by
    rw [along_iff]
    rintro pre r post _ rfl _
    exact hrs r (by simp)
  have hkeeps : Sound P w ∧ Ingestions w.db ∧ Agrees w.db := by
    refine run_keeps (I := fun w => Sound P w ∧ Ingestions w.db ∧ Agrees w.db) ?_ ?_ halong hrun
    · rintro w r w' ⟨h, hi, ha⟩ hr hw
      exact ⟨sound_keeps h hw, ingestions_step h hi hw, agrees_step h hi ha hr hw⟩
    · exact ⟨sound_init P, by simp [Ingestions], by simp [Agrees]⟩
  exact hkeeps.2.2

/-- The worker crashes at its commit, and the message of the upload comes
twice again. -/
def redelivered : List Request :=
  let message : Message := ⟨"acme", (plain.ids 0).job⟩
  [plain.request 0 (plain.upload [65]),
    plain.crashing 11 (plain.request 1 (.Handle message)),
    plain.request 2 (.Handle message),
    plain.request 3 (plain.add_version (plain.ids 0).document [66]),
    plain.request 4 (.Handle message)]

theorem a_redelivered_message_keeps_the_story :
    ∃ w, run (World.step plain.providers {}) {} redelivered = some w ∧
      (w.db.documents.map (fun m => m.status)) = [.Processed] ∧ Agrees w.db := by
  have hrun : (run (World.step plain.providers {}) {} redelivered).map (fun w =>
      w.db.documents.map (fun m => m.status)) = some [.Processed] := by
    decide +kernel
  obtain ⟨w, hw, hstatus⟩ := Option.map_eq_some_iff.mp hrun
  exact ⟨w, hw, hstatus, documents_and_jobs_tell_the_same_story (by decide) hw⟩

end cortex_rag.status_agreement
