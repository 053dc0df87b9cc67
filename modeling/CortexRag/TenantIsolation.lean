-- Tenants do not interfere: what the others do changes nothing that a tenant
-- has, and what a tenant has decides what its own calls return.
import CortexRag.ServiceOutcomes
import CortexRag.TwinCalls

open keyed_rows labelled_runs

namespace cortex_rag.service

variable {P : Providers} {settings : Settings} {t : String} {w w' : World}

/-! ## One call in two worlds -/

/-- The program of an operation does the same in two worlds in which its tenant
has the same. -/
theorem program_both {m : Moment} {x x' : World} (operation : Operation)
    (h : Ready operation.tenant_id w w' x x') (hk : Keyed VectorPoint.id x.points)
    (hk' : Keyed VectorPoint.id x'.points) (hd : ∀ d ∈ x.db.documents, d.id ≠ m.ids.document)
    (hd' : ∀ d ∈ x'.db.documents, d.id ≠ m.ids.document)
    (hc : ∀ c ∈ x.db.conversations, c.id ≠ m.ids.conversation)
    (hc' : ∀ c ∈ x'.db.conversations, c.id ≠ m.ids.conversation) :
    Both x x' (operation.program P settings m) (fun _ => Twin operation.tenant_id w w')
      (Twin operation.tenant_id w w') := by
  cases operation with
  | Upload data => exact both_bind (upload_both data h hd hd') (fun _ _ _ hy => both_pure hy)
  | AddVersion data => exact both_bind (add_version_both data h) (fun _ _ _ hy => both_pure hy)
  | Get data => exact both_bind (get_both data h) (fun _ _ _ hy => both_pure hy)
  | List data => exact both_bind (list_both data h) (fun _ _ _ hy => both_pure hy)
  | ListVersions data => exact both_bind (list_versions_both data h) (fun _ _ _ hy => both_pure hy)
  | UpdateMetadata data =>
    exact both_bind (update_metadata_both data h) (fun _ _ _ hy => both_pure hy)
  | Delete data => exact both_bind (delete_both data h) (fun _ _ _ hy => both_pure hy)
  | Process data => exact both_bind (process_both _ h) (fun _ _ _ hy => both_pure hy)
  | GetJob data => exact both_bind (get_processing_job_both data h) (fun _ _ _ hy => both_pure hy)
  | ListJobs data =>
    exact both_bind (list_processing_jobs_both data h) (fun _ _ _ hy => both_pure hy)
  | Handle message => exact both_bind (handle_both message h) (fun _ _ _ hy => both_pure hy)
  | Search data => exact both_bind (search_both data h.twin hk hk') (fun _ _ _ hy => both_pure hy)
  | Answer data =>
    exact both_bind (answer_both data h hk hk' hc hc') (fun _ _ _ hy => both_pure hy)

/-- An operation of the tenant returns the same in two worlds in which it has the
same, and leaves it the same. -/
theorem perform_same (settings : Settings) {r : Request} (h : Sound P w) (h' : Sound P w')
    (hnew : ∀ id ∈ r.moment.ids.all, id ∉ w.issued)
    (hnew' : ∀ id ∈ r.moment.ids.all, id ∉ w'.issued) (hs : Same r.operation.tenant_id w w') :
    (w.perform P settings r).1 = (w'.perform P settings r).1 ∧
      Same r.operation.tenant_id (w.perform P settings r).2 (w'.perform P settings r).2 := by
  have ho := opened_sound (r := r) h
  have ho' := opened_sound (r := r) h'
  have hopened : Same r.operation.tenant_id (opened w r) (opened w' r) :=
    ⟨hs.rows, hs.blobs, hs.points⟩
  have hready : Ready r.operation.tenant_id (opened w r) (opened w' r) (opened w r) (opened w' r) :=
    ⟨twin_start hopened, ho.rows, ho'.rows⟩
  have hdocument : r.moment.ids.document ∈ r.moment.ids.all := by simp [FreshIds.all]
  have hconversation : r.moment.ids.conversation ∈ r.moment.ids.all := by simp [FreshIds.all]
  exact session_both (program_both r.operation hready ho.points.keyed ho'.points.keyed
    (ne_of_fresh h.rows.document_ids (hnew _ hdocument))
    (ne_of_fresh h'.rows.document_ids (hnew' _ hdocument))
    (ne_of_fresh h.rows.conversation_ids (hnew _ hconversation))
    (ne_of_fresh h'.rows.conversation_ids (hnew' _ hconversation))) r.moment.faults

/-! ## Runs -/

/-- No two names of points that stand in the index before or after the step have
one hash. -/
def NoCollision (P : Providers) (settings : Settings) (w : World) (r : Request) : Prop :=
  ∀ w', w.step P settings r = some w' →
    Set.InjOn P.uuid5 (chunk_names w.points ∪ chunk_names w'.points)

/-- The operation of the request is one of the tenant. -/
def asked_by (tenant_id : String) (r : Request) : Bool := decide (r.operation.tenant_id = tenant_id)

/-- What the calls of a tenant return or raise in a run. -/
def answers (P : Providers) (settings : Settings) (tenant_id : String) (rs : List Request) :
    List (Except Interruption Response) :=
  outputs (asked_by tenant_id) (fun w r => (w.perform P settings r).1) (World.step P settings) {} rs

/-- A world of a run, and a world of the run without the operations of other
tenants. -/
structure Purged (P : Providers) (tenant_id : String) (w w' : World) : Prop where
  sound : Sound P w
  sound' : Sound P w'
  same : Same tenant_id w w'
  issued : ∀ id ∈ w'.issued, id ∈ w.issued

theorem purged_other {r : Request} {x : World} (h : Purged P t w w')
    (hnames : NoCollision P settings w r) (hother : r.operation.tenant_id ≠ t)
    (hx : w.step P settings r = some x) : Purged P t x w' := by
  have hview := view_kept h.sound hx hother (hnames x hx) Set.subset_union_left
    Set.subset_union_right
  have hsame : Same t x w' := view_eq_iff.mp (hview.trans (view_eq_iff.mpr h.same))
  refine ⟨sound_keeps h.sound hx, h.sound', hsame, ?_⟩
  intro id hid
  rw [issued_of_step hx]
  exact List.mem_append_right _ (h.issued id hid)

theorem purged_own {r : Request} {x : World} (h : Purged P t w w')
    (hown : r.operation.tenant_id = t) (hx : w.step P settings r = some x) :
    ∃ x', w'.step P settings r = some x' ∧
      (w.perform P settings r).1 = (w'.perform P settings r).1 ∧ Purged P t x x' := by
  obtain ⟨⟨hnodup, hnew⟩, hperform⟩ := step_some.mp hx
  have hnew' : ∀ id ∈ r.moment.ids.all, id ∉ w'.issued :=
    fun id hid hin => hnew id hid (h.issued id hin)
  have hx' : w'.step P settings r = some (w'.perform P settings r).2 :=
    step_some.mpr ⟨⟨hnodup, hnew'⟩, rfl⟩
  obtain ⟨hresult, hsame⟩ := perform_same settings h.sound h.sound' hnew hnew'
    (by rw [hown]; exact h.same)
  rw [hperform, hown] at hsame
  refine ⟨_, hx', hresult, sound_keeps h.sound hx, sound_keeps h.sound' hx', hsame, ?_⟩
  intro id hid
  rw [issued_of_step hx'] at hid
  rw [issued_of_step hx]
  rcases List.mem_append.mp hid with hid | hid
  · exact List.mem_append_left _ hid
  · exact List.mem_append_right _ (h.issued id hid)

/-- An operation leaves the view of every other tenant as it is. With equal views
the same operation of the tenant gives the same, and leaves equal views. So the
tenant gets in any run what it gets in the run without the others. -/
theorem tenants_do_not_interfere (P : Providers) (settings : Settings) (tenant_id : String) :
    (∀ w r w', Reachable (World.step P settings) {} w → NoCollision P settings w r →
      r.operation.tenant_id ≠ tenant_id → w.step P settings r = some w' →
      view tenant_id w' = view tenant_id w) ∧
    (∀ w w' r x x', Reachable (World.step P settings) {} w →
      Reachable (World.step P settings) {} w' → view tenant_id w = view tenant_id w' →
      r.operation.tenant_id = tenant_id → w.step P settings r = some x →
      w'.step P settings r = some x' →
      (w.perform P settings r).1 = (w'.perform P settings r).1 ∧
        view tenant_id x = view tenant_id x') ∧
    (∀ rs w, Along (World.step P settings) (NoCollision P settings) {} rs →
      run (World.step P settings) {} rs = some w →
      ∃ w', run (World.step P settings) {} (rs.filter (asked_by tenant_id)) = some w' ∧
        answers P settings tenant_id rs =
          answers P settings tenant_id (rs.filter (asked_by tenant_id)) ∧
        view tenant_id w = view tenant_id w') := by
  refine ⟨?_, ?_, ?_⟩
  · intro w r w' hw hnames hother hstep
    exact view_kept (sound_of_reachable hw) hstep hother (hnames w' hstep) Set.subset_union_left
      Set.subset_union_right
  · intro w w' r x x' hw hw' hview hown hx hx'
    obtain ⟨⟨_, hnew⟩, hperform⟩ := step_some.mp hx
    obtain ⟨⟨_, hnew'⟩, hperform'⟩ := step_some.mp hx'
    obtain ⟨hresult, hsame⟩ := perform_same settings (sound_of_reachable hw)
      (sound_of_reachable hw') hnew hnew' (by rw [hown]; exact view_eq_iff.mp hview)
    rw [hperform, hperform', hown] at hsame
    exact ⟨hresult, view_eq_iff.mpr hsame⟩
  · intro rs w hnames hrun
    have hstart : Purged P tenant_id {} {} :=
      ⟨sound_init P, sound_init P, view_eq_iff.mp rfl, fun _ hid => hid⟩
    have hother : ∀ s s' r x, Purged P tenant_id s s' → NoCollision P settings s r →
        asked_by tenant_id r = false → s.step P settings r = some x → Purged P tenant_id x s' :=
      fun _ _ _ _ h hC hr hx => purged_other h hC (by simpa [asked_by] using hr) hx
    have hown : ∀ s s' r x, Purged P tenant_id s s' → asked_by tenant_id r = true →
        s.step P settings r = some x → ∃ x', s'.step P settings r = some x' ∧
          (s.perform P settings r).1 = (s'.perform P settings r).1 ∧ Purged P tenant_id x x' :=
      fun _ _ _ _ h hr hx => purged_own h (by simpa [asked_by] using hr) hx
    obtain ⟨w', hrun', houtputs, hpurged⟩ := purged_run (asked_by tenant_id)
      (fun w r => (w.perform P settings r).1) hother hown hstart hnames hrun
    exact ⟨w', hrun', houtputs, view_eq_iff.mpr hpurged.same⟩

/-! ## Two tenants -/

/-- The name of a point, as far as its payload tells. -/
def point_name (p : VectorPoint) : String :=
  "knowledge-chunk:" ++ p.payload.document_id ++ ":" ++ toString p.payload.chunk_index

/-- `NoCollision`, as a check of the points before and after the step. -/
def DistinctHashes (P : Providers) (settings : Settings) (w : World) (r : Request) : Prop :=
  ∀ w' ∈ w.step P settings r, ∀ p ∈ w.points ++ w'.points, ∀ q ∈ w.points ++ w'.points,
    P.uuid5 (point_name p) = P.uuid5 (point_name q) → point_name p = point_name q

instance (P : Providers) (settings : Settings) (w : World) (r : Request) :
    Decidable (DistinctHashes P settings w r) :=
  inferInstanceAs (Decidable (∀ w' ∈ w.step P settings r, ∀ p ∈ w.points ++ w'.points,
    ∀ q ∈ w.points ++ w'.points,
      P.uuid5 (point_name p) = P.uuid5 (point_name q) → point_name p = point_name q))

theorem no_collision_of_distinct {r : Request} (h : DistinctHashes P settings w r) :
    NoCollision P settings w r := by
  intro w' hw
  have hnamed : ∀ name ∈ chunk_names w.points ∪ chunk_names w'.points,
      ∃ p ∈ w.points ++ w'.points, name = point_name p := by
    rintro name (⟨p, hp, d, hd, rfl⟩ | ⟨p, hp, d, hd, rfl⟩)
    · exact ⟨p, List.mem_append_left _ hp, by unfold chunk_name point_name; rw [hd]⟩
    · exact ⟨p, List.mem_append_right _ hp, by unfold chunk_name point_name; rw [hd]⟩
  intro a ha b hb hab
  obtain ⟨p, hp, rfl⟩ := hnamed a ha
  obtain ⟨q, hq, rfl⟩ := hnamed b hb
  exact h w' hw p hp q hq hab

/-- The upload of a text by the tenant "initech". -/
def initech_upload : Request := plain.request 1 (.Upload {
  tenant_id := "initech"
  original_filename := "plan.pdf"
  content := [65, 66]
  content_type := "application/pdf" })

/-- The handling of the job of the upload of "acme". -/
def acme_handling : Request := plain.request 3 (.Handle ⟨"acme", (plain.ids 0).job⟩)

/-- The tenants "acme" and "initech" upload one text each, which is indexed.
Each then asks for the document of "acme", and "acme" searches. -/
def two_tenants : List Request :=
  [plain.request 0 (plain.upload [65]), initech_upload,
    plain.request 2 (.Handle ⟨"initech", (plain.ids 1).job⟩),
    acme_handling,
    plain.request 4 (.Get ⟨"initech", (plain.ids 0).document⟩),
    plain.request 5 (.Get ⟨"acme", (plain.ids 0).document⟩),
    plain.request 6 (.Search ⟨"acme", "A", 10⟩)]

theorem acme_gets_what_it_gets_alone :
    answers plain.providers {} "acme" two_tenants =
        answers plain.providers {} "acme" (two_tenants.filter (asked_by "acme")) ∧
      ∃ w w', run (World.step plain.providers {}) {} (two_tenants.take 1) = some w ∧
        w.step plain.providers {} initech_upload = some w' ∧ view "acme" w' = view "acme" w ∧
        (w'.perform plain.providers {} acme_handling).1 =
          (w.perform plain.providers {} acme_handling).1 := by
  obtain ⟨hkept, hsame, hpurged⟩ := tenants_do_not_interfere plain.providers {} "acme"
  have hdistinct : Along (World.step plain.providers {}) (DistinctHashes plain.providers {}) {}
      two_tenants := by decide +kernel
  have hnames : Along (World.step plain.providers {}) (NoCollision plain.providers {}) {}
      two_tenants := along_iff.mpr (fun pre r post w he hr =>
    no_collision_of_distinct (along_iff.mp hdistinct pre r post w he hr))
  refine ⟨?_, ?_⟩
  · obtain ⟨w, hw⟩ := Option.isSome_iff_exists.mp (by decide +kernel :
      (run (World.step plain.providers {}) {} two_tenants).isSome = true)
    obtain ⟨_, _, hanswers, _⟩ := hpurged two_tenants w hnames hw
    exact hanswers
  · obtain ⟨x', hx'⟩ := Option.isSome_iff_exists.mp (by decide +kernel :
      (run (World.step plain.providers {}) {}
        (two_tenants.take 1 ++ [initech_upload] ++ [acme_handling])).isSome = true)
    obtain ⟨w', hw', hx'⟩ := run_snoc.mp hx'
    obtain ⟨w, hw, hstep⟩ := run_snoc.mp hw'
    obtain ⟨x, hx⟩ := Option.isSome_iff_exists.mp (by decide +kernel :
      (run (World.step plain.providers {}) {}
        (two_tenants.take 1 ++ [acme_handling])).isSome = true)
    obtain ⟨w0, hw0, hx⟩ := run_snoc.mp hx
    obtain rfl : w0 = w := Option.some_inj.mp (hw0.symm.trans hw)
    have hview := hkept w0 initech_upload w' ⟨_, hw⟩ (along_iff.mp hnames _ _ _ w0 rfl hw)
      (by decide) hstep
    obtain ⟨hresult, _⟩ := hsame w' w0 acme_handling x' x ⟨_, hw'⟩ ⟨_, hw⟩ hview rfl hx' hx
    exact ⟨w0, w', hw, hstep, hview, hresult⟩

end cortex_rag.service
