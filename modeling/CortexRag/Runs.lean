-- Runs of a system whose step is a partial function of the state and a
-- label: what every step keeps, every run keeps.
import Mathlib.Logic.Basic
import Mathlib.Tactic.ByContra

namespace labelled_runs

variable {σ α : Type} (step : σ → α → Option σ)

/-- The state after the steps of a list, in order. -/
def run : σ → List α → Option σ
  | s, [] => some s
  | s, a :: as => (step s a).bind (fun t => run t as)

/-- `C` holds of every step of the run, in the state where the step is taken. -/
def Along (C : σ → α → Prop) : σ → List α → Prop
  | _, [] => True
  | s, a :: as => C s a ∧ ∀ t, step s a = some t → Along C t as

instance decidable_along {C : σ → α → Prop} [∀ s a, Decidable (C s a)] :
    ∀ s as, Decidable (Along step C s as)
  | _, [] => .isTrue trivial
  | s, a :: as =>
    match h : step s a with
    | none => decidable_of_iff (C s a) ⟨fun hc => ⟨hc, fun _ ht => by simp [h] at ht⟩, And.left⟩
    | some t =>
      @decidable_of_iff _ (C s a ∧ Along step C t as)
        ⟨fun hc => ⟨hc.1, fun _ ht => Option.some.inj (h.symm.trans ht) ▸ hc.2⟩,
          fun hc => ⟨hc.1, hc.2 t h⟩⟩
        (@instDecidableAnd _ _ _ (decidable_along t as))

/-- `P` holds of every state of the run. -/
def Throughout (P : σ → Prop) (s : σ) (as : List α) : Prop :=
  ∀ pre post t, as = pre ++ post → run step s pre = some t → P t

/-- The states that some run from `init` reaches. -/
def Reachable (init s : σ) : Prop := ∃ as, run step init as = some s

variable {step}

theorem run_cons {s t : σ} {a : α} {as : List α} :
    run step s (a :: as) = some t ↔ ∃ m, step s a = some m ∧ run step m as = some t := by
  simp only [run, Option.bind_eq_some_iff]

theorem run_append {s t : σ} {as bs : List α} :
    run step s (as ++ bs) = some t ↔ ∃ m, run step s as = some m ∧ run step m bs = some t := by
  induction as generalizing s with
  | nil => simp [run]
  | cons a as ih =>
    rw [List.cons_append, run_cons]
    constructor
    · rintro ⟨m, hm, h⟩
      obtain ⟨m', h1, h2⟩ := ih.mp h
      exact ⟨m', run_cons.mpr ⟨m, hm, h1⟩, h2⟩
    · rintro ⟨m', h1, h2⟩
      obtain ⟨m, hm, h1⟩ := run_cons.mp h1
      exact ⟨m, hm, ih.mpr ⟨m', h1, h2⟩⟩

theorem run_snoc {s t : σ} {as : List α} {a : α} :
    run step s (as ++ [a]) = some t ↔ ∃ m, run step s as = some m ∧ step m a = some t := by
  rw [run_append]
  constructor
  · rintro ⟨m, h1, h2⟩
    obtain ⟨m', h2, h3⟩ := run_cons.mp h2
    simp only [run, Option.some.injEq] at h3
    exact ⟨m, h1, h3 ▸ h2⟩
  · rintro ⟨m, h1, h2⟩
    exact ⟨m, h1, run_cons.mpr ⟨t, h2, rfl⟩⟩

/-- What every step keeps under the condition `C`, a run along `C` keeps. -/
theorem run_keeps {I : σ → Prop} {C : σ → α → Prop}
    (hstep : ∀ s a t, I s → C s a → step s a = some t → I t) {s t : σ} {as : List α}
    (hs : I s) (hC : Along step C s as) (hr : run step s as = some t) : I t := by
  induction as generalizing s with
  | nil =>
    simp only [run, Option.some.injEq] at hr
    exact hr ▸ hs
  | cons a as ih =>
    obtain ⟨m, hm, hr⟩ := run_cons.mp hr
    exact ih (hstep s a m hs hC.1 hm) (hC.2 m hm) hr

theorem along_of_forall {C : σ → α → Prop} (h : ∀ s a, C s a) (s : σ) (as : List α) :
    Along step C s as := by
  induction as generalizing s with
  | nil => trivial
  | cons a as ih => exact ⟨h s a, fun t _ => ih t⟩

/-- What every step keeps, every run keeps. -/
theorem run_invariant {I : σ → Prop} (hstep : ∀ s a t, I s → step s a = some t → I t)
    {s t : σ} {as : List α} (hs : I s) (hr : run step s as = some t) : I t :=
  run_keeps (C := fun _ _ => True) (fun s a t hi _ h => hstep s a t hi h) hs
    (along_of_forall (fun _ _ => trivial) s as) hr

theorem reachable_invariant {I : σ → Prop} {init : σ} (h0 : I init)
    (hstep : ∀ s a t, I s → step s a = some t → I t) {s : σ} (hs : Reachable step init s) :
    I s := by
  obtain ⟨as, has⟩ := hs
  exact run_invariant hstep h0 has

/-- What every step keeps of a state and of the actions that have led to it holds
of every run. -/
theorem run_history {I : List α → σ → Prop} {init : σ} (h0 : I [] init)
    (hstep : ∀ as s a t, run step init as = some s → I as s → step s a = some t →
      I (as ++ [a]) t)
    {as : List α} {s : σ} (hr : run step init as = some s) : I as s := by
  have hfrom : ∀ (done rest : List α) (m : σ), run step init done = some m → I done m →
      run step m rest = some s → I (done ++ rest) s := by
    intro done rest
    induction rest generalizing done with
    | nil =>
      intro m _ hm hrest
      cases hrest
      rw [List.append_nil]
      exact hm
    | cons a rest ih =>
      intro m hdone hm hrest
      obtain ⟨t, ht, hrest⟩ := run_cons.mp hrest
      have hsplit : done ++ a :: rest = (done ++ [a]) ++ rest := by simp
      rw [hsplit]
      exact ih (done ++ [a]) t (run_snoc.mpr ⟨m, hdone, ht⟩) (hstep done m a t hdone hm ht) hrest
  exact hfrom [] as init rfl h0 hr

/-- While work is left every action does some of it, so the actions come to the end of
the work, in at most as many steps as there is work. -/
theorem run_finishes (step : σ → α → Option σ) (J : σ → List α → Prop) (work : σ → Nat)
    (Done : σ → Prop)
    (hstep : ∀ s a as, J s (a :: as) → ¬Done s →
      ∃ t, step s a = some t ∧ J t as ∧ work t < work s)
    (hidle : ∀ s as, J s as → work s = 0 → Done s) {s : σ} {as : List α} (hs : J s as)
    (henough : work s ≤ as.length) :
    ∃ k ≤ work s, ∃ t, run step s (as.take k) = some t ∧ J t (as.drop k) ∧ Done t := by
  induction as generalizing s with
  | nil => exact ⟨0, Nat.zero_le _, s, rfl, hs, hidle s [] hs (Nat.le_zero.mp henough)⟩
  | cons a as ih =>
    by_cases hdone : Done s
    · exact ⟨0, Nat.zero_le _, s, rfl, hs, hdone⟩
    · obtain ⟨m, hm, hJ, hless⟩ := hstep s a as hs hdone
      rw [List.length_cons] at henough
      obtain ⟨k, hk, t, hrun, hJt, ht⟩ := ih hJ (by omega)
      refine ⟨k + 1, by omega, t, ?_, hJt, ht⟩
      rw [List.take_succ_cons]
      exact run_cons.mpr ⟨m, hm, hrun⟩

theorem along_append {C : σ → α → Prop} {s : σ} {as bs : List α} :
    Along step C s (as ++ bs) ↔
      Along step C s as ∧ ∀ t, run step s as = some t → Along step C t bs := by
  induction as generalizing s with
  | nil => simp [Along, run]
  | cons a as ih =>
    simp only [List.cons_append, Along]
    constructor
    · rintro ⟨h1, h2⟩
      refine ⟨⟨h1, fun m hm => (ih.mp (h2 m hm)).1⟩, ?_⟩
      intro t ht
      obtain ⟨m, hm, ht⟩ := run_cons.mp ht
      exact (ih.mp (h2 m hm)).2 t ht
    · rintro ⟨⟨h1, h2⟩, h3⟩
      exact ⟨h1, fun m hm => ih.mpr ⟨h2 m hm, fun t ht => h3 t (run_cons.mpr ⟨m, hm, ht⟩)⟩⟩

/-- Two conditions that agree on every state of the invariant agree along
every run from such a state. -/
theorem along_congr {I : σ → Prop} {C D : σ → α → Prop}
    (hstep : ∀ s a t, I s → step s a = some t → I t) (h : ∀ s a, I s → (C s a ↔ D s a))
    {s : σ} (hs : I s) (as : List α) : Along step C s as ↔ Along step D s as := by
  induction as generalizing s with
  | nil => exact Iff.rfl
  | cons a as ih =>
    unfold Along
    rw [h s a hs]
    constructor
    · rintro ⟨h1, h2⟩
      exact ⟨h1, fun t ht => (ih (hstep s a t hs ht)).mp (h2 t ht)⟩
    · rintro ⟨h1, h2⟩
      exact ⟨h1, fun t ht => (ih (hstep s a t hs ht)).mpr (h2 t ht)⟩

/-- A condition along a run holds of each step of the run. -/
theorem along_iff {C : σ → α → Prop} {s : σ} {as : List α} :
    Along step C s as ↔
      ∀ pre a post t, as = pre ++ a :: post → run step s pre = some t → C t a := by
  constructor
  · rintro h pre a post t rfl hr
    exact ((along_append.mp h).2 t hr).1
  · intro h
    induction as generalizing s with
    | nil => trivial
    | cons a as ih =>
      refine ⟨h [] a as s rfl rfl, ?_⟩
      intro t ht
      apply ih
      intro pre b post m he hr
      exact h (a :: pre) b post m (by rw [he, List.cons_append]) (run_cons.mpr ⟨t, ht, hr⟩)

theorem throughout_cons {P : σ → Prop} {s : σ} {a : α} {as : List α} :
    Throughout step P s (a :: as) ↔ P s ∧ ∀ t, step s a = some t → Throughout step P t as := by
  constructor
  · intro h
    refine ⟨h [] (a :: as) s rfl rfl, ?_⟩
    intro t ht pre post u he hu
    exact h (a :: pre) post u (by rw [he, List.cons_append]) (run_cons.mpr ⟨t, ht, hu⟩)
  · rintro ⟨h1, h2⟩ pre post u he hu
    cases pre with
    | nil =>
      simp only [run, Option.some.injEq] at hu
      exact hu ▸ h1
    | cons b pre =>
      rw [List.cons_append, List.cons.injEq] at he
      obtain ⟨rfl, he⟩ := he
      obtain ⟨t, ht, hu⟩ := run_cons.mp hu
      exact h2 t ht pre post u he hu

theorem throughout_of_along {I P : σ → Prop} {C : σ → α → Prop}
    (hkeeps : ∀ s a t, I s → P s → C s a → step s a = some t → I t)
    (hgood : ∀ s a t, I s → P s → C s a → step s a = some t → P t) {s : σ} (hs : I s) (hP : P s)
    {as : List α} (hC : Along step C s as) : Throughout step P s as := by
  induction as generalizing s with
  | nil =>
    intro pre post t he ht
    obtain ⟨rfl, rfl⟩ := List.nil_eq_append_iff.mp he
    simp only [run, Option.some.injEq] at ht
    exact ht ▸ hP
  | cons a as ih =>
    refine throughout_cons.mpr ⟨hP, ?_⟩
    intro t ht
    exact ih (hkeeps s a t hs hP hC.1 ht) (hgood s a t hs hP hC.1 ht) (hC.2 t ht)

/-- Where a step against `C` breaks `P` and no other step does, `P` holds
throughout a run exactly when the run goes along `C`. -/
theorem throughout_iff_along {I P : σ → Prop} {C : σ → α → Prop}
    (hkeeps : ∀ s a t, I s → P s → C s a → step s a = some t → I t)
    (hgood : ∀ s a t, I s → P s → C s a → step s a = some t → P t)
    (hbad : ∀ s a, I s → P s → ¬ C s a → ∃ t, step s a = some t ∧ ¬ P t) {s : σ} (hs : I s)
    (hP : P s) (as : List α) : Throughout step P s as ↔ Along step C s as := by
  refine ⟨?_, throughout_of_along hkeeps hgood hs hP⟩
  intro h
  induction as generalizing s with
  | nil => trivial
  | cons a as ih =>
    obtain ⟨_, h2⟩ := throughout_cons.mp h
    have hfirst : ∀ t, step s a = some t → P t := fun t ht =>
      (h2 t ht) [] as t rfl rfl
    have hC : C s a := by
      by_contra hC
      obtain ⟨t, ht, hnot⟩ := hbad s a hs hP hC
      exact hnot (hfirst t ht)
    exact ⟨hC, fun t ht => ih (hkeeps s a t hs hP hC ht) (hfirst t ht) (h2 t ht)⟩

/-! ## Runs that end -/

/-- Where each step ends the run, or counts one more below a bound, the run ends
within the bound whatever its labels are. -/
theorem run_ends {G : Nat → σ → Prop} {D : Nat → α → σ → Prop} {bound : Nat}
    (hstep : ∀ n s a, G n s →
      ∃ t, step s a = some t ∧ (D (n + 1) a t ∨ (n < bound ∧ G (n + 1) t)))
    {s : σ} (hs : G 0 s) (as : Nat → α) :
    ∃ k t, k ≤ bound ∧ run step s ((List.range (k + 1)).map as) = some t ∧ D (k + 1) (as k) t := by
  -- by induction on how far the count is below the bound
  have hfrom : ∀ d n m, bound - n = d → n ≤ bound →
      run step s ((List.range n).map as) = some m → G n m →
      ∃ k t, k ≤ bound ∧ run step s ((List.range (k + 1)).map as) = some t ∧
        D (k + 1) (as k) t := by
    intro d
    induction d with
    | zero =>
      intro n m hd hn hrun hm
      obtain ⟨t, ht, hdone | ⟨hlt, _⟩⟩ := hstep n m (as n) hm
      · refine ⟨n, t, hn, ?_, hdone⟩
        rw [List.range_succ, List.map_append]
        exact run_snoc.mpr ⟨m, hrun, ht⟩
      · omega
    | succ d ih =>
      intro n m hd hn hrun hm
      obtain ⟨t, ht, hend⟩ := hstep n m (as n) hm
      have hnext : run step s ((List.range (n + 1)).map as) = some t := by
        rw [List.range_succ, List.map_append]
        exact run_snoc.mpr ⟨m, hrun, ht⟩
      rcases hend with hdone | ⟨hlt, hgoes⟩
      · exact ⟨n, t, hn, hnext, hdone⟩
      · exact ih (n + 1) t (by omega) hlt hnext hgoes
  exact hfrom (bound - 0) 0 s rfl (Nat.zero_le _) rfl hs

/-! ## Two runs -/

section Purge

variable {β : Type} (own : α → Bool) (observe : σ → α → β)

/-- What the own steps of a run show. -/
def outputs (step : σ → α → Option σ) : σ → List α → List β
  | _, [] => []
  | s, a :: as =>
    (if own a then [observe s a] else []) ++
      match step s a with
      | some t => outputs step t as
      | none => []

/-- Where the other steps do not move a state out of its relation to a second
one, and own steps move both and show the same, a run can do without the
steps of others. -/
theorem purged_run (own : α → Bool) (observe : σ → α → β) {R : σ → σ → Prop} {C : σ → α → Prop}
    (hother : ∀ s t a s', R s t → C s a → own a = false → step s a = some s' → R s' t)
    (hown : ∀ s t a s', R s t → own a = true → step s a = some s' →
      ∃ t', step t a = some t' ∧ observe s a = observe t a ∧ R s' t')
    {s t s' : σ} {as : List α} (hR : R s t) (hC : Along step C s as)
    (hr : run step s as = some s') :
    ∃ t', run step t (as.filter own) = some t' ∧
      outputs own observe step s as = outputs own observe step t (as.filter own) ∧ R s' t' := by
  induction as generalizing s t with
  | nil =>
    simp only [run, Option.some.injEq] at hr
    exact ⟨t, rfl, rfl, hr ▸ hR⟩
  | cons a as ih =>
    obtain ⟨m, hm, hr⟩ := run_cons.mp hr
    cases ha : own a with
    | false =>
      obtain ⟨t', ht', hout, hR'⟩ := ih (hother s t a m hR hC.1 ha hm) (hC.2 m hm) hr
      refine ⟨t', ?_, ?_, hR'⟩
      · rw [List.filter_cons_of_neg (by simp [ha])]
        exact ht'
      · rw [List.filter_cons_of_neg (by simp [ha]), ← hout]
        simp [outputs, ha, hm]
    | true =>
      obtain ⟨n, hn, hsame, hR⟩ := hown s t a m hR ha hm
      obtain ⟨t', ht', hout, hR'⟩ := ih hR (hC.2 m hm) hr
      rw [List.filter_cons_of_pos ha]
      refine ⟨t', run_cons.mpr ⟨n, hn, ht'⟩, ?_, hR'⟩
      simp only [outputs, ha, if_true, hm, hn, hsame, hout]

end Purge

end labelled_runs
