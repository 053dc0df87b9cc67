-- Refinement between two systems whose steps are relations: what matches each
-- step of the lower system matches each of its runs.
import Mathlib.Logic.Basic

namespace refinements

variable {σ τ α : Type}

/-- The runs of a system, with the labels of their steps. -/
inductive Runs (step : σ → α → σ → Prop) : σ → List α → σ → Prop where
  | nil (s : σ) : Runs step s [] s
  | cons {s t u : σ} {a : α} {as : List α} : step s a t → Runs step t as u →
    Runs step s (a :: as) u

/-- Each step of the lower system is a step of the upper one with the same
label, and `R` relates the states on the way. -/
def Refines (R : σ → τ → Prop) (lower : σ → α → σ → Prop) (upper : τ → α → τ → Prop) : Prop :=
  ∀ s t a s', R s t → lower s a s' → ∃ t', upper t a t' ∧ R s' t'

variable {R : σ → τ → Prop} {lower : σ → α → σ → Prop} {upper : τ → α → τ → Prop}

theorem runs_refine (h : Refines R lower upper) {s s' : σ} {t : τ} {as : List α} (hR : R s t)
    (hrun : Runs lower s as s') : ∃ t', Runs upper t as t' ∧ R s' t' := by
  induction hrun generalizing t with
  | nil s => exact ⟨t, .nil t, hR⟩
  | cons hstep _ ih =>
    obtain ⟨t1, hupper, hR1⟩ := h _ _ _ _ hR hstep
    obtain ⟨t', hrun', hR'⟩ := ih hR1
    exact ⟨t', .cons hupper hrun', hR'⟩

/-- A relation between the states before and after each step, that composes,
holds between the ends of a run. -/
theorem runs_relate (before : τ → τ → Prop) (hrefl : ∀ t, before t t)
    (htrans : ∀ t u v, before t u → before u v → before t v)
    (hstep : ∀ t a u, upper t a u → before t u) {t u : τ} {as : List α}
    (hrun : Runs upper t as u) : before t u := by
  induction hrun with
  | nil t => exact hrefl t
  | cons h _ ih => exact htrans _ _ _ (hstep _ _ _ h) ih

end refinements
