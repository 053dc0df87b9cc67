-- Sets of rows with a key, and rows that take the place of those with their
-- keys: the order and the repetition of such writes have no say in what is left.
import CortexRag.Rows
import Mathlib.Data.Set.Lattice
import Mathlib.Data.Set.Function

namespace keyed_rows

section Overwrite

variable {α κ ι : Type} (key : α → κ)

/-- The rows of `base` after those of `new` have taken the place of the rows
with their keys. -/
def overwrite (base new : Set α) : Set α := {x | x ∈ new ∨ (x ∈ base ∧ ∀ y ∈ new, key y ≠ key x)}

variable {key} {base first second new : Set α}

theorem mem_overwrite {x : α} :
    x ∈ overwrite key base new ↔ x ∈ new ∨ (x ∈ base ∧ ∀ y ∈ new, key y ≠ key x) := Iff.rfl

theorem overwrite_empty : overwrite key base ∅ = base := by
  ext x
  simp [mem_overwrite]

/-- Two writes that agree on the rows of their common keys are one write. -/
theorem overwrite_overwrite (h : Set.InjOn key (first ∪ second)) :
    overwrite key (overwrite key base first) second = overwrite key base (first ∪ second) := by
  ext x
  simp only [mem_overwrite, Set.mem_union]
  constructor
  · rintro (hx | ⟨hx | ⟨hx, hfirst⟩, hsecond⟩)
    · exact Or.inl (Or.inr hx)
    · exact Or.inl (Or.inl hx)
    · refine Or.inr ⟨hx, ?_⟩
      rintro y (hy | hy)
      · exact hfirst y hy
      · exact hsecond y hy
  · rintro ((hx | hx) | ⟨hx, hne⟩)
    · by_cases hkey : ∃ y ∈ second, key y = key x
      · obtain ⟨y, hy, hyx⟩ := hkey
        have hsame : y = x := h (Or.inr hy) (Or.inl hx) hyx
        exact Or.inl (hsame ▸ hy)
      · exact Or.inr ⟨Or.inl hx, fun y hy hyx => hkey ⟨y, hy, hyx⟩⟩
    · exact Or.inl hx
    · exact Or.inr ⟨Or.inr ⟨hx, fun y hy => hne y (Or.inl hy)⟩, fun y hy => hne y (Or.inr hy)⟩

/-- A run of writes leaves what one write of all their rows leaves. -/
theorem foldl_overwrite {rows : ι → Set α} (h : Set.InjOn key (⋃ i, rows i)) (is : List ι)
    (base : Set α) :
    is.foldl (fun base i => overwrite key base (rows i)) base =
      overwrite key base (⋃ i ∈ is, rows i) := by
  induction is generalizing base with
  | nil => simp [overwrite_empty]
  | cons i is ih =>
    have hsub : rows i ∪ (⋃ j ∈ is, rows j) ⊆ ⋃ j, rows j :=
      Set.union_subset (Set.subset_iUnion rows i)
        (Set.iUnion₂_subset (fun j _ => Set.subset_iUnion rows j))
    rw [List.foldl_cons, ih, overwrite_overwrite (h.mono hsub)]
    simp [Set.iUnion_or, Set.iUnion_union_distrib]

/-- Runs of the same writes leave the same, in any order and however often each
write is made. -/
theorem overwrites_confluent {rows : ι → Set α} (h : Set.InjOn key (⋃ i, rows i))
    {is js : List ι} (hsame : ∀ i, i ∈ is ↔ i ∈ js) (base : Set α) :
    is.foldl (fun base i => overwrite key base (rows i)) base =
      js.foldl (fun base i => overwrite key base (rows i)) base := by
  rw [foldl_overwrite h, foldl_overwrite h]
  simp only [hsame]

end Overwrite

/-- Rows with distinct keys that are put in place overwrite the table. -/
theorem upserts_overwrite {α κ : Type} [DecidableEq κ] {key : α → κ} {rs t : List α}
    (hrs : Keyed key rs) :
    {x | x ∈ rs.foldl (upsert key) t} = overwrite key {x | x ∈ t} {x | x ∈ rs} := by
  ext x
  simp only [Set.mem_ofPred_eq, mem_upserts key hrs, mem_overwrite, List.mem_map, not_exists,
    not_and]

end keyed_rows
