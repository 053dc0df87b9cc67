-- Pages of a sorted list, where each page is cut from a sort of its own. The
-- sorts may differ in the order of tied elements; where no cut runs between
-- tied elements, the pages make up the list.
import Mathlib.Data.List.Nodup
import Mathlib.Data.List.Perm.Subperm
import Mathlib.Tactic.ByContra

namespace sorted_pages

variable {α : Type} {le : α → α → Prop}

/-- Page `k` of a list. -/
def page (limit k : Nat) (s : List α) : List α := (s.drop (k * limit)).take limit

/-- The first `n` pages, page `k` cut from the sort `s k`. -/
def pages (limit : Nat) (s : Nat → List α) (n : Nat) : List α :=
  (List.range n).flatMap (fun k => page limit k (s k))

/-- How many pages hold a list of this length. -/
def count (length limit : Nat) : Nat := (length + limit - 1) / limit

/-- No element after the first `p` may come before one of them. -/
def CutAt (le : α → α → Prop) (p : Nat) (s : List α) : Prop :=
  ∀ a ∈ s.take p, ∀ b ∈ s.drop p, ¬ le b a

theorem pages_succ (limit : Nat) (s : Nat → List α) (n : Nat) :
    pages limit s (n + 1) = pages limit s n ++ page limit n (s n) := by
  simp [pages, List.range_succ]

theorem take_succ_page (limit n : Nat) (s : List α) :
    s.take ((n + 1) * limit) = s.take (n * limit) ++ page limit n s := by
  rw [Nat.add_mul, Nat.one_mul, List.take_add]
  rfl

theorem drop_page (limit n : Nat) (s : List α) :
    s.drop (n * limit) = page limit n s ++ s.drop ((n + 1) * limit) := by
  unfold page
  rw [Nat.add_mul, Nat.one_mul, ← List.drop_drop, List.take_append_drop]

theorem le_count_mul {length limit : Nat} (h : 0 < limit) :
    length ≤ count length limit * limit := by
  have hdiv := Nat.div_add_mod (length + limit - 1) limit
  have hmod := Nat.mod_lt (length + limit - 1) h
  unfold count
  rw [Nat.mul_comm]
  omega

theorem lt_count {length limit k : Nat} (hlimit : 0 < limit) (h : k * limit < length) :
    k < count length limit := by
  have hle : length ≤ count length limit * limit := le_count_mul hlimit
  exact Nat.lt_of_mul_lt_mul_right (Nat.lt_of_lt_of_le h hle)

/-! ## Two sorts of one list -/

section TwoSorts

variable {s s' : List α}

theorem perm_of_subset {t t' : List α} (hn : t.Nodup) (h : t ⊆ t')
    (hlength : t'.length ≤ t.length) : t.Perm t' :=
  (List.subperm_of_subset hn h).perm_of_length_le hlength

/-- What stands before a cut stands there in every sort. -/
theorem take_perm_of_cut (hn : s.Nodup) (hperm : s.Perm s') (hs' : s'.Pairwise le) {p : Nat}
    (hcut : CutAt le p s) : (s.take p).Perm (s'.take p) := by
  have hlength : (s.take p).length = (s'.take p).length := by
    rw [List.length_take, List.length_take, hperm.length_eq]
  have hn' : s'.Nodup := hperm.nodup_iff.mp hn
  apply perm_of_subset (hn.sublist (List.take_sublist p s)) _ (Nat.le_of_eq hlength.symm)
  by_contra hnot
  -- then the two parts before the cut each have an element that the other lacks
  obtain ⟨a, ha, ha'⟩ : ∃ a ∈ s.take p, a ∉ s'.take p := by
    by_contra hall
    push Not at hall
    exact hnot hall
  have hback : ¬ s'.take p ⊆ s.take p := by
    intro hsub
    have := perm_of_subset (hn'.sublist (List.take_sublist p s')) hsub (Nat.le_of_eq hlength)
    exact ha' (this.mem_iff.mpr ha)
  obtain ⟨b, hb', hb⟩ : ∃ b ∈ s'.take p, b ∉ s.take p := by
    by_contra hall
    push Not at hall
    exact hback hall
  have hbdrop : b ∈ s.drop p := by
    have hbs : b ∈ s := hperm.mem_iff.mpr (List.mem_of_mem_take hb')
    rw [← List.take_append_drop p s, List.mem_append] at hbs
    exact hbs.resolve_left hb
  have hadrop : a ∈ s'.drop p := by
    have has : a ∈ s' := hperm.mem_iff.mp (List.mem_of_mem_take ha)
    rw [← List.take_append_drop p s', List.mem_append] at has
    exact has.resolve_left ha'
  rw [← List.take_append_drop p s', List.pairwise_append] at hs'
  exact hcut a ha b hbdrop (hs'.2.2 b hb' a hadrop)

/-- The pages of one sort, and from page `k` on of another. -/
theorem pages_switch (s s' : List α) (limit k m : Nat) :
    pages limit (fun i => if i < k then s else s') (k + m) ++ s'.drop ((k + m) * limit) =
      s.take (k * limit) ++ s'.drop (k * limit) := by
  have hfirst : ∀ n ≤ k, pages limit (fun i => if i < k then s else s') n = s.take (n * limit) := by
    intro n
    induction n with
    | zero => simp [pages]
    | succ n ih =>
      intro hn
      rw [pages_succ, ih (by omega), if_pos (by omega), take_succ_page]
  induction m with
  | zero => rw [Nat.add_zero, hfirst k (Nat.le_refl k)]
  | succ m ih =>
    rw [← ih, ← Nat.add_assoc, pages_succ, if_neg (by omega), drop_page limit (k + m),
      List.append_assoc]

end TwoSorts

/-! ## Pages of many sorts -/

section ManySorts

variable {s : Nat → List α} {rows : List α} {limit : Nat}

/-- Where no page ends between tied elements, the pages make up the list, in
order. -/
theorem pages_of_cuts (hn : rows.Nodup) (hperm : ∀ k, (s k).Perm rows)
    (hs : ∀ k, (s k).Pairwise le) (hcut : ∀ n, CutAt le (n * limit) (s 0)) (n : Nat) :
    (pages limit s n).Perm ((s 0).take (n * limit)) ∧ (pages limit s n).Pairwise le := by
  have htake : ∀ n k, ((s 0).take (n * limit)).Perm ((s k).take (n * limit)) := fun n k =>
    take_perm_of_cut ((hperm 0).nodup_iff.mpr hn) ((hperm 0).trans (hperm k).symm) (hs k) (hcut n)
  induction n with
  | zero => simp [pages]
  | succ n ih =>
    obtain ⟨hpages, hsorted⟩ := ih
    have hbefore : (pages limit s n).Perm ((s n).take (n * limit)) := hpages.trans (htake n n)
    rw [pages_succ]
    constructor
    · have hnext : (pages limit s n ++ page limit n (s n)).Perm ((s n).take ((n + 1) * limit)) := by
        rw [take_succ_page]
        exact hbefore.append_right _
      exact hnext.trans (htake (n + 1) n).symm
    · have hsn := hs n
      rw [← List.take_append_drop (n * limit) (s n), List.pairwise_append] at hsn
      rw [List.pairwise_append]
      refine ⟨hsorted, hsn.2.1.sublist (List.take_sublist _ _), ?_⟩
      intro a ha b hb
      exact hsn.2.2 a (hbefore.mem_iff.mp ha) b (List.mem_of_mem_take hb)

end ManySorts

end sorted_pages
