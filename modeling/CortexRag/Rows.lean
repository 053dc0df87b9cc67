-- Tables of rows with a key: the lookup, the change and the insert of a row,
-- and what each of them leaves as it was.
import Mathlib.Algebra.GroupWithZero.Nat
import Mathlib.Data.List.Nodup
import Mathlib.Data.List.Perm.Basic
import Mathlib.Data.List.Dedup
import Mathlib.Data.List.Sort

namespace keyed_rows

variable {α κ : Type} [DecidableEq κ] (key : α → κ)

/-- No key stands on two rows. -/
def Keyed (t : List α) : Prop := (t.map key).Nodup

/-- The row with key `k`. -/
def find (k : κ) (t : List α) : Option α := t.find? (fun r => key r = k)

/-- The table after a change of the row with key `k`. -/
def modify (k : κ) (f : α → α) (t : List α) : List α :=
  t.map (fun r => if key r = k then f r else r)

/-- The table after `r` takes the place of the row with its key, or comes in
as a new row. -/
def upsert (t : List α) (r : α) : List α :=
  if key r ∈ t.map key then modify key (key r) (fun _ => r) t else t ++ [r]

/-! ## The lookup -/

theorem find_some {k : κ} {t : List α} {r : α} (h : find key k t = some r) :
    r ∈ t ∧ key r = k := by
  unfold find at h
  exact ⟨List.mem_of_find?_eq_some h, by simpa using List.find?_some h⟩

theorem find_none {k : κ} {t : List α} (h : find key k t = none) : ∀ r ∈ t, key r ≠ k := by
  unfold find at h
  simpa using List.find?_eq_none.mp h

theorem exists_of_find {k : κ} {t : List α} {r : α} (hr : r ∈ t) (hk : key r = k) :
    ∃ r', find key k t = some r' := by
  rcases h : find key k t with _ | r'
  · exact absurd hk (find_none key h r hr)
  · exact ⟨r', rfl⟩

omit [DecidableEq κ] in
theorem eq_of_key {t : List α} (h : Keyed key t) {a b : α} (ha : a ∈ t) (hb : b ∈ t)
    (hk : key a = key b) : a = b := List.inj_on_of_nodup_map h ha hb hk

theorem find_of_mem {t : List α} (h : Keyed key t) {r : α} (hr : r ∈ t) :
    find key (key r) t = some r := by
  obtain ⟨r', hr'⟩ := exists_of_find key hr rfl
  obtain ⟨hm, hk⟩ := find_some key hr'
  rw [hr', eq_of_key key h hm hr hk]

theorem find_eq_some_iff {t : List α} (h : Keyed key t) {k : κ} {r : α} :
    find key k t = some r ↔ r ∈ t ∧ key r = k := by
  constructor
  · exact find_some key
  · rintro ⟨hr, rfl⟩
    exact find_of_mem key h hr

/-- Two tables that hold the same row of key `k` give the same lookup. -/
theorem find_congr {t t' : List α} (h' : Keyed key t') {k : κ}
    (hs : ∀ r, key r = k → (r ∈ t ↔ r ∈ t')) : find key k t = find key k t' := by
  rcases hf : find key k t with _ | r
  · rcases hf' : find key k t' with _ | r'
    · rfl
    · obtain ⟨hm, hk⟩ := find_some key hf'
      exact absurd hk (find_none key hf r' ((hs r' hk).mpr hm))
  · obtain ⟨hm, hk⟩ := find_some key hf
    exact ((find_eq_some_iff key h').mpr ⟨(hs r hk).mp hm, hk⟩).symm

omit [DecidableEq κ] in
/-- Two tables with the same rows are the same up to the order of the rows. -/
theorem perm_of_same_rows {t t' : List α} (h : Keyed key t) (h' : Keyed key t')
    (hs : ∀ r, r ∈ t ↔ r ∈ t') : t.Perm t' :=
  (List.perm_ext_iff_of_nodup (List.Nodup.of_map _ h) (List.Nodup.of_map _ h')).mpr hs

omit [DecidableEq κ] in
/-- Only the keys count. -/
theorem keyed_of_keys {β : Type} {key' : β → κ} {t : List α} {t' : List β} (h : Keyed key t)
    (hkeys : t'.map key' = t.map key) : Keyed key' t' := by
  unfold Keyed
  rw [hkeys]
  exact h

omit [DecidableEq κ] in
/-- The keys of a table with one more, that is new. -/
theorem keyed_of_keys_append {t t' : List α} {k : κ} (h : Keyed key t) (hk : k ∉ t.map key)
    (hkeys : t'.map key = t.map key ++ [k]) : Keyed key t' := by
  unfold Keyed
  rw [hkeys, List.nodup_append]
  refine ⟨h, by simp, ?_⟩
  intro a ha b hb hab
  rw [List.mem_singleton] at hb
  exact hk (hb ▸ hab ▸ ha)

omit [DecidableEq κ] in
theorem keyed_map {β : Type} {f : β → α} {t : List β} :
    Keyed key (t.map f) ↔ (t.map (fun x => key (f x))).Nodup := by
  unfold Keyed
  rw [List.map_map]
  rfl

omit [DecidableEq κ] in
theorem keyed_filter {t : List α} (p : α → Bool) (h : Keyed key t) : Keyed key (t.filter p) :=
  List.Nodup.sublist (List.filter_sublist.map key) h

omit [DecidableEq κ] in
/-- A condition that holds of one row at most. -/
theorem length_filter_le_one {t : List α} (h : Keyed key t) {p : α → Bool} :
    (t.filter p).length ≤ 1 ↔
      ∀ a ∈ t, ∀ b ∈ t, p a = true → p b = true → key a = key b := by
  constructor
  · intro hlen a ha b hb hpa hpb
    have hina := List.mem_filter.mpr ⟨ha, hpa⟩
    have hinb := List.mem_filter.mpr ⟨hb, hpb⟩
    rcases hrows : t.filter p with _ | ⟨c, _ | ⟨d, rows⟩⟩
    · rw [hrows] at hina
      simp at hina
    · rw [hrows, List.mem_singleton] at hina hinb
      rw [hina, hinb]
    · rw [hrows] at hlen
      simp at hlen
  · intro hkeys
    have hnodup := (List.Nodup.of_map _ h).filter p
    rcases hrows : t.filter p with _ | ⟨a, _ | ⟨b, rows⟩⟩
    · simp
    · simp
    · have ha := List.mem_filter.mp (hrows ▸ List.mem_cons_self : a ∈ t.filter p)
      have hb := List.mem_filter.mp
        (hrows ▸ List.mem_cons_of_mem _ List.mem_cons_self : b ∈ t.filter p)
      have heq := eq_of_key key h ha.1 hb.1 (hkeys a ha.1 b hb.1 ha.2 hb.2)
      rw [hrows, heq] at hnodup
      simp at hnodup

/-! ## A new row -/

theorem find_append (k : κ) (t : List α) (r : α) :
    find key k (t ++ [r]) = (find key k t).or (if key r = k then some r else none) := by
  unfold find
  rw [List.find?_append]
  by_cases h : key r = k <;> simp [h]

theorem find_append_ne {k : κ} {r : α} (t : List α) (h : key r ≠ k) :
    find key k (t ++ [r]) = find key k t := by
  rw [find_append, if_neg h, Option.or_none]

/-- What holds of the rows and of the new row holds of the table with it. -/
theorem forall_append {P : α → Prop} {t : List α} {r : α} (h : ∀ x ∈ t, P x) (hr : P r) :
    ∀ x ∈ t ++ [r], P x := by
  intro x hx
  rcases List.mem_append.mp hx with hx | hx
  · exact h x hx
  · rw [List.mem_singleton] at hx
    exact hx ▸ hr

omit [DecidableEq κ] in
theorem keyed_append {t : List α} {r : α} (h : Keyed key t) (hr : ∀ x ∈ t, key x ≠ key r) :
    Keyed key (t ++ [r]) := by
  refine keyed_of_keys_append key h ?_ List.map_append
  intro hmem
  obtain ⟨x, hx, he⟩ := List.mem_map.mp hmem
  exact hr x hx he

/-! ## A change of one row -/

theorem mem_modify {k : κ} {f : α → α} {t : List α} {x : α} :
    x ∈ modify key k f t ↔ ∃ r ∈ t, (if key r = k then f r else r) = x := by
  unfold modify
  exact List.mem_map

theorem mem_modify_ne {k : κ} {f : α → α} (hf : ∀ r, key r = k → key (f r) = k) {t : List α}
    {x : α} (hx : key x ≠ k) : x ∈ modify key k f t ↔ x ∈ t := by
  rw [mem_modify]
  constructor
  · rintro ⟨r, hr, he⟩
    by_cases hk : key r = k
    · rw [if_pos hk] at he
      exact absurd (he ▸ hf r hk) hx
    · rw [if_neg hk] at he
      exact he ▸ hr
  · intro h
    exact ⟨x, h, if_neg hx⟩

/-- A column that the change leaves as it is. -/
theorem map_modify {β : Type} {g : α → β} {k : κ} {f : α → α}
    (hf : ∀ r, key r = k → g (f r) = g r) (t : List α) :
    (modify key k f t).map g = t.map g := by
  unfold modify
  rw [List.map_map]
  apply List.map_congr_left
  intro r _
  by_cases h : key r = k
  · simp [h, hf r h]
  · simp [h]

theorem map_key_modify {k : κ} {f : α → α} (hf : ∀ r, key r = k → key (f r) = k)
    (t : List α) : (modify key k f t).map key = t.map key :=
  map_modify key (fun r h => (hf r h).trans h.symm) t

/-- A row after the change: a row of another key as before, or a changed one. -/
theorem mem_of_modify {k : κ} {f : α → α} {t : List α} {x : α} (h : x ∈ modify key k f t) :
    (x ∈ t ∧ key x ≠ k) ∨ ∃ r ∈ t, key r = k ∧ x = f r := by
  obtain ⟨r, hr, rfl⟩ := (mem_modify key).mp h
  by_cases hk : key r = k
  · rw [if_pos hk]
    exact Or.inr ⟨r, hr, hk, rfl⟩
  · rw [if_neg hk]
    exact Or.inl ⟨hr, hk⟩

/-- A change of one row changes a sum over the rows by what it does to that row. -/
theorem sum_modify {k : κ} {f : α → α} {t : List α} (h : Keyed key t) {r : α} (hr : r ∈ t)
    (hk : key r = k) (g : α → ℕ) :
    ((modify key k f t).map g).sum + g r = (t.map g).sum + g (f r) := by
  induction t with
  | nil => cases hr
  | cons x t ih =>
    obtain ⟨hx, ht⟩ := List.nodup_cons.mp h
    unfold modify at ih ⊢
    simp only [List.map_cons, List.sum_cons]
    rcases List.mem_cons.mp hr with rfl | hr
    · have hrest : t.map (fun r => if key r = k then f r else r) = t := by
        refine (List.map_congr_left (fun y hy => ?_)).trans (List.map_id t)
        exact if_neg (fun hyk => hx (List.mem_map.mpr ⟨y, hy, hyk.trans hk.symm⟩))
      rw [if_pos hk, hrest]
      omega
    · have hne : key x ≠ k := fun hxk => hx (List.mem_map.mpr ⟨r, hr, hk.trans hxk.symm⟩)
      rw [if_neg hne]
      have := ih ht hr
      omega

/-- Rows that a change of other rows leaves: `g` is a column that it keeps. -/
theorem mem_modify_other {β : Type} {g : α → β} {b : β} {k : κ} {f : α → α} {t : List α}
    (hf : ∀ r, g (f r) = g r) (ht : ∀ r ∈ t, key r = k → g r ≠ b) {x : α} (hx : g x = b) :
    x ∈ modify key k f t ↔ x ∈ t := by
  constructor
  · intro h
    rcases mem_of_modify key h with ⟨h, _⟩ | ⟨r, hr, hk, rfl⟩
    · exact h
    · exact absurd ((hf r).symm.trans hx) (ht r hr hk)
  · intro h
    exact (mem_modify key).mpr ⟨x, h, if_neg (fun hk => ht x h hk hx)⟩

theorem keyed_modify {k : κ} {f : α → α} {t : List α} (hf : ∀ r, key r = k → key (f r) = k)
    (h : Keyed key t) : Keyed key (modify key k f t) :=
  keyed_of_keys key h (map_key_modify key hf t)

theorem find_modify {k : κ} {f : α → α} (hf : ∀ r, key r = k → key (f r) = k) (k' : κ)
    (t : List α) :
    find key k' (modify key k f t) =
      if k' = k then (find key k' t).map f else find key k' t := by
  unfold find modify
  rw [List.find?_map]
  have hp : ((fun r => decide (key r = k')) ∘ fun r => if key r = k then f r else r) =
      fun r => decide (key r = k') := by
    funext r
    by_cases h : key r = k
    · simp [h, hf r h]
    · simp [h]
  rw [hp]
  rcases hr : t.find? (fun r => decide (key r = k')) with _ | r
  · simp
  · have hk : key r = k' := by simpa using List.find?_some hr
    by_cases h : k' = k
    · simp [h, hk]
    · simp [h, hk]

theorem find_modify_self {k : κ} {f : α → α} (hf : ∀ r, key r = k → key (f r) = k) (t : List α) :
    find key k (modify key k f t) = (find key k t).map f := by
  rw [find_modify key hf, if_pos rfl]

theorem find_modify_ne {k k' : κ} {f : α → α} (hf : ∀ r, key r = k → key (f r) = k)
    (h : k' ≠ k) (t : List α) : find key k' (modify key k f t) = find key k' t := by
  rw [find_modify key hf, if_neg h]

/-! ## A row put in place -/

theorem map_key_upsert (t : List α) (r : α) :
    (upsert key t r).map key = if key r ∈ t.map key then t.map key else t.map key ++ [key r] := by
  unfold upsert
  split
  · exact map_key_modify key (fun _ _ => rfl) t
  · simp

theorem keyed_upsert {t : List α} (r : α) (h : Keyed key t) : Keyed key (upsert key t r) := by
  have hkeys := map_key_upsert key t r
  split at hkeys
  · exact keyed_of_keys key h hkeys
  · rename_i hr
    exact keyed_of_keys_append key h hr hkeys

theorem mem_upsert {t : List α} {r x : α} :
    x ∈ upsert key t r ↔ x = r ∨ (x ∈ t ∧ key x ≠ key r) := by
  unfold upsert
  split
  · rename_i hr
    by_cases hk : key x = key r
    · rw [mem_modify]
      constructor
      · rintro ⟨y, hy, he⟩
        by_cases hyr : key y = key r
        · rw [if_pos hyr] at he
          exact Or.inl he.symm
        · rw [if_neg hyr] at he
          exact absurd (he ▸ hk) hyr
      · rintro (hx | ⟨_, hne⟩)
        · obtain ⟨y, hy, hyr⟩ := List.mem_map.mp hr
          exact ⟨y, hy, by rw [if_pos hyr, hx]⟩
        · exact absurd hk hne
    · rw [mem_modify_ne key (fun _ _ => rfl) hk]
      constructor
      · intro hx
        exact Or.inr ⟨hx, hk⟩
      · rintro (hx | ⟨hx, _⟩)
        · exact absurd (by rw [hx]) hk
        · exact hx
  · rename_i hr
    simp only [List.mem_append, List.mem_singleton]
    constructor
    · rintro (hx | hx)
      · exact Or.inr ⟨hx, fun he => hr (List.mem_map.mpr ⟨x, hx, he⟩)⟩
      · exact Or.inl hx
    · rintro (hx | ⟨hx, _⟩)
      · exact Or.inr hx
      · exact Or.inl hx

/-- A key stays in the table. -/
theorem mem_key_upserts {rs : List α} {t : List α} {k : κ} (h : k ∈ t.map key) :
    k ∈ (rs.foldl (upsert key) t).map key := by
  induction rs generalizing t with
  | nil => exact h
  | cons r rs ih =>
    refine ih ?_
    rw [map_key_upsert]
    split
    · exact h
    · exact List.mem_append_left _ h

theorem keyed_upserts {t : List α} (rs : List α) (h : Keyed key t) :
    Keyed key (rs.foldl (upsert key) t) := by
  induction rs generalizing t with
  | nil => exact h
  | cons r rs ih => exact ih (keyed_upsert key r h)

theorem mem_of_upserts {rs : List α} {t : List α} {x : α} (h : x ∈ rs.foldl (upsert key) t) :
    x ∈ rs ∨ x ∈ t := by
  induction rs generalizing t with
  | nil => exact Or.inr h
  | cons r rs ih =>
    rcases ih h with h | h
    · exact Or.inl (List.mem_cons_of_mem r h)
    · rcases (mem_upsert key).mp h with rfl | ⟨h, _⟩
      · exact Or.inl List.mem_cons_self
      · exact Or.inr h

/-- After rows with distinct keys are put in place, the table holds them and
the old rows with other keys. -/
theorem mem_upserts {rs : List α} (hrs : Keyed key rs) {t : List α} {x : α} :
    x ∈ rs.foldl (upsert key) t ↔ x ∈ rs ∨ (x ∈ t ∧ key x ∉ rs.map key) := by
  induction rs generalizing t with
  | nil => simp
  | cons r rs ih =>
    unfold Keyed at hrs
    rw [List.map_cons, List.nodup_cons] at hrs
    obtain ⟨hr, hrs⟩ := hrs
    rw [List.foldl_cons, ih hrs, mem_upsert]
    simp only [List.mem_cons, List.map_cons, not_or]
    constructor
    · rintro (h | ⟨h | ⟨h, hne⟩, hk⟩)
      · exact Or.inl (Or.inr h)
      · exact Or.inl (Or.inl h)
      · exact Or.inr ⟨h, hne, hk⟩
    · rintro ((h | h) | ⟨h, hne, hk⟩)
      · subst h
        exact Or.inr ⟨Or.inl rfl, hr⟩
      · exact Or.inl h
      · exact Or.inr ⟨Or.inr ⟨h, hne⟩, hk⟩

/-! ## The rows in order -/

omit [DecidableEq κ] in
/-- Rows that are sorted by their keys stand in the one order that their keys
allow, whatever order the table has. -/
theorem map_key_sorted {r : κ → κ → Prop} [DecidableRel r] [Std.Total r] [IsTrans κ r]
    [Std.Antisymm r] {t : List α} {ks : List κ} (hks : ks.Pairwise r) (h : (t.map key).Perm ks) :
    (t.insertionSort (fun a b => r (key a) (key b))).map key = ks := by
  have : Std.Total (fun a b => r (key a) (key b)) := ⟨fun a b => total_of r (key a) (key b)⟩
  have : IsTrans α (fun a b => r (key a) (key b)) := ⟨fun _ _ _ hab hbc => trans_of r hab hbc⟩
  apply List.Perm.eq_of_pairwise' (r := r)
  · exact List.pairwise_map.mpr (List.pairwise_insertionSort _ t)
  · exact hks
  · exact ((List.perm_insertionSort _ t).map key).trans h

section Settled

variable {r : α → α → Prop} [DecidableRel r] [Std.Total r] [IsTrans α r] {t t' : List α}

/-- The order of a table has no say in how its rows are sorted, where the sort
decides between any two rows. -/
theorem sort_settled (hr : ∀ a ∈ t, ∀ b ∈ t, r a b → r b a → a = b) (hp : t.Perm t') :
    t.insertionSort r = t'.insertionSort r := by
  have hsorted : (t.insertionSort r).Perm (t'.insertionSort r) :=
    ((List.perm_insertionSort r t).trans hp).trans (List.perm_insertionSort r t').symm
  apply hsorted.eq_of_pairwise
  · intro a b ha hb hab hba
    rw [List.mem_insertionSort] at ha hb
    exact hr a ha b (hp.mem_iff.mpr hb) hab hba
  · exact List.pairwise_insertionSort r t
  · exact List.pairwise_insertionSort r t'

/-- The first row depends on which rows there are, and not on how often they
stand in the table. -/
theorem head_settled (hr : ∀ a ∈ t, ∀ b ∈ t, r a b → r b a → a = b)
    (hmem : ∀ x, x ∈ t ↔ x ∈ t') :
    (t.insertionSort r).head? = (t'.insertionSort r).head? := by
  have hsorted := List.pairwise_insertionSort r t
  have hsorted' := List.pairwise_insertionSort r t'
  have hall : ∀ x, x ∈ t.insertionSort r ↔ x ∈ t'.insertionSort r := by
    intro x
    rw [List.mem_insertionSort, List.mem_insertionSort]
    exact hmem x
  have hin : ∀ x, x ∈ t.insertionSort r → x ∈ t := fun x hx => (List.mem_insertionSort r).mp hx
  rcases hs : t.insertionSort r with _ | ⟨a, as⟩ <;>
    rcases hs' : t'.insertionSort r with _ | ⟨b, bs⟩ <;>
    rw [hs] at hsorted hall hin <;> rw [hs'] at hsorted' hall
  · exact absurd ((hall b).mpr List.mem_cons_self) List.not_mem_nil
  · exact absurd ((hall a).mp List.mem_cons_self) List.not_mem_nil
  · have hb : b ∈ a :: as := (hall b).mpr List.mem_cons_self
    rcases List.mem_cons.mp hb with rfl | hb'
    · rfl
    · rcases List.mem_cons.mp ((hall a).mp List.mem_cons_self) with rfl | ha'
      · rfl
      · exact congrArg some (hr a (hin a List.mem_cons_self) b (hin b hb)
          (List.rel_of_pairwise_cons hsorted hb') (List.rel_of_pairwise_cons hsorted' ha'))

/-- A row that only itself may come before is the first one. -/
theorem head_sorted {a : α} (ha : a ∈ t) (hfirst : ∀ b ∈ t, r b a → b = a) :
    (t.insertionSort r).head? = some a := by
  have hsorted := List.pairwise_insertionSort r t
  have hin : a ∈ t.insertionSort r := (List.mem_insertionSort r).mpr ha
  rcases hs : t.insertionSort r with _ | ⟨b, bs⟩
  · rw [hs] at hin
    cases hin
  · have hb : b ∈ t := (List.mem_insertionSort r).mp (hs ▸ List.mem_cons_self)
    rw [hs] at hsorted hin
    rcases List.mem_cons.mp hin with rfl | hin
    · rfl
    · exact congrArg some (hfirst b hb (List.rel_of_pairwise_cons hsorted hin))

end Settled

end keyed_rows
