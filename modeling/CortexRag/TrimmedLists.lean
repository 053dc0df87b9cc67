-- Lists without blanks at their ends. `p` says which elements are blank.
import Mathlib.Data.List.DropRight

namespace trimmed_lists

variable {α : Type} (p : α → Bool)

/-- The list without the blanks at its ends. -/
def trim (l : List α) : List α := (l.dropWhile p).rdropWhile p

/-- No blank stands at an end. -/
structure Trimmed (l : List α) : Prop where
  head : ∀ a, l.head? = some a → p a = false
  last : ∀ a, l.getLast? = some a → p a = false

variable {p} {l : List α}

theorem trimmed_trim (l : List α) : Trimmed p (trim p l) := by
  constructor
  · intro a ha
    obtain ⟨t, ht⟩ := List.rdropWhile_prefix p (l := l.dropWhile p)
    have hhead := List.head?_dropWhile_not p l
    have ha : ((l.dropWhile p).rdropWhile p).head? = some a := ha
    rw [← ht, List.head?_append, ha] at hhead
    exact hhead
  · intro a ha
    have hne : (l.dropWhile p).rdropWhile p ≠ [] := by
      rintro hnil
      rw [trim, hnil] at ha
      cases ha
    have hlast := List.rdropWhile_last_not p _ hne
    rw [trim, List.getLast?_eq_some_getLast hne, Option.some.injEq] at ha
    rw [ha] at hlast
    simpa using hlast

theorem trim_of_trimmed (h : Trimmed p l) : trim p l = l := by
  have hhead : l.dropWhile p = l := by
    rcases l with _ | ⟨a, l⟩
    · rfl
    · rw [List.dropWhile_cons, h.head a rfl]
      rfl
  unfold trim
  rw [hhead, List.rdropWhile_eq_self_iff]
  intro hne
  rw [h.last _ (List.getLast?_eq_some_getLast hne)]
  exact Bool.false_ne_true

/-- Blanks before a list do not count. -/
theorem trim_append_left {blanks : List α} (h : ∀ a ∈ blanks, p a = true) :
    trim p (blanks ++ l) = trim p l := by
  unfold trim
  rw [List.dropWhile_append_of_pos h]

/-- Blanks after a list do not count. -/
theorem trim_append_right {blanks : List α} (h : ∀ a ∈ blanks, p a = true) :
    trim p (l ++ blanks) = trim p l := by
  have hlast : ∀ l : List α, (l ++ blanks).rdropWhile p = l.rdropWhile p := by
    intro l
    unfold List.rdropWhile
    rw [List.reverse_append, List.dropWhile_append_of_pos (fun a ha => h a (by simpa using ha))]
  unfold trim
  rw [List.dropWhile_append]
  split
  · rename_i hempty
    rw [List.isEmpty_iff.mp hempty, List.dropWhile_eq_nil_iff.mpr h]
  · exact hlast _

/-- A list is its trim between blanks. -/
theorem eq_trim_between_blanks (l : List α) :
    ∃ before after, (∀ a ∈ before, p a = true) ∧ (∀ a ∈ after, p a = true) ∧
      l = before ++ (trim p l ++ after) := by
  refine ⟨l.takeWhile p, (l.dropWhile p).rtakeWhile p,
    fun a ha => List.mem_takeWhile_imp ha, ?_, ?_⟩
  · intro a ha
    rw [List.rtakeWhile, List.mem_reverse] at ha
    exact List.mem_takeWhile_imp ha
  · have hlast : trim p l ++ (l.dropWhile p).rtakeWhile p = l.dropWhile p := by
      unfold trim List.rdropWhile List.rtakeWhile
      rw [← List.reverse_append, List.takeWhile_append_dropWhile, List.reverse_reverse]
    rw [hlast, List.takeWhile_append_dropWhile]

/-! ## Trimmed pieces -/

section Pieces

variable {separator : α → Bool}

/-- Elements before a list that separate nothing go to its first piece. -/
theorem splitOnP_append_left {before : List α} (h : ∀ a ∈ before, separator a = false) :
    (before ++ l).splitOnP separator = (l.splitOnP separator).modifyHead (before ++ ·) := by
  induction before with
  | nil => rw [List.nil_append]; cases l.splitOnP separator <;> rfl
  | cons a before ih =>
    rw [List.cons_append, List.splitOnP_cons_eq_if_modifyHead, h a List.mem_cons_self,
      if_neg Bool.false_ne_true, ih (fun b hb => h b (List.mem_cons_of_mem _ hb))]
    cases l.splitOnP separator <;> rfl

/-- Elements after a list that separate nothing go to its last piece. -/
theorem splitOnP_append_right {after : List α} (h : ∀ a ∈ after, separator a = false) :
    ∃ pieces last, l.splitOnP separator = pieces ++ [last] ∧
      (l ++ after).splitOnP separator = pieces ++ [last ++ after] := by
  induction l with
  | nil => exact ⟨[], [], List.splitOnP_nil, List.splitOnP_eq_singleton h⟩
  | cons a l ih =>
    obtain ⟨pieces, last, hpieces, hafter⟩ := ih
    rw [List.cons_append, List.splitOnP_cons_eq_if_modifyHead,
      List.splitOnP_cons_eq_if_modifyHead, hpieces, hafter]
    by_cases ha : separator a = true
    · rw [if_pos ha, if_pos ha]
      exact ⟨[] :: pieces, last, rfl, rfl⟩
    · rw [if_neg ha, if_neg ha]
      rcases pieces with _ | ⟨piece, pieces⟩
      · exact ⟨[], a :: last, rfl, rfl⟩
      · exact ⟨(a :: piece) :: pieces, last, rfl, rfl⟩

/-- The trimmed pieces of a list do not depend on the blanks at its ends. -/
theorem splitOnP_trim (h : ∀ a, p a = true → separator a = false) (l : List α) :
    ((trim p l).splitOnP separator).map (trim p) = (l.splitOnP separator).map (trim p) := by
  obtain ⟨before, after, hbefore, hafter, hl⟩ := eq_trim_between_blanks (p := p) l
  have hleft := splitOnP_append_left (l := trim p l ++ after) (fun a ha => h a (hbefore a ha))
  obtain ⟨pieces, last, hpieces, hright⟩ :=
    splitOnP_append_right (l := trim p l) (fun a ha => h a (hafter a ha))
  rw [← hl, hright] at hleft
  rw [hleft, hpieces]
  rcases pieces with _ | ⟨piece, pieces⟩
  · have hlast : trim p (before ++ (last ++ after)) = trim p last := by
      rw [trim_append_left hbefore, trim_append_right hafter]
    simp [hlast]
  · simp [trim_append_left hbefore, trim_append_right hafter]

end Pieces

end trimmed_lists
