-- Lists related element by element, and traversals that may fail: what a traversal
-- gives is a list whose elements come from those of the first, one by one.
import Mathlib.Data.List.Forall2
import Mathlib.Data.List.Sort

namespace related_lists

variable {α β γ ε : Type}

/-! ## Lists -/

section Lists

variable {R S : α → β → Prop} {as : List α} {bs : List β}

/-- A related value for each element gives a list of them. -/
theorem exists_forall₂ : (∃ bs, List.Forall₂ R as bs) ↔ ∀ a ∈ as, ∃ b, R a b := by
  induction as with
  | nil => simp
  | cons a as ih =>
    simp only [List.forall₂_cons_left_iff, List.forall_mem_cons, ← ih]
    constructor
    · rintro ⟨_, b, bs, hb, hbs, _⟩
      exact ⟨⟨b, hb⟩, bs, hbs⟩
    · rintro ⟨⟨b, hb⟩, bs, hbs⟩
      exact ⟨b :: bs, b, bs, hb, hbs, rfl⟩

/-- What holds of each element of the first list is at hand for each pair. -/
theorem forall₂_imp_mem (h : List.Forall₂ R as bs) (himp : ∀ a ∈ as, ∀ b, R a b → S a b) :
    List.Forall₂ S as bs :=
  List.Forall₂.imp (fun _ b hab => hab.1 b hab.2) ((List.forall₂_and_left as bs).mpr ⟨himp, h⟩)

theorem exists_of_mem_right (h : List.Forall₂ R as bs) {b : β} (hb : b ∈ bs) :
    ∃ a ∈ as, R a b := by
  induction h with
  | nil => cases hb
  | @cons a b' as bs hab _ ih =>
    rcases List.mem_cons.mp hb with rfl | hb
    · exact ⟨a, List.mem_cons_self, hab⟩
    · obtain ⟨a', ha', hab'⟩ := ih hb
      exact ⟨a', List.mem_cons_of_mem _ ha', hab'⟩

/-- Two relations between the same lists hold of the same pairs. -/
theorem forall₂_both (hR : List.Forall₂ R as bs) (hS : List.Forall₂ S as bs) :
    ∀ a ∈ as, ∃ b, R a b ∧ S a b := by
  induction hR with
  | nil => simp
  | @cons a b as bs hab _ ih =>
    obtain ⟨hab', hrest⟩ := List.forall₂_cons.mp hS
    rintro x (_ | ⟨_, hx⟩)
    · exact ⟨b, hab, hab'⟩
    · exact ih hrest x hx

/-- What related values have in common comes in the same order in both lists. -/
theorem map_of_forall₂ {f : α → γ} {g : β → γ} (h : List.Forall₂ R as bs)
    (hsame : ∀ a b, R a b → g b = f a) : bs.map g = as.map f := by
  induction h with
  | nil => rfl
  | cons hab _ ih => rw [List.map_cons, List.map_cons, hsame _ _ hab, ih]

/-- A search that takes related values alike finds related values. -/
theorem forall₂_find {p : α → Bool} {q : β → Bool} (h : List.Forall₂ R as bs)
    (hsame : ∀ a b, R a b → p a = q b) : Option.Rel R (as.find? p) (bs.find? q) := by
  induction h with
  | nil => exact .none
  | @cons a b as bs hab _ ih =>
    rw [List.find?_cons, List.find?_cons, hsame a b hab]
    cases q b with
    | true => exact .some hab
    | false => exact ih

/-- A sort that orders related values alike gives related lists. -/
theorem forall₂_insertionSort {r : α → α → Prop} {s : β → β → Prop} [DecidableRel r]
    [DecidableRel s] (h : List.Forall₂ R as bs)
    (hsame : ∀ a b a' b', R a b → R a' b' → (r a a' ↔ s b b')) :
    List.Forall₂ R (as.insertionSort r) (bs.insertionSort s) := by
  have hinsert : ∀ a b, R a b → ∀ as bs, List.Forall₂ R as bs →
      List.Forall₂ R (as.orderedInsert r a) (bs.orderedInsert s b) := by
    intro a b hab as bs h
    induction h with
    | nil => exact .cons hab .nil
    | @cons a' b' as bs hab' hrest ih =>
      rw [List.orderedInsert, List.orderedInsert]
      by_cases hle : r a a'
      · rw [if_pos hle, if_pos ((hsame a b a' b' hab hab').mp hle)]
        exact .cons hab (.cons hab' hrest)
      · rw [if_neg hle, if_neg (fun h => hle ((hsame a b a' b' hab hab').mpr h))]
        exact .cons hab' ih
  induction h with
  | nil => exact .nil
  | @cons a b as bs hab _ ih => exact hinsert a b hab _ _ ih

theorem forall₂_comp {T : β → γ → Prop} {cs : List γ} (hR : List.Forall₂ R as bs)
    (hT : List.Forall₂ T bs cs) : List.Forall₂ (fun a c => ∃ b, R a b ∧ T b c) as cs := by
  induction hR generalizing cs with
  | nil =>
    obtain rfl := List.forall₂_nil_left_iff.mp hT
    exact .nil
  | @cons a b as bs hab _ ih =>
    obtain ⟨c, cs, hbc, hrest, rfl⟩ := List.forall₂_cons_left_iff.mp hT
    exact .cons ⟨b, hab, hbc⟩ (ih hrest)

end Lists

/-! ## Traversals -/

theorem mapM_eq_some {f : α → Option β} {as : List α} {bs : List β} :
    as.mapM f = some bs ↔ List.Forall₂ (fun a b => f a = some b) as bs := by
  induction as generalizing bs with
  | nil =>
    rw [List.forall₂_nil_left_iff]
    simp [eq_comm]
  | cons a as ih =>
    rw [List.forall₂_cons_left_iff]
    simp only [List.mapM_cons, Option.bind_eq_bind, Option.bind_eq_some_iff, ih]
    constructor
    · rintro ⟨b, hb, bs', hbs, he⟩
      cases he
      exact ⟨b, bs', hb, hbs, rfl⟩
    · rintro ⟨b, bs', hb, hbs, rfl⟩
      exact ⟨b, hb, bs', hbs, rfl⟩

theorem ok_of_toOption {x : Except ε α} {a : α} (h : x.toOption = some a) : x = .ok a := by
  rcases x with e | b
  · cases h
  · rw [← Option.some.inj h]

/-- A sequence that ends well has gone well at each of its steps. -/
theorem bind_eq_ok {x : Except ε α} {f : α → Except ε β} {b : β} :
    x >>= f = .ok b ↔ ∃ a, x = .ok a ∧ f a = .ok b := by
  constructor
  · intro h
    rcases x with e | a
    · cases h
    · exact ⟨a, rfl, h⟩
  · rintro ⟨a, rfl, h⟩
    exact h

theorem mapM_eq_ok {f : α → Except ε β} {as : List α} {bs : List β} :
    as.mapM f = .ok bs ↔ List.Forall₂ (fun a b => f a = .ok b) as bs := by
  induction as generalizing bs with
  | nil =>
    rw [List.forall₂_nil_left_iff]
    simp [pure, Except.pure, eq_comm]
  | cons a as ih =>
    rw [List.forall₂_cons_left_iff]
    simp only [List.mapM_cons, bind_eq_ok, ih]
    constructor
    · rintro ⟨b, hb, bs', hbs, he⟩
      cases he
      exact ⟨b, bs', hb, hbs, rfl⟩
    · rintro ⟨b, bs', hb, hbs, rfl⟩
      exact ⟨b, hb, bs', hbs, rfl⟩

/-- A traversal goes well where each of its steps does. -/
theorem mapM_ok_of_forall {f : α → Except ε β} {as : List α} (h : ∀ a ∈ as, ∃ b, f a = .ok b) :
    ∃ bs, as.mapM f = .ok bs := by
  obtain ⟨bs, hbs⟩ := exists_forall₂.mpr h
  exact ⟨bs, mapM_eq_ok.mpr hbs⟩

/-- A traversal of joined lists traverses each of them. -/
theorem mapM_flatMap {f : α → List β} {g : β → Except ε γ} (as : List α) :
    (as.flatMap f).mapM g = (do
      let bs ← as.mapM (fun a => (f a).mapM g)
      return bs.flatten) := by
  induction as with
  | nil => rfl
  | cons a as ih =>
    rw [List.flatMap_cons, List.mapM_append, ih, List.mapM_cons]
    simp

end related_lists
