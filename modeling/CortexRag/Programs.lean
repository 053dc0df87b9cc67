-- Programs that change a state and may end in an error: what a call does to
-- its state, and what two calls of one program do to two states.
import Mathlib.Logic.Basic
import Mathlib.Order.Defs.Unbundled

namespace state_programs

/-- A program: the value or the error of a call, and the state after it. An
error takes no change of the state back. -/
def Program (σ ε α : Type) := σ → Except ε α × σ

variable {σ ε α β : Type}

instance : Monad (Program σ ε) where
  pure a := fun s => (.ok a, s)
  bind p f := fun s =>
    match p s with
    | (.ok a, t) => f a t
    | (.error e, t) => (.error e, t)

instance : LawfulMonad (Program σ ε) := LawfulMonad.mk' _
  (by
    intro α p
    funext s
    simp only [Functor.map]
    rcases p s with ⟨e | a, t⟩ <;> rfl)
  (fun _ _ => rfl)
  (by
    intro α β γ p f g
    funext s
    simp only [bind]
    rcases p s with ⟨e | a, t⟩ <;> rfl)

def raise (e : ε) : Program σ ε α := fun s => (.error e, s)

def change (f : σ → σ) : Program σ ε Unit := fun s => (.ok (), f s)

/-- A value or an error that the state decides. -/
def look (f : σ → Except ε α) : Program σ ε α := fun s => (f s, s)

/-- `p`, and `handler` with the error if `p` ends in one. -/
def attempt (p : Program σ ε α) (handler : ε → Program σ ε α) : Program σ ε α := fun s =>
  match p s with
  | (.ok a, t) => (.ok a, t)
  | (.error e, t) => handler e t

/-! ## Calls that end -/

theorem pure_ok {a b : α} {s t : σ} :
    (pure a : Program σ ε α) s = (.ok b, t) ↔ a = b ∧ s = t := by
  simp [pure]

theorem bind_ok {p : Program σ ε α} {f : α → Program σ ε β} {b : β} {s t : σ} :
    (p >>= f) s = (.ok b, t) ↔ ∃ a m, p s = (.ok a, m) ∧ f a m = (.ok b, t) := by
  simp only [bind]
  rcases p s with ⟨e | a, m⟩
  · simp
  · constructor
    · intro h
      exact ⟨a, m, rfl, h⟩
    · rintro ⟨_, _, he, h⟩
      cases he
      exact h

theorem change_ok {f : σ → σ} {u : Unit} {s t : σ} :
    (change f : Program σ ε Unit) s = (.ok u, t) ↔ t = f s := by
  simp [change, eq_comm]

theorem look_ok {f : σ → Except ε α} {a : α} {s t : σ} :
    look f s = (.ok a, t) ↔ f s = .ok a ∧ t = s := by
  simp [look, eq_comm]

/-! ## One call -/

/-- `Q` of the value and the state after a call, or `E` of the error and the
state. -/
def Gives (Q : α → σ → Prop) (E : ε → σ → Prop) : Except ε α × σ → Prop
  | (.ok a, t) => Q a t
  | (.error e, t) => E e t

/-- From every state of `P` the call gives `Q` or `E`. -/
def Triple (P : σ → Prop) (p : Program σ ε α) (Q : α → σ → Prop) (E : ε → σ → Prop) : Prop :=
  ∀ s, P s → Gives Q E (p s)

variable {P : σ → Prop} {p : Program σ ε α} {Q : α → σ → Prop} {E : ε → σ → Prop}

theorem triple_pure {a : α} (h : ∀ s, P s → Q a s) : Triple P (pure a) Q E := h

theorem triple_raise {e : ε} (h : ∀ s, P s → E e s) : Triple P (raise e) Q E := h

theorem triple_bind {f : α → Program σ ε β} {M : α → σ → Prop} {Q : β → σ → Prop}
    (hp : Triple P p M E) (hf : ∀ a, Triple (M a) (f a) Q E) : Triple P (p >>= f) Q E := by
  intro s hs
  have h := hp s hs
  simp only [bind]
  rcases hps : p s with ⟨a | e, t⟩
  · rw [hps] at h
    exact h
  · rw [hps] at h
    exact hf e t h

theorem triple_attempt {handler : ε → Program σ ε α} {M : ε → σ → Prop}
    (hp : Triple P p Q M) (hh : ∀ e, Triple (M e) (handler e) Q E) :
    Triple P (attempt p handler) Q E := by
  intro s hs
  have h := hp s hs
  unfold attempt
  rcases hps : p s with ⟨e | a, t⟩
  · rw [hps] at h
    exact hh e t h
  · rw [hps] at h
    exact h

theorem triple_weaken {P' : σ → Prop} {Q' : α → σ → Prop} {E' : ε → σ → Prop}
    (h : Triple P' p Q' E') (hP : ∀ s, P s → P' s) (hQ : ∀ a s, Q' a s → Q a s)
    (hE : ∀ e s, E' e s → E e s) : Triple P p Q E := by
  intro s hs
  have hg := h s (hP s hs)
  rcases hps : p s with ⟨e | a, t⟩
  · rw [hps] at hg
    exact hE e t hg
  · rw [hps] at hg
    exact hQ a t hg

/-! ## Every call -/

/-- Every call of the program, however it ends, takes the state along `S`. -/
def Moves (S : σ → σ → Prop) (p : Program σ ε α) : Prop := ∀ s, S s (p s).2

section Moves

variable {S : σ → σ → Prop} [Std.Refl S] [IsTrans σ S]

omit [IsTrans σ S] in
theorem moves_pure (a : α) : Moves S (pure a : Program σ ε α) := fun s => refl_of S s

omit [IsTrans σ S] in
theorem moves_raise (e : ε) : Moves S (raise e : Program σ ε α) := fun s => refl_of S s

omit [IsTrans σ S] in
theorem moves_look (f : σ → Except ε α) : Moves S (look f) := fun s => refl_of S s

omit [Std.Refl S] in
theorem moves_bind {f : α → Program σ ε β} (hp : Moves S p) (hf : ∀ a, Moves S (f a)) :
    Moves S (p >>= f) := by
  intro s
  have h := hp s
  simp only [bind]
  rcases hps : p s with ⟨e | a, t⟩
  · rw [hps] at h
    exact h
  · rw [hps] at h
    exact trans_of S h (hf a t)

omit [Std.Refl S] in
theorem moves_attempt {handler : ε → Program σ ε α} (hp : Moves S p)
    (hh : ∀ e, Moves S (handler e)) : Moves S (attempt p handler) := by
  intro s
  have h := hp s
  unfold attempt
  rcases hps : p s with ⟨e | a, t⟩
  · rw [hps] at h
    exact trans_of S h (hh e t)
  · rw [hps] at h
    exact h

theorem moves_forM {γ : Type} {f : γ → Program σ ε Unit} (hf : ∀ x, Moves S (f x))
    (xs : List γ) : Moves S (xs.forM f) := by
  induction xs with
  | nil => exact moves_pure ()
  | cons x xs ih => exact moves_bind (hf x) (fun _ => ih)

end Moves

/-! ## Two calls -/

/-- The same value and `Q` of it and the two states, or the same error and
`E`. -/
def Agree (Q : α → σ → σ → Prop) (E : ε → σ → σ → Prop) :
    Except ε α × σ → Except ε α × σ → Prop
  | (.ok a, s), (.ok b, t) => a = b ∧ Q a s t
  | (.error e, s), (.error f, t) => e = f ∧ E e s t
  | _, _ => False

/-- Calls from two states that are related by `R` agree. -/
def Alike (R : σ → σ → Prop) (p : Program σ ε α) (Q : α → σ → σ → Prop)
    (E : ε → σ → σ → Prop) : Prop := ∀ s t, R s t → Agree Q E (p s) (p t)

variable {R : σ → σ → Prop} {S : α → σ → σ → Prop} {F : ε → σ → σ → Prop}

theorem alike_pure {a : α} (h : ∀ s t, R s t → S a s t) : Alike R (pure a) S F :=
  fun s t hR => ⟨rfl, h s t hR⟩

theorem alike_raise {e : ε} (h : ∀ s t, R s t → F e s t) : Alike R (raise e) S F :=
  fun s t hR => ⟨rfl, h s t hR⟩

theorem alike_bind {f : α → Program σ ε β} {M : α → σ → σ → Prop} {S : β → σ → σ → Prop}
    (hp : Alike R p M F) (hf : ∀ a, Alike (M a) (f a) S F) : Alike R (p >>= f) S F := by
  intro s t hR
  have h := hp s t hR
  simp only [bind]
  rcases hs : p s with ⟨e | a, s'⟩ <;> rcases ht : p t with ⟨e' | b, t'⟩ <;> rw [hs, ht] at h
  · exact h
  · exact h.elim
  · exact h.elim
  · obtain ⟨rfl, hM⟩ := h
    exact hf a s' t' hM

theorem alike_attempt {handler : ε → Program σ ε α} {M : ε → σ → σ → Prop}
    (hp : Alike R p S M) (hh : ∀ e, Alike (M e) (handler e) S F) :
    Alike R (attempt p handler) S F := by
  intro s t hR
  have h := hp s t hR
  unfold attempt
  rcases hs : p s with ⟨e | a, s'⟩ <;> rcases ht : p t with ⟨e' | b, t'⟩ <;> rw [hs, ht] at h
  · obtain ⟨rfl, hM⟩ := h
    exact hh e s' t' hM
  · exact h.elim
  · exact h.elim
  · exact h

end state_programs
