-- When a call of the service ends without an error: every call to the outside
-- on its way succeeds.
import CortexRag.ServiceSteps

open keyed_rows state_programs

namespace cortex_rag.service

/-- The first `n` calls to the outside do not fail. -/
def Faultless (n : Nat) (faults : List (Option Interruption)) : Prop :=
  ∀ k < n, faults[k]?.join = none

instance (n : Nat) (faults : List (Option Interruption)) : Decidable (Faultless n faults) :=
  inferInstanceAs (Decidable (∀ k < n, faults[k]?.join = none))

theorem faultless_succ {n : Nat} {faults : List (Option Interruption)} :
    Faultless (n + 1) faults ↔ faults.head?.join = none ∧ Faultless n faults.tail := by
  unfold Faultless
  rw [List.head?_eq_getElem?]
  constructor
  · intro h
    refine ⟨h 0 (by omega), ?_⟩
    intro k hk
    rw [List.getElem?_tail]
    exact h (k + 1) (by omega)
  · rintro ⟨h0, h⟩ k hk
    cases k with
    | zero => exact h0
    | succ k =>
      have := h k (by omega)
      rwa [List.getElem?_tail] at this

theorem faultless_add {n k : Nat} {faults : List (Option Interruption)} :
    Faultless (n + k) faults ↔ Faultless n faults ∧ Faultless k (faults.drop n) := by
  unfold Faultless
  simp only [List.getElem?_drop]
  constructor
  · intro h
    exact ⟨fun i hi => h i (by omega), fun i hi => h (n + i) (by omega)⟩
  · rintro ⟨hfirst, hrest⟩ i hi
    rcases Nat.lt_or_ge i n with hlt | hge
    · exact hfirst i hlt
    · have := hrest (i - n) (by omega)
      rwa [Nat.add_sub_cancel' hge] at this

theorem faultless_last {n : Nat} {faults : List (Option Interruption)} :
    Faultless (n + 1) faults ↔ Faultless n faults ∧ (faults.drop n).head?.join = none := by
  rw [List.head?_drop]
  constructor
  · intro h
    exact ⟨fun k hk => h k (Nat.lt_succ_of_lt hk), h n (Nat.lt_succ_self n)⟩
  · rintro ⟨h, hn⟩ k hk
    rcases Nat.lt_succ_iff_lt_or_eq.mp hk with hk | rfl
    · exact h k hk
    · exact hn

theorem faultless_one {faults : List (Option Interruption)} :
    Faultless 1 faults ↔ faults.head?.join = none := by
  rw [faultless_succ]
  exact and_iff_left (fun _ hk => absurd hk (Nat.not_lt_zero _))

variable {α : Type} {u : Unit} {c d : Call}

theorem external_ok : external c = (.ok u, d) ↔
    c.faults.head?.join = none ∧ d = { c with faults := c.faults.tail } := by
  unfold external
  rcases c with ⟨world, faults, broken⟩
  rcases faults with _ | ⟨_ | fault, faults⟩ <;> simp [eq_comm]

theorem of_except_ok {x : Except PyException α} {a : α} :
    of_except x c = (.ok a, d) ↔ x = .ok a ∧ d = c := by
  unfold of_except
  rcases x with e | b <;> simp [eq_comm]

theorem statement_ok {g : Database → Except PyException (α × Database)} {a : α} :
    statement g c = (.ok a, d) ↔ c.broken = false ∧ c.faults.head?.join = none ∧
      ∃ db, g c.world.db = .ok (a, db) ∧
        d = { c with world := { c.world with db }, faults := c.faults.tail } := by
  rcases c with ⟨world, faults, broken⟩
  rcases hg : g world.db with e | ⟨b, db⟩ <;> cases broken <;>
    rcases faults with _ | ⟨_ | fault, faults⟩ <;> simp [statement, external, hg, eq_comm]

theorem query_ok {g : Database → α} {a : α} :
    query g c = (.ok a, d) ↔ c.broken = false ∧ c.faults.head?.join = none ∧
      a = g c.world.db ∧ d = { c with faults := c.faults.tail } := by
  unfold query
  rw [statement_ok]
  simp only [Except.ok.injEq, Prod.mk.injEq]
  constructor
  · rintro ⟨hb, hf, db, ⟨rfl, rfl⟩, rfl⟩
    exact ⟨hb, hf, rfl, rfl⟩
  · rintro ⟨hb, hf, rfl, rfl⟩
    exact ⟨hb, hf, c.world.db, ⟨rfl, rfl⟩, rfl⟩

theorem write_ok {g : Database → Except PyException Database} :
    write g c = (.ok u, d) ↔ c.broken = false ∧ c.faults.head?.join = none ∧
      ∃ db, g c.world.db = .ok db ∧
        d = { c with world := { c.world with db }, faults := c.faults.tail } := by
  unfold write
  rw [statement_ok]
  rcases g c.world.db with e | db <;> simp [Except.map]

theorem effect_ok {f : World → World} :
    effect f c = (.ok u, d) ↔ c.faults.head?.join = none ∧
      d = { c with world := f c.world, faults := c.faults.tail } := by
  unfold effect
  rw [bind_ok]
  constructor
  · rintro ⟨_, e, he, hd⟩
    obtain ⟨hf, rfl⟩ := external_ok.mp he
    exact ⟨hf, change_ok.mp hd⟩
  · rintro ⟨hf, rfl⟩
    exact ⟨(), _, external_ok.mpr ⟨hf, rfl⟩, change_ok.mpr rfl⟩

theorem save_ok {key : String} {content : Bytes} :
    StorageProvider.save key content c = (.ok u, d) ↔ c.faults.head?.join = none ∧
      d = { c with
        world := { c.world with blobs := c.world.blobs.save key content }
        faults := c.faults.tail } := effect_ok

theorem publish_ok {event : DomainEvent} :
    publish event c = (.ok u, d) ↔ c.faults.head?.join = none ∧
      d = { c with
        world := { c.world with events := c.world.events ++ [event] }
        faults := c.faults.tail } := effect_ok

/-- A session ends well when its program does and the commit does not fail. -/
theorem session_ok {p : Service α} {a : α} :
    session p c = (.ok a, d) ↔ ∃ e, p c = (.ok a, e) ∧ e.broken = false ∧
      e.faults.head?.join = none ∧ d = { e with faults := e.faults.tail } := by
  have hcommit : ∀ a d, (do let a ← p; write .ok; return a : Service α) c = (.ok a, d) ↔
      ∃ e, p c = (.ok a, e) ∧ e.broken = false ∧ e.faults.head?.join = none ∧
        d = { e with faults := e.faults.tail } := by
    intro a d
    simp only [bind_ok, pure_ok]
    constructor
    · rintro ⟨a', e, hp, _, e', hw, rfl, rfl⟩
      obtain ⟨hb, hf, db, hdb, rfl⟩ := write_ok.mp hw
      cases hdb
      exact ⟨e, hp, hb, hf, rfl⟩
    · rintro ⟨e, hp, hb, hf, rfl⟩
      exact ⟨a, e, hp, (), _, write_ok.mpr ⟨hb, hf, e.world.db, rfl, rfl⟩, rfl, rfl⟩
  rw [← hcommit]
  unfold session
  split
  · rename_i b e he
    rw [he]
  · rename_i b e he
    rw [he]
    simp

/-- What a session that fails leaves of the rows. -/
theorem session_error {p : Service α} {e : Interruption} (h : session p c = (.error e, d)) :
    d.world.db = c.world.db := by
  unfold session at h
  split at h
  · cases h
  · cases h
    rfl

/-- What an operation returns, its program has returned. -/
theorem perform_ok {P : Providers} {settings : Settings} {w w' : World} {r : Request}
    {response : Response} (h : w.perform P settings r = (.ok response, w')) :
    ∃ e, r.operation.program P settings r.moment ⟨opened w r, r.moment.faults, false⟩ =
      (.ok response, e) := by
  rw [perform_eq, Prod.mk.injEq] at h
  obtain ⟨e, he, _⟩ := session_ok.mp (Prod.ext h.1 rfl)
  exact ⟨e, he⟩

/-! ## Providers in small -/

namespace plain

/-- The distance of a point from a vector, by the first number of each. -/
def distance (vector : Vector) (p : VectorPoint) : Nat :=
  let a := (vector.headD ⟨0⟩).bits.toNat
  let b := (p.vector.headD ⟨0⟩).bits.toNat
  max a b - min a b

/-- The point `a` comes before `b`: it is nearer, or as near with a lower id. -/
def before (vector : Vector) (a b : VectorPoint) : Prop :=
  distance vector a < distance vector b ∨
    (distance vector a = distance vector b ∧ a.id.val ≤ b.id.val)

instance (vector : Vector) : DecidableRel (before vector) := fun a b =>
  inferInstanceAs (Decidable (distance vector a < distance vector b ∨
    (distance vector a = distance vector b ∧ a.id.val ≤ b.id.val)))

instance (vector : Vector) : Std.Total (before vector) :=
  ⟨fun a b => by unfold before; omega⟩

instance (vector : Vector) : IsTrans VectorPoint (before vector) :=
  ⟨fun a b c => by unfold before; omega⟩

def nearest (points : List VectorPoint) (vector : Vector) (limit : Nat) :
    List (VectorPoint × PyFloat) :=
  ((points.insertionSort (before vector)).take limit).map
    (fun p => (p, ⟨UInt64.ofNat (distance vector p)⟩))

/-- Providers that stand in for the real ones on small inputs: a text is its
bytes and its chunks are its lines, a vector is the length of its text. -/
def providers : Providers where
  sha256_hex content := String.ofList (content.map (fun b => Char.ofNat b.toNat))
  uuid5 name := ⟨Fin.ofNat _ (name.toList.foldl (fun n c => 131 * n + c.toNat) 0)⟩
  missing_blob key := .EntityNotFoundError ("Object not found: " ++ key)
  parse content _ := .ok {
    text := String.ofList (content.map (fun b => Char.ofNat b.toNat))
    page_count := 1 }
  split_text _ text := if text = "" then [] else (text.toList.splitOn '\n').map String.ofList
  embed _ texts := .ok (texts.map (fun text => [⟨UInt64.ofNat text.toList.length⟩]))
  nearest := nearest
  nearest_among := by
    intro points vector limit hit h
    obtain ⟨p, hp, rfl⟩ := List.mem_map.mp h
    exact (List.mem_insertionSort _).mp (List.mem_of_mem_take hp)
  nearest_settled := by
    intro points points' vector limit hkeyed hperm
    unfold nearest
    rw [sort_settled ?_ hperm]
    intro a ha b hb hab hba
    unfold before at hab hba
    have hval : a.id.val = b.id.val := by omega
    exact eq_of_key _ hkeyed ha hb (congrArg UUID.mk hval)

/-- The ids of the call number `n`. -/
def ids (n : Nat) : FreshIds where
  document := ⟨Fin.ofNat _ (6 * n)⟩
  version := ⟨Fin.ofNat _ (6 * n + 1)⟩
  job := ⟨Fin.ofNat _ (6 * n + 2)⟩
  conversation := ⟨Fin.ofNat _ (6 * n + 3)⟩
  question := ⟨Fin.ofNat _ (6 * n + 4)⟩
  answer := ⟨Fin.ofNat _ (6 * n + 5)⟩

/-- The call number `n`, at noon, in which nothing fails. -/
def moment (n : Nat) : Moment where
  clock := fun _ => noon
  db_now := noon
  ids := ids n
  complete := fun _ => .ok "Yes."

def request (n : Nat) (operation : Operation) : Request where
  moment := moment n
  operation := operation

/-- The call, with a crash at its call number `k` to the outside. -/
def crashing (k : Nat) (r : Request) : Request :=
  { r with moment := { r.moment with faults := List.replicate k none ++ [some .Crashed] } }

/-- The upload of a PDF by the tenant "acme". -/
def upload (content : Bytes) : Operation := .Upload {
  tenant_id := "acme"
  original_filename := "notes.pdf"
  content
  content_type := "application/pdf" }

/-- A new version of a document of "acme". -/
def add_version (document_id : UUID) (content : Bytes) : Operation := .AddVersion {
  tenant_id := "acme"
  document_id
  original_filename := "notes.pdf"
  content
  content_type := "application/pdf" }

end plain

end cortex_rag.service
