-- The channels that the calls of `enqueue` share: one cache, one lock, and a memory of
-- the queues that have been declared. Between two awaits a call runs alone.
import CortexRag.Runs
import Mathlib.Data.List.Basic

open labelled_runs

namespace cortex_rag.amqp

/-! ## The model -/

/-- A channel: the URL of its connection and its `id`, which a channel before it may have
had. `was_closed` remembers a close, whether or not the channel is open again. -/
structure AbstractChannel where
  url : String
  address : Nat
  is_closed : Bool := false
  was_closed : Bool := false
deriving DecidableEq

/-- Where a call of `enqueue` stands. A channel goes by its number. -/
inductive Place where
  /-- at the start -/
  | Called
  /-- in front of the lock -/
  | Waiting
  /-- in `connect_robust`, with the lock -/
  | Connecting
  /-- in `connection.channel`, with the lock -/
  | Opening
  /-- before `_ensure_queue` -/
  | Holding (channel : Nat)
  /-- in `declare_queue` -/
  | Declaring (channel : Nat)
  /-- in `publish` -/
  | Publishing (channel : Nat)
deriving DecidableEq

structure Caller where
  url : String
  queue_name : String
  place : Place := .Called
deriving DecidableEq

/-- A message that a channel has taken. -/
structure Published where
  channel : Nat
  url : String
  queue_name : String
deriving DecidableEq

/-- The channels, the variables of the module, and what the channels have been asked for:
the queues to declare and the messages. -/
structure Memory where
  channels : List AbstractChannel := []
  channel_cache : String → Option Nat := fun _ => none
  declared_queues : List String := []
  declares : List (Nat × String) := []
  publishes : List Published := []

structure Process extends Memory where
  lock : Option Nat := none
  callers : Nat → Option Caller := fun _ => none

/-- The step of a call to its next await, a call that raises, or what happens to a
channel: a connection that is robust may open it again. -/
inductive Action where
  | Call (i : Nat) (url queue_name : String)
  | Look (i : Nat)
  | Acquire (i : Nat)
  | Connected (i : Nat)
  | Opened (i : Nat) (address : Nat)
  | Ensure (i : Nat)
  | Declared (i : Nat)
  | Published (i : Nat)
  | Fail (i : Nat)
  | Close (channel : Nat)
  | Reopen (channel : Nat)
deriving DecidableEq

/-- The key of `_ensure_queue`. -/
def queue_key (address : Nat) (queue_name : String) : String :=
  toString address ++ ":" ++ queue_name

def Memory.is_open (m : Memory) (k : Nat) : Bool :=
  m.channels[k]?.any (fun channel => !channel.is_closed)

/-- `channel is not None and not channel.is_closed`, of the cached channel. -/
def Memory.open_channel (m : Memory) (url : String) : Option Nat :=
  (m.channel_cache url).filter m.is_open

def AbstractChannel.close (channel : AbstractChannel) : AbstractChannel :=
  { channel with is_closed := true, was_closed := true }

def AbstractChannel.reopen (channel : AbstractChannel) : AbstractChannel :=
  { channel with is_closed := false }

namespace Process

def put (s : Process) (i : Nat) (caller : Option Caller) : Process :=
  { s with callers := fun k => if k = i then caller else s.callers k }

def move (s : Process) (i : Nat) (caller : Caller) (place : Place) : Process :=
  s.put i (some { caller with place })

/-- The first look at the cache. -/
def look (s : Process) (i : Nat) (caller : Caller) : Process :=
  match s.open_channel caller.url with
  | some k => s.move i caller (.Holding k)
  | none => s.move i caller .Waiting

/-- The second look, with the lock. -/
def acquire (s : Process) (i : Nat) (caller : Caller) : Process :=
  match s.open_channel caller.url with
  | some k => s.move i caller (.Holding k)
  | none => { s.move i caller .Connecting with lock := some i }

/-- The new channel goes into the cache, and the lock is given back. -/
def opened (s : Process) (i : Nat) (caller : Caller) (address : Nat) : Process :=
  { s.move i caller (.Holding s.channels.length) with
    channels := s.channels ++ [{ url := caller.url, address }]
    channel_cache := fun url =>
      if url = caller.url then some s.channels.length else s.channel_cache url
    lock := none }

def ensure (s : Process) (i : Nat) (caller : Caller) (k : Nat) (channel : AbstractChannel) :
    Process :=
  if queue_key channel.address caller.queue_name ∈ s.declared_queues then
    s.move i caller (.Publishing k)
  else s.move i caller (.Declaring k)

def declared (s : Process) (i : Nat) (caller : Caller) (k : Nat) (channel : AbstractChannel) :
    Process :=
  { s.move i caller (.Publishing k) with
    declared_queues := queue_key channel.address caller.queue_name :: s.declared_queues
    declares := s.declares ++ [(k, caller.queue_name)] }

def published (s : Process) (i : Nat) (caller : Caller) (k : Nat) : Process :=
  { s.put i none with
    publishes := s.publishes ++
      [{ channel := k, url := caller.url, queue_name := caller.queue_name }] }

/-- `async with _lock` gives the lock back. -/
def failed (s : Process) (i : Nat) : Process :=
  { s.put i none with lock := if s.lock = some i then none else s.lock }

/-- The step of a call that stands at its place. A channel that is closed declares no queue
and takes no message: the call raises, or it waits until the channel is open again. -/
def advance (s : Process) (i : Nat) (caller : Caller) : Action → Place → Option Process
  | .Look _, .Called => some (s.look i caller)
  | .Acquire _, .Waiting => if s.lock.isSome then none else some (s.acquire i caller)
  | .Connected _, .Connecting => some (s.move i caller .Opening)
  | .Opened _ address, .Opening => some (s.opened i caller address)
  | .Ensure _, .Holding k => s.channels[k]?.map (s.ensure i caller k)
  | .Declared _, .Declaring k =>
    if s.is_open k then s.channels[k]?.map (s.declared i caller k) else none
  | .Published _, .Publishing k => if s.is_open k then some (s.published i caller k) else none
  | .Fail _, _ => some (s.failed i)
  | _, _ => none

def step (s : Process) (a : Action) : Option Process :=
  match a with
  | .Call i url queue_name =>
    if (s.callers i).isSome then none else some (s.put i (some { url, queue_name }))
  | .Close k => some { s with channels := s.channels.modify k AbstractChannel.close }
  | .Reopen k => some { s with channels := s.channels.modify k AbstractChannel.reopen }
  | .Look i | .Acquire i | .Connected i | .Opened i _ | .Ensure i | .Declared i | .Published i
  | .Fail i => (s.callers i).bind (fun caller => s.advance i caller a caller.place)

end Process

variable {s t : Process} {i : Nat} {caller : Caller}

/-! ## What a step can do -/

/-- The steps, with what their checks have found. -/
inductive Moved (s : Process) : Action → Process → Prop where
  | called (i : Nat) (url queue_name : String) :
    s.callers i = none → Moved s (.Call i url queue_name) (s.put i (some { url, queue_name }))
  | found (a : Action) (i : Nat) (caller : Caller) (k : Nat) :
    s.callers i = some caller → caller.place = .Called ∨ caller.place = .Waiting →
    s.open_channel caller.url = some k → Moved s a (s.move i caller (.Holding k))
  | waited (i : Nat) (caller : Caller) :
    s.callers i = some caller → caller.place = .Called →
    Moved s (.Look i) (s.move i caller .Waiting)
  | acquired (i : Nat) (caller : Caller) :
    s.callers i = some caller → caller.place = .Waiting → s.lock = none →
    s.open_channel caller.url = none →
    Moved s (.Acquire i) { s.move i caller .Connecting with lock := some i }
  | connected (i : Nat) (caller : Caller) :
    s.callers i = some caller → caller.place = .Connecting →
    Moved s (.Connected i) (s.move i caller .Opening)
  | opened (i : Nat) (caller : Caller) (address : Nat) :
    s.callers i = some caller → caller.place = .Opening →
    Moved s (.Opened i address) (s.opened i caller address)
  | known (i : Nat) (caller : Caller) (k : Nat) (channel : AbstractChannel) :
    s.callers i = some caller → caller.place = .Holding k → s.channels[k]? = some channel →
    queue_key channel.address caller.queue_name ∈ s.declared_queues →
    Moved s (.Ensure i) (s.move i caller (.Publishing k))
  | declaring (i : Nat) (caller : Caller) (k : Nat) :
    s.callers i = some caller → caller.place = .Holding k →
    Moved s (.Ensure i) (s.move i caller (.Declaring k))
  | declared (i : Nat) (caller : Caller) (k : Nat) (channel : AbstractChannel) :
    s.callers i = some caller → caller.place = .Declaring k → s.is_open k = true →
    s.channels[k]? = some channel → Moved s (.Declared i) (s.declared i caller k channel)
  | published (i : Nat) (caller : Caller) (k : Nat) :
    s.callers i = some caller → caller.place = .Publishing k → s.is_open k = true →
    Moved s (.Published i) (s.published i caller k)
  | failed (i : Nat) (caller : Caller) :
    s.callers i = some caller → Moved s (.Fail i) (s.failed i)
  | closed (k : Nat) :
    Moved s (.Close k) { s with channels := s.channels.modify k AbstractChannel.close }
  | reopened (k : Nat) :
    Moved s (.Reopen k) { s with channels := s.channels.modify k AbstractChannel.reopen }

/-- A step is one of the moves. -/
theorem moved_of_step {a : Action} (h : s.step a = some t) : Moved s a t := by
  cases a with
  | Call i url queue_name =>
    simp only [Process.step] at h
    split at h
    · cases h
    · rename_i hi
      cases h
      exact .called i url queue_name (Option.not_isSome_iff_eq_none.mp hi)
  | Look i =>
    obtain ⟨caller, hi, h⟩ := Option.bind_eq_some_iff.mp h
    rcases hplace : caller.place <;> rw [hplace] at h <;> cases h
    unfold Process.look
    split
    · rename_i k hk
      exact .found _ i caller k hi (Or.inl hplace) hk
    · exact .waited i caller hi hplace
  | Acquire i =>
    obtain ⟨caller, hi, h⟩ := Option.bind_eq_some_iff.mp h
    rcases hplace : caller.place <;> rw [hplace] at h <;>
      simp only [Process.advance, reduceCtorEq] at h
    split at h
    · cases h
    · rename_i hlock
      cases h
      unfold Process.acquire
      split
      · rename_i k hk
        exact .found _ i caller k hi (Or.inr hplace) hk
      · rename_i hnone
        exact .acquired i caller hi hplace (Option.not_isSome_iff_eq_none.mp hlock) hnone
  | Connected i =>
    obtain ⟨caller, hi, h⟩ := Option.bind_eq_some_iff.mp h
    rcases hplace : caller.place <;> rw [hplace] at h <;> cases h
    exact .connected i caller hi hplace
  | Opened i address =>
    obtain ⟨caller, hi, h⟩ := Option.bind_eq_some_iff.mp h
    rcases hplace : caller.place <;> rw [hplace] at h <;> cases h
    exact .opened i caller address hi hplace
  | Ensure i =>
    obtain ⟨caller, hi, h⟩ := Option.bind_eq_some_iff.mp h
    rcases hplace : caller.place <;> rw [hplace] at h <;>
      simp only [Process.advance, reduceCtorEq] at h
    rename_i k
    obtain ⟨channel, hchannel, rfl⟩ := Option.map_eq_some_iff.mp h
    unfold Process.ensure
    split
    · rename_i hknown
      exact .known i caller k channel hi hplace hchannel hknown
    · exact .declaring i caller k hi hplace
  | Declared i =>
    obtain ⟨caller, hi, h⟩ := Option.bind_eq_some_iff.mp h
    rcases hplace : caller.place <;> rw [hplace] at h <;>
      simp only [Process.advance, reduceCtorEq] at h
    rename_i k
    split at h
    · rename_i hopen
      obtain ⟨channel, hchannel, rfl⟩ := Option.map_eq_some_iff.mp h
      exact .declared i caller k channel hi hplace hopen hchannel
    · cases h
  | Published i =>
    obtain ⟨caller, hi, h⟩ := Option.bind_eq_some_iff.mp h
    rcases hplace : caller.place <;> rw [hplace] at h <;>
      simp only [Process.advance, reduceCtorEq] at h
    split at h
    · rename_i hopen
      cases h
      exact .published i caller _ hi hplace hopen
    · cases h
  | Fail i =>
    obtain ⟨caller, hi, h⟩ := Option.bind_eq_some_iff.mp h
    rcases hplace : caller.place <;> rw [hplace] at h <;> cases h <;> exact .failed i caller hi
  | Close k =>
    cases h
    exact .closed k
  | Reopen k =>
    cases h
    exact .reopened k

/-! ## The invariant -/

/-- With the lock, on the way to a channel. -/
def Place.connects : Place → Bool
  | .Connecting | .Opening => true
  | _ => false

/-- The channel that a call has been handed. -/
def Place.channel : Place → Option Nat
  | .Holding k | .Declaring k | .Publishing k => some k
  | _ => none

/-- What holds of a call: while it connects, the cached channel of its URL is one that has
been closed; the channel that it has been handed is one of its URL; and its queue is
declared where it publishes. -/
structure CallerSound (m : Memory) (caller : Caller) : Prop where
  losing : caller.place.connects = true → ∀ k, m.channel_cache caller.url = some k →
    ∃ channel, m.channels[k]? = some channel ∧ channel.was_closed = true
  handed : ∀ k, caller.place.channel = some k →
    ∃ channel, m.channels[k]? = some channel ∧ channel.url = caller.url
  ready : ∀ k, caller.place = .Publishing k → ∀ channel : AbstractChannel,
    m.channels[k]? = some channel →
    queue_key channel.address caller.queue_name ∈ m.declared_queues

/-- What holds of the variables. -/
structure MemorySound (m : Memory) : Prop where
  cached : ∀ url k, m.channel_cache url = some k →
    ∃ channel, m.channels[k]? = some channel ∧ channel.url = url
  replaced : ∀ (k : Nat) (channel : AbstractChannel), m.channels[k]? = some channel →
    m.channel_cache channel.url = some k ∨ channel.was_closed = true
  closed : ∀ (k : Nat) (channel : AbstractChannel), m.channels[k]? = some channel →
    channel.is_closed = true → channel.was_closed = true
  declared : ∀ key ∈ m.declared_queues, ∃ k queue_name channel,
    (k, queue_name) ∈ m.declares ∧ m.channels[k]? = some channel ∧
      key = queue_key channel.address queue_name
  sent : ∀ p ∈ m.publishes, ∃ channel, m.channels[p.channel]? = some channel ∧
    channel.url = p.url ∧ queue_key channel.address p.queue_name ∈ m.declared_queues

structure Sound (s : Process) : Prop where
  memory : MemorySound s.toMemory
  lock : ∀ i, s.lock = some i ↔ ∃ caller, s.callers i = some caller ∧ caller.place.connects = true
  callers : ∀ i caller, s.callers i = some caller → CallerSound s.toMemory caller

theorem sound_init : Sound {} where
  memory := {
    cached := fun _ _ h => nomatch h
    replaced := fun _ _ h => nomatch h
    closed := fun _ _ h => nomatch h
    declared := fun _ h => nomatch h
    sent := fun _ h => nomatch h }
  lock := by simp
  callers := fun _ _ h => nomatch h

/-- The channels of `m` are there in `m'`, under the same numbers, and the queues are still
declared. -/
structure Later (m m' : Memory) : Prop where
  channels : ∀ (k : Nat) (channel : AbstractChannel), m.channels[k]? = some channel →
    ∃ channel' : AbstractChannel, m'.channels[k]? = some channel' ∧
      channel'.url = channel.url ∧ channel'.address = channel.address ∧
      (channel.was_closed = true → channel'.was_closed = true)
  declared : m.declared_queues ⊆ m'.declared_queues

theorem later_refl (m : Memory) : Later m m where
  channels := fun _ channel h => ⟨channel, h, rfl, rfl, fun h => h⟩
  declared := fun _ h => h

theorem CallerSound.later {m m' : Memory} (h : CallerSound m caller) (hlater : Later m m')
    (hcache : caller.place.connects = true →
      m'.channel_cache caller.url = m.channel_cache caller.url) : CallerSound m' caller where
  losing := by
    intro hconnects k hk
    rw [hcache hconnects] at hk
    obtain ⟨channel, hchannel, hwas⟩ := h.losing hconnects k hk
    obtain ⟨channel', hchannel', _, _, hkept⟩ := hlater.channels k channel hchannel
    exact ⟨channel', hchannel', hkept hwas⟩
  handed := by
    intro k hk
    obtain ⟨channel, hchannel, hurl⟩ := h.handed k hk
    obtain ⟨channel', hchannel', hurl', _⟩ := hlater.channels k channel hchannel
    exact ⟨channel', hchannel', hurl'.trans hurl⟩
  ready := by
    intro k hk channel' hchannel'
    obtain ⟨channel, hchannel, _⟩ := h.handed k (by rw [hk]; rfl)
    obtain ⟨other, hother, _, haddress, _⟩ := hlater.channels k channel hchannel
    rw [hother] at hchannel'
    cases hchannel'
    rw [haddress]
    exact hlater.declared (h.ready k hk channel hchannel)

theorem sound_unhanded {m : Memory} (hconnects : caller.place.connects = false)
    (hchannel : caller.place.channel = none) : CallerSound m caller where
  losing := by
    intro h
    rw [hconnects] at h
    cases h
  handed := by
    intro k h
    rw [hchannel] at h
    cases h
  ready := by
    intro k h
    rw [h] at hchannel
    cases hchannel

theorem sound_handed {m : Memory} {k : Nat} {place : Place}
    (hplace : place = .Holding k ∨ place = .Declaring k)
    (hk : ∃ channel, m.channels[k]? = some channel ∧ channel.url = caller.url) :
    CallerSound m { caller with place } := by
  have hchannel : ∀ j, place.channel = some j → k = j := by
    rcases hplace with rfl | rfl <;> exact fun _ h => Option.some_inj.mp h
  refine ⟨?_, fun j hj => hchannel j hj ▸ hk, ?_⟩
  · rcases hplace with rfl | rfl <;> rintro ⟨⟩
  · rcases hplace with rfl | rfl <;> rintro _ ⟨⟩

theorem sound_publishing {m : Memory} {k : Nat} {channel : AbstractChannel}
    (hk : m.channels[k]? = some channel) (hurl : channel.url = caller.url)
    (hkey : queue_key channel.address caller.queue_name ∈ m.declared_queues) :
    CallerSound m { caller with place := .Publishing k } := by
  constructor
  · rintro ⟨⟩
  · rintro _ ⟨⟩
    exact ⟨channel, hk, hurl⟩
  · rintro _ ⟨⟩ other hother
    rw [hk] at hother
    cases hother
    exact hkey

/-- A step of the call `i` keeps what holds, if it keeps it of that call and of the
variables. -/
theorem sound_of_move (h : Sound s) (i : Nat) (hmemory : MemorySound t.toMemory)
    (hlater : Later s.toMemory t.toMemory)
    (hothers : ∀ k, k ≠ i → t.callers k = s.callers k ∧ (t.lock = some k ↔ s.lock = some k))
    (hcache : ∀ k caller, k ≠ i → s.callers k = some caller → caller.place.connects = true →
      t.channel_cache caller.url = s.channel_cache caller.url)
    (hlock : t.lock = some i ↔ ∃ caller, t.callers i = some caller ∧
      caller.place.connects = true)
    (hcaller : ∀ caller, t.callers i = some caller → CallerSound t.toMemory caller) : Sound t where
  memory := hmemory
  lock := by
    intro k
    by_cases hk : k = i
    · rw [hk]
      exact hlock
    · rw [(hothers k hk).1, (hothers k hk).2]
      exact h.lock k
  callers := by
    intro k caller hcall
    by_cases hk : k = i
    · exact hcaller caller (hk ▸ hcall)
    · rw [(hothers k hk).1] at hcall
      exact (h.callers k caller hcall).later hlater (hcache k caller hk hcall)

theorem put_callers (s : Process) (i k : Nat) (new : Option Caller) :
    (s.put i new).callers k = if k = i then new else s.callers k := rfl

theorem moved_self {place : Place} {x : Caller}
    (h : (s.move i caller place).callers i = some x) : x = { caller with place } := by
  rw [Process.move, put_callers, if_pos rfl] at h
  exact (Option.some_inj.mp h).symm

theorem put_self (s : Process) (i : Nat) : (s.put i none).callers i = none := if_pos rfl

theorem lock_of_caller (h : Sound s) (hi : s.callers i = some caller) :
    s.lock = some i ↔ caller.place.connects = true := by
  rw [h.lock i, hi]
  simp

/-- A call that moves on without a change of the variables. -/
theorem sound_put (h : Sound s) (i : Nat) {new : Option Caller}
    (hlock : s.lock = some i ↔ ∃ caller, new = some caller ∧ caller.place.connects = true)
    (hcaller : ∀ caller, new = some caller → CallerSound s.toMemory caller) :
    Sound (s.put i new) := by
  refine sound_of_move h i h.memory (later_refl _) ?_ (fun _ _ _ _ _ => rfl) ?_ ?_
  · intro k hk
    rw [put_callers, if_neg hk]
    exact ⟨rfl, Iff.rfl⟩
  · rw [put_callers, if_pos rfl]
    exact hlock
  · intro caller hcall
    rw [put_callers, if_pos rfl] at hcall
    exact hcaller caller hcall

theorem sound_place (h : Sound s) (hi : s.callers i = some caller) {place : Place}
    (hplace : place.connects = caller.place.connects)
    (hcaller : CallerSound s.toMemory { caller with place }) : Sound (s.move i caller place) := by
  refine sound_put h i ?_ ?_
  · rw [lock_of_caller h hi, ← hplace]
    simp
  · rintro _ ⟨⟩
    exact hcaller

theorem open_channel_some {m : Memory} {url : String} {k : Nat} (h : m.open_channel url = some k) :
    m.channel_cache url = some k ∧ m.is_open k = true := Option.filter_eq_some_iff.mp h

/-- A cached channel that is not handed out has been closed. -/
theorem open_channel_none {m : Memory} (hm : MemorySound m) {url : String}
    (h : m.open_channel url = none) {k : Nat} (hk : m.channel_cache url = some k) :
    ∃ channel, m.channels[k]? = some channel ∧ channel.was_closed = true := by
  obtain ⟨channel, hchannel, _⟩ := hm.cached url k hk
  refine ⟨channel, hchannel, hm.closed k channel hchannel ?_⟩
  unfold Memory.open_channel Memory.is_open at h
  rw [hk, Option.filter_some, hchannel] at h
  simpa using h

/-! ## The steps -/

/-- The new channel stands behind the others. -/
theorem channels_append {channels : List AbstractChannel} {k : Nat}
    {channel new : AbstractChannel} (h : (channels ++ [new])[k]? = some channel) :
    channels[k]? = some channel ∨ k = channels.length ∧ channel = new := by
  rcases Nat.lt_trichotomy k channels.length with hk | hk | hk
  · rw [List.getElem?_append_left hk] at h
    exact Or.inl h
  · subst hk
    rw [List.getElem?_concat_length] at h
    exact Or.inr ⟨rfl, (Option.some_inj.mp h).symm⟩
  · rw [List.getElem?_eq_none (by simp; omega)] at h
    cases h

theorem channels_kept {channels : List AbstractChannel} {k : Nat} {channel : AbstractChannel}
    (h : channels[k]? = some channel) (new : AbstractChannel) :
    (channels ++ [new])[k]? = some channel := by
  obtain ⟨hk, _⟩ := List.getElem?_eq_some_iff.mp h
  rw [List.getElem?_append_left hk]
  exact h

theorem sound_opened (h : Sound s) (hi : s.callers i = some caller)
    (hplace : caller.place = .Opening) (address : Nat) : Sound (s.opened i caller address) := by
  have hlock : s.lock = some i := (lock_of_caller h hi).mpr (by rw [hplace]; rfl)
  have hcaller := h.callers i caller hi
  generalize hnew : ({ url := caller.url, address } : AbstractChannel) = new
  have hlater : Later s.toMemory (s.opened i caller address).toMemory := by
    refine ⟨fun k channel hk => ⟨channel, ?_, rfl, rfl, id⟩, fun _ hkey => hkey⟩
    exact channels_kept hk _
  have hlength : (s.channels ++ [new])[s.channels.length]? = some new :=
    List.getElem?_concat_length
  refine sound_of_move h i ?_ hlater ?_ ?_ ?_ ?_
  · constructor
    · intro url k hk
      change (if url = caller.url then some s.channels.length else s.channel_cache url) =
        some k at hk
      split at hk
      · rename_i hurl
        cases hk
        exact ⟨_, List.getElem?_concat_length, hurl.symm⟩
      · obtain ⟨channel, hchannel, hurl⟩ := h.memory.cached url k hk
        exact ⟨channel, channels_kept hchannel _, hurl⟩
    · intro k channel hk
      change (if channel.url = caller.url then some s.channels.length
        else s.channel_cache channel.url) = some k ∨ _
      rcases channels_append hk with hk | ⟨rfl, rfl⟩
      · rcases h.memory.replaced k channel hk with hcached | hwas
        · by_cases hurl : channel.url = caller.url
          · obtain ⟨other, hother, hwas⟩ := hcaller.losing (by rw [hplace]; rfl) k
              (hurl ▸ hcached)
            rw [hk] at hother
            cases hother
            exact Or.inr hwas
          · rw [if_neg hurl]
            exact Or.inl hcached
        · exact Or.inr hwas
      · exact Or.inl (if_pos rfl)
    · intro k channel hk hclosed
      rcases channels_append hk with hk | ⟨rfl, rfl⟩
      · exact h.memory.closed k channel hk hclosed
      · cases hclosed
    · intro key hkey
      obtain ⟨k, queue_name, channel, hdeclared, hchannel, rfl⟩ := h.memory.declared key hkey
      exact ⟨k, queue_name, channel, hdeclared, channels_kept hchannel _, rfl⟩
    · intro p hp
      obtain ⟨channel, hchannel, hrest⟩ := h.memory.sent p hp
      exact ⟨channel, channels_kept hchannel _, hrest⟩
  · intro k hk
    refine ⟨if_neg hk, ?_⟩
    change none = some k ↔ s.lock = some k
    rw [hlock]
    simp [Ne.symm hk]
  · intro k other hk hother hconnects
    have hlock' : s.lock = some k := (h.lock k).mpr ⟨other, hother, hconnects⟩
    rw [hlock] at hlock'
    cases hlock'
    exact absurd rfl hk
  · change none = some i ↔ ∃ x, (if i = i then some _ else s.callers i) = some x ∧ _
    rw [if_pos rfl]
    simp [Place.connects]
  · intro x hx
    have hx : (s.move i caller (.Holding s.channels.length)).callers i = some x := hx
    obtain rfl := moved_self hx
    exact sound_handed (Or.inl rfl) ⟨_, List.getElem?_concat_length, rfl⟩

/-- A channel before and after a change of one channel. -/
theorem flagged {channels : List AbstractChannel} {k : Nat}
    {f : AbstractChannel → AbstractChannel} (j : Nat) :
    (channels.modify k f)[j]? = channels[j]?.map (fun channel => if k = j then f channel
      else channel) := List.getElem?_modify ..

/-- A change of the flags of a channel. -/
theorem sound_flagged (h : Sound s) (k : Nat) {f : AbstractChannel → AbstractChannel}
    (hsame : ∀ channel, (f channel).url = channel.url ∧ (f channel).address = channel.address)
    (hwas : ∀ channel, channel.was_closed = true → (f channel).was_closed = true)
    (hclosed : ∀ channel, (f channel).is_closed = true → (f channel).was_closed = true) :
    Sound { s with channels := s.channels.modify k f } := by
  have hlater : Later s.toMemory { s.toMemory with channels := s.channels.modify k f } := by
    refine ⟨?_, fun _ hkey => hkey⟩
    intro j channel hj
    refine ⟨_, (flagged j).trans (by rw [hj]; rfl), ?_⟩
    dsimp only
    by_cases hk : k = j
    · rw [if_pos hk]
      exact ⟨(hsame channel).1, (hsame channel).2, hwas channel⟩
    · rw [if_neg hk]
      exact ⟨rfl, rfl, id⟩
  refine ⟨?_, h.lock, fun i caller hi => (h.callers i caller hi).later hlater (fun _ => rfl)⟩
  constructor
  · intro url j hj
    obtain ⟨channel, hchannel, hurl⟩ := h.memory.cached url j hj
    obtain ⟨channel', hchannel', hurl', _⟩ := hlater.channels j channel hchannel
    exact ⟨channel', hchannel', hurl'.trans hurl⟩
  · intro j channel' hj
    obtain ⟨channel, hchannel, rfl⟩ := Option.map_eq_some_iff.mp ((flagged j).symm.trans hj)
    have hbefore := h.memory.replaced j channel hchannel
    by_cases hk : k = j
    · rw [if_pos hk, (hsame channel).1]
      exact hbefore.imp_right (hwas channel)
    · rw [if_neg hk]
      exact hbefore
  · intro j channel' hj
    obtain ⟨channel, hchannel, rfl⟩ := Option.map_eq_some_iff.mp ((flagged j).symm.trans hj)
    by_cases hk : k = j
    · rw [if_pos hk]
      exact hclosed channel
    · rw [if_neg hk]
      exact h.memory.closed j channel hchannel
  · intro key hkey
    obtain ⟨j, queue_name, channel, hdeclared, hchannel, rfl⟩ := h.memory.declared key hkey
    obtain ⟨channel', hchannel', _, haddress, _⟩ := hlater.channels j channel hchannel
    exact ⟨j, queue_name, channel', hdeclared, hchannel', by rw [haddress]⟩
  · intro p hp
    obtain ⟨channel, hchannel, hurl, hkey⟩ := h.memory.sent p hp
    obtain ⟨channel', hchannel', hurl', haddress, _⟩ := hlater.channels _ channel hchannel
    exact ⟨channel', hchannel', hurl'.trans hurl, by rw [haddress]; exact hkey⟩

theorem sound_declared (h : Sound s) (hi : s.callers i = some caller) {k : Nat}
    {channel : AbstractChannel} (hplace : caller.place = .Declaring k)
    (hchannel : s.channels[k]? = some channel) : Sound (s.declared i caller k channel) := by
  have hcaller := h.callers i caller hi
  have hlater : Later s.toMemory (s.declared i caller k channel).toMemory :=
    ⟨fun _ channel hj => ⟨channel, hj, rfl, rfl, id⟩, List.subset_cons_self _ _⟩
  have hstays : s.lock ≠ some i := by
    rw [ne_eq, lock_of_caller h hi, hplace]
    exact Bool.false_ne_true
  refine sound_of_move h i ⟨h.memory.cached, h.memory.replaced, h.memory.closed, ?_, ?_⟩ hlater
    (fun j hj => ⟨if_neg hj, Iff.rfl⟩) (fun _ _ _ _ _ => rfl) ?_ ?_
  · intro key hkey
    rcases List.mem_cons.mp hkey with rfl | hkey
    · exact ⟨k, caller.queue_name, channel,
        List.mem_append_right _ (List.mem_singleton_self _), hchannel, rfl⟩
    · obtain ⟨j, queue_name, other, hdeclared, hother, rfl⟩ := h.memory.declared key hkey
      exact ⟨j, queue_name, other, List.mem_append_left _ hdeclared, hother, rfl⟩
  · intro p hp
    obtain ⟨other, hother, hurl, hkey⟩ := h.memory.sent p hp
    exact ⟨other, hother, hurl, List.mem_cons_of_mem _ hkey⟩
  · refine ⟨fun hlock => absurd hlock hstays, ?_⟩
    rintro ⟨x, hx, hconnects⟩
    have hx : (s.move i caller (.Publishing k)).callers i = some x := hx
    obtain rfl := moved_self hx
    cases hconnects
  · intro x hx
    have hx : (s.move i caller (.Publishing k)).callers i = some x := hx
    obtain rfl := moved_self hx
    obtain ⟨other, hother, hurl⟩ := hcaller.handed k (by rw [hplace]; rfl)
    rw [hchannel] at hother
    cases hother
    exact sound_publishing hchannel hurl List.mem_cons_self

theorem sound_published (h : Sound s) (hi : s.callers i = some caller) {k : Nat}
    (hplace : caller.place = .Publishing k) : Sound (s.published i caller k) := by
  have hcaller := h.callers i caller hi
  obtain ⟨channel, hchannel, hurl⟩ := hcaller.handed k (by rw [hplace]; rfl)
  have hstays : s.lock ≠ some i := by
    rw [ne_eq, lock_of_caller h hi, hplace]
    exact Bool.false_ne_true
  refine sound_of_move h i
    ⟨h.memory.cached, h.memory.replaced, h.memory.closed, h.memory.declared, ?_⟩
    ⟨fun _ channel hj => ⟨channel, hj, rfl, rfl, id⟩, fun _ hkey => hkey⟩
    (fun j hj => ⟨if_neg hj, Iff.rfl⟩) (fun _ _ _ _ _ => rfl) ?_ ?_
  · intro p hp
    rcases List.mem_append.mp hp with hp | hp
    · exact h.memory.sent p hp
    · rw [List.mem_singleton.mp hp]
      exact ⟨channel, hchannel, hurl, hcaller.ready k hplace channel hchannel⟩
  · refine ⟨fun hlock => absurd hlock hstays, ?_⟩
    rintro ⟨x, hx, _⟩
    exact nomatch (put_self s i).symm.trans hx
  · intro x hx
    exact nomatch (put_self s i).symm.trans hx

theorem sound_failed (h : Sound s) (i : Nat) : Sound (s.failed i) := by
  refine sound_of_move h i h.memory (later_refl _) ?_ (fun _ _ _ _ _ => rfl) ?_ ?_
  · intro k hk
    refine ⟨if_neg hk, ?_⟩
    change (if s.lock = some i then none else s.lock) = some k ↔ s.lock = some k
    split
    · rename_i hlock
      rw [hlock]
      simp [Ne.symm hk]
    · exact Iff.rfl
  · change (if s.lock = some i then none else s.lock) = some i ↔
      ∃ x, (if i = i then none else s.callers i) = some x ∧ _
    rw [if_pos rfl]
    split
    · simp
    · rename_i hlock
      simp [hlock]
  · intro x hx
    exact nomatch (put_self s i).symm.trans hx

theorem sound_step {a : Action} (h : Sound s) (hstep : s.step a = some t) : Sound t := by
  cases moved_of_step hstep with
  | called i url queue_name hi =>
    refine sound_put h i ?_ ?_
    · rw [h.lock i, hi]
      simp [Place.connects]
    · rintro _ ⟨⟩
      exact sound_unhanded rfl rfl
  | found _ i caller k hi hplace hk =>
    refine sound_place h hi (by rcases hplace with hplace | hplace <;> rw [hplace] <;> rfl) ?_
    exact sound_handed (Or.inl rfl) (h.memory.cached caller.url k (open_channel_some hk).1)
  | waited i caller hi hplace =>
    exact sound_place h hi (by rw [hplace]; rfl) (sound_unhanded rfl rfl)
  | acquired i caller hi hplace hlock hnone =>
    refine sound_of_move h i h.memory (later_refl _) ?_ (fun _ _ _ _ _ => rfl) ?_ ?_
    · intro k hk
      refine ⟨if_neg hk, ?_⟩
      rw [hlock]
      simp [Ne.symm hk]
    · refine ⟨fun _ => ⟨_, if_pos rfl, rfl⟩, fun _ => rfl⟩
    · intro x hx
      have hx : (s.move i caller .Connecting).callers i = some x := hx
      obtain rfl := moved_self hx
      constructor
      · exact fun _ k hk => open_channel_none h.memory hnone hk
      · rintro _ ⟨⟩
      · rintro _ ⟨⟩
  | connected i caller hi hplace =>
    refine sound_place h hi (by rw [hplace]; rfl) ?_
    constructor
    · exact fun _ => (h.callers i caller hi).losing (by rw [hplace]; rfl)
    · rintro _ ⟨⟩
    · rintro _ ⟨⟩
  | opened i caller address hi hplace => exact sound_opened h hi hplace address
  | known i caller k channel hi hplace hchannel hkey =>
    refine sound_place h hi (by rw [hplace]; rfl) ?_
    obtain ⟨other, hother, hurl⟩ := (h.callers i caller hi).handed k (by rw [hplace]; rfl)
    rw [hchannel] at hother
    cases hother
    exact sound_publishing hchannel hurl hkey
  | declaring i caller k hi hplace =>
    refine sound_place h hi (by rw [hplace]; rfl) ?_
    exact sound_handed (Or.inr rfl) ((h.callers i caller hi).handed k (by rw [hplace]; rfl))
  | declared i caller k channel hi hplace _ hchannel => exact sound_declared h hi hplace hchannel
  | published i caller k hi hplace _ => exact sound_published h hi hplace
  | failed i caller hi => exact sound_failed h i
  | closed k =>
    exact sound_flagged h k (fun _ => ⟨rfl, rfl⟩) (fun _ _ => rfl) (fun _ _ => rfl)
  | reopened k =>
    exact sound_flagged h k (fun _ => ⟨rfl, rfl⟩) (fun _ h => h) (fun _ h => nomatch h)

theorem sound_of_reachable (h : Reachable Process.step {} s) : Sound s :=
  reachable_invariant sound_init (fun _ _ _ hs hstep => sound_step hs hstep) h

/-! ## One channel for all -/

theorem key_parts (address : Nat) (queue_name : String) :
    (queue_key address queue_name).toList.takeWhile (fun c => c ≠ ':') = Nat.toDigits 10 address ∧
      (queue_key address queue_name).toList.dropWhile (fun c => c ≠ ':') =
        ':' :: queue_name.toList := by
  have hchars : (queue_key address queue_name).toList =
      Nat.toDigits 10 address ++ ':' :: queue_name.toList := by
    simp [queue_key, toString]
  have hdigits : ∀ c ∈ Nat.toDigits 10 address, decide (c ≠ ':') = true := by
    intro c hc
    have hdigit := Nat.isDigit_of_mem_toDigits (by decide) (by decide) hc
    refine decide_eq_true (fun hcolon => ?_)
    rw [hcolon] at hdigit
    cases hdigit
  rw [hchars]
  refine ⟨?_, ?_⟩
  · rw [List.takeWhile_append_of_pos hdigits, List.takeWhile_cons_of_neg (by simp),
      List.append_nil]
  · rw [List.dropWhile_append_of_pos hdigits, List.dropWhile_cons_of_neg (by simp)]

/-- The key of `_ensure_queue` tells the address and the queue apart. -/
theorem queue_key_inj {a b : Nat} {q r : String} (h : queue_key a q = queue_key b r) :
    a = b ∧ q = r := by
  obtain ⟨ha, hq⟩ := key_parts a q
  obtain ⟨hb, hr⟩ := key_parts b r
  rw [h] at ha hq
  constructor
  · rw [← @Nat.ofDigitChars_ten_toDigits a, ← ha, hb, Nat.ofDigitChars_ten_toDigits]
  · exact String.toList_inj.mp (List.cons.inj (hq.symm.trans hr)).2

/-- At most one entry of the list is of the kind, if no two places are. -/
theorem length_filter_of_unique {α : Type} {p : α → Bool} {l : List α}
    (h : ∀ (i j : Nat) (a b : α), l[i]? = some a → l[j]? = some b → p a = true → p b = true →
      i = j) :
    (l.filter p).length ≤ 1 := by
  induction l with
  | nil => exact Nat.zero_le _
  | cons x l ih =>
    by_cases hx : p x = true
    · have hrest : l.filter p = [] := by
        rw [List.filter_eq_nil_iff]
        intro y hy hpy
        obtain ⟨j, hj⟩ := List.mem_iff_getElem?.mp hy
        have := h 0 (j + 1) x y rfl (by rw [List.getElem?_cons_succ]; exact hj) hx hpy
        omega
      rw [List.filter_cons_of_pos hx, hrest]
      exact Nat.le_refl 1
    · rw [List.filter_cons_of_neg hx]
      refine ih (fun i j a b hi hj ha hb => ?_)
      have := h (i + 1) (j + 1) a b (by rw [List.getElem?_cons_succ]; exact hi)
        (by rw [List.getElem?_cons_succ]; exact hj) ha hb
      omega

/-- The channels of a URL. -/
def Memory.channels_of (m : Memory) (url : String) : List AbstractChannel :=
  m.channels.filter (fun channel => channel.url = url)

/-- What the calls share: one of them connects at a time; a URL has had one channel more
than have been closed, at most; and a message goes out on a channel of its URL, with its
queue declared before on a channel of the same address. -/
structure Shared (s : Process) : Prop where
  one_connects : ∀ i j a b, s.callers i = some a → s.callers j = some b →
    a.place.connects = true → b.place.connects = true → i = j
  opened : ∀ url, (s.channels_of url).length ≤
    ((s.channels_of url).filter (fun channel => channel.was_closed)).length + 1
  declared : ∀ p ∈ s.publishes, ∃ channel k other, s.channels[p.channel]? = some channel ∧
    channel.url = p.url ∧ (k, p.queue_name) ∈ s.declares ∧ s.channels[k]? = some other ∧
    other.address = channel.address

theorem the_channel_is_shared (h : Reachable Process.step {} s) : Shared s := by
  have hs := sound_of_reachable h
  constructor
  · intro i j a b hi hj ha hb
    have hlock := (hs.lock i).mpr ⟨a, hi, ha⟩
    rw [(hs.lock j).mpr ⟨b, hj, hb⟩] at hlock
    exact (Option.some_inj.mp hlock).symm
  · intro url
    have hsplit := List.length_eq_length_filter_add (l := s.channels_of url)
      (fun channel => channel.was_closed)
    have hone : ((s.channels_of url).filter (fun channel => !channel.was_closed)).length ≤ 1 := by
      unfold Memory.channels_of
      rw [List.filter_filter]
      refine length_filter_of_unique ?_
      intro i j a b hi hj ha hb
      simp only [Bool.and_eq_true, Bool.not_eq_true', decide_eq_true_eq] at ha hb
      have hcached : ∀ k channel, s.channels[k]? = some channel → channel.was_closed = false →
          s.channel_cache channel.url = some k := by
        intro k channel hk hopen
        rcases hs.memory.replaced k channel hk with hcached | hwas
        · exact hcached
        · rw [hwas] at hopen
          cases hopen
      have hone := hcached i a hi ha.1
      rw [ha.2, ← hb.2, hcached j b hj hb.1] at hone
      exact (Option.some_inj.mp hone).symm
    omega
  · intro p hp
    obtain ⟨channel, hchannel, hurl, hkey⟩ := hs.memory.sent p hp
    obtain ⟨k, queue_name, other, hdeclared, hother, hsame⟩ := hs.memory.declared _ hkey
    obtain ⟨haddress, hqueue⟩ := queue_key_inj hsame
    exact ⟨channel, k, other, hchannel, hurl, hqueue ▸ hdeclared, hother, haddress.symm⟩

/-- Three calls: the second waits while the first connects, and the third comes when the
channel has been closed. -/
def three_calls : List Action :=
  [.Call 0 "amqp" "jobs", .Call 1 "amqp" "jobs", .Look 0, .Look 1, .Acquire 0, .Connected 0,
    .Opened 0 7, .Acquire 1, .Ensure 0, .Declared 0, .Published 0, .Ensure 1, .Published 1,
    .Close 0, .Call 2 "amqp" "jobs", .Look 2, .Acquire 2]

theorem three_calls_share_a_channel :
    ∃ s, run Process.step {} three_calls = some s ∧ s.channels.length = 1 ∧
      s.publishes.length = 2 ∧ Shared s := by
  have hrun : (run Process.step {} three_calls).map (fun s =>
      decide (s.channels.length = 1 ∧ s.publishes.length = 2)) = some true := by
    decide +kernel
  obtain ⟨s, hs, hfacts⟩ := Option.map_eq_some_iff.mp hrun
  obtain ⟨hchannels, hpublishes⟩ := of_decide_eq_true hfacts
  exact ⟨s, hs, hchannels, hpublishes, the_channel_is_shared ⟨_, hs⟩⟩

/-! ## Calls that can deliver -/

end cortex_rag.amqp
