-- The laws of the conversation log. Each turn loads what is committed, asks the
-- LLM, and appends a question and an answer; a turn that another one has
-- overtaken collides with it on the unique index and leaves nothing behind.
import CortexRag.Runs
import CortexRag.Chat

open keyed_rows labelled_runs

namespace cortex_rag.conversation_log

/-! ## The turns -/

/-- The rows that a turn has written and not committed yet. -/
structure Rows where
  conversations : List ConversationModel := []
  messages : List ConversationMessageModel := []

/-- A turn with its answer: the ids of the question and of the answer, and
their texts. -/
structure Exchange where
  conversation_id : UUID
  question_id : UUID
  question : String
  answer_id : UUID
  answer : String
deriving DecidableEq

/-- How far a turn has come. -/
inductive Turn where
  | Asked (data : AnswerQuestionInput)
  | Loaded (data : AnswerQuestionInput) (conversation : Conversation)
  | Answered (data : AnswerQuestionInput) (exchange : Exchange) (conversation : Conversation)
  | Written (exchange : Exchange) (rows : Rows)

/-- The committed tables, the open turns, the committed turns in order, and the
ids that `uuid4` has given out. -/
structure Chats where
  db : Database := {}
  turns : Nat → Option Turn := fun _ => none
  log : List Exchange := []
  issued : List UUID := []

/-- A step of one turn. `Fail` is an error of the embedding, the search or the
LLM, or a crash. -/
inductive Action where
  | Ask (turn : Nat) (data : AnswerQuestionInput)
  | Load (turn : Nat) (conversation_id : UUID)
  | Answer (turn : Nat) (answer : String) (now : DateTime) (question_id answer_id : UUID)
  | Write (turn : Nat) (db_now : DateTime)
  | Commit (turn : Nat)
  | Fail (turn : Nat)

/-- The rows that `stored` writes, with the ids that are stored at this time. -/
def written (db : Database) (db_now : DateTime) (data : AnswerQuestionInput)
    (conversation : Conversation) : Rows :=
  match data.conversation_id with
  | some _ =>
    match find ConversationModel.id conversation.id db.conversations with
    | none => {}
    | some _ => { messages := SqlAlchemyConversationRepository.new_rows db db_now conversation }
  | none =>
    { conversations := [⟨conversation.id, conversation.tenant_id, db_now, db_now⟩]
      messages := conversation.messages.zipIdx.map
        (fun m => message_to_model db_now m.1 conversation.id m.2) }

/-- The commit of written rows: the unique index decides. -/
def committed (db : Database) (rows : Rows) : Except PyException Database := do
  let messages ← SqlAlchemyConversationRepository.insert_messages db.messages rows.messages
  return { db with messages, conversations := db.conversations ++ rows.conversations }

/-- Write and commit with nothing between them are the call of the repository. -/
theorem committed_written (db : Database) (db_now : DateTime) (data : AnswerQuestionInput)
    (conversation : Conversation) :
    committed db (written db db_now data conversation) =
      AnswerQuestionUseCase.stored db db_now data conversation := by
  unfold AnswerQuestionUseCase.stored written
  rcases data.conversation_id with _ | id
  · rfl
  · simp only [SqlAlchemyConversationRepository.update]
    rcases find ConversationModel.id conversation.id db.conversations with _ | row
    · simp [committed, SqlAlchemyConversationRepository.insert_messages, bind, Except.bind, pure,
        Except.pure]
    · simp [committed]

namespace Chats

def set (s : Chats) (i : Nat) (turn : Option Turn) : Chats :=
  { s with turns := fun k => if k = i then turn else s.turns k }

/-- The read of the committed conversation, or a new one under a new id. -/
def load (s : Chats) (i : Nat) (conversation_id : UUID) : Turn → Option Chats
  | .Asked data =>
    if conversation_id ∈ s.issued then none
    else
      match AnswerQuestionUseCase.load_or_create_conversation s.db conversation_id data with
      | .error _ => some (s.set i none)
      | .ok conversation =>
        some { s.set i (some (.Loaded data conversation)) with
          issued := conversation_id :: s.issued }
  | _ => none

/-- The answer of the LLM, and the two messages that the turn appends. -/
def answer (s : Chats) (i : Nat) (answer : String) (now : DateTime) (question_id answer_id : UUID) :
    Turn → Option Chats
  | .Loaded data conversation =>
    if question_id ∈ s.issued ∨ answer_id ∈ s.issued ∨ question_id = answer_id then none
    else
      some { s.set i (some (.Answered data
          ⟨conversation.id, question_id, data.question, answer_id, answer⟩
          (AnswerQuestionUseCase.appended conversation
            (AnswerQuestionUseCase.question_message data now question_id)
            (AnswerQuestionUseCase.answer_message answer now answer_id)))) with
        issued := question_id :: answer_id :: s.issued }
  | _ => none

def write (s : Chats) (i : Nat) (db_now : DateTime) : Turn → Option Chats
  | .Answered data exchange conversation =>
    some (s.set i (some (.Written exchange (written s.db db_now data conversation))))
  | _ => none

/-- The commit. Rows that the unique index refuses end the turn with nothing
written. -/
def commit (s : Chats) (i : Nat) : Turn → Option Chats
  | .Written exchange rows =>
    match committed s.db rows with
    | .error _ => some (s.set i none)
    | .ok db => some { s.set i none with db, log := s.log ++ [exchange] }
  | _ => none

def step (s : Chats) : Action → Option Chats
  | .Ask i data =>
    match s.turns i with
    | some _ => none
    | none => some (s.set i (some (.Asked data)))
  | .Load i conversation_id => (s.turns i).bind (s.load i conversation_id)
  | .Answer i answer now question_id answer_id =>
    (s.turns i).bind (s.answer i answer now question_id answer_id)
  | .Write i db_now => (s.turns i).bind (s.write i db_now)
  | .Commit i => (s.turns i).bind (s.commit i)
  | .Fail i => (s.turns i).map (fun _ => s.set i none)

end Chats

/-! ## What a step can do -/

/-- The steps, with what their checks have found. -/
inductive Moved (s : Chats) : Action → Chats → Prop where
  | asked (i : Nat) (data : AnswerQuestionInput) :
    s.turns i = none → Moved s (.Ask i data) (s.set i (some (.Asked data)))
  | loaded (i : Nat) (conversation_id : UUID) (data : AnswerQuestionInput)
      (conversation : Conversation) :
    s.turns i = some (.Asked data) →
    AnswerQuestionUseCase.load_or_create_conversation s.db conversation_id data =
      .ok conversation →
    Moved s (.Load i conversation_id)
      { s.set i (some (.Loaded data conversation)) with issued := conversation_id :: s.issued }
  | answered (i : Nat) (answer : String) (now : DateTime) (question_id answer_id : UUID)
      (data : AnswerQuestionInput) (conversation : Conversation) :
    s.turns i = some (.Loaded data conversation) → question_id ∉ s.issued →
    answer_id ∉ s.issued → question_id ≠ answer_id →
    Moved s (.Answer i answer now question_id answer_id)
      { s.set i (some (.Answered data
          ⟨conversation.id, question_id, data.question, answer_id, answer⟩
          (AnswerQuestionUseCase.appended conversation
            (AnswerQuestionUseCase.question_message data now question_id)
            (AnswerQuestionUseCase.answer_message answer now answer_id)))) with
        issued := question_id :: answer_id :: s.issued }
  | written (i : Nat) (db_now : DateTime) (data : AnswerQuestionInput) (exchange : Exchange)
      (conversation : Conversation) :
    s.turns i = some (.Answered data exchange conversation) →
    Moved s (.Write i db_now)
      (s.set i (some (.Written exchange (written s.db db_now data conversation))))
  | committed (i : Nat) (exchange : Exchange) (rows : Rows) (db : Database) :
    s.turns i = some (.Written exchange rows) → committed s.db rows = .ok db →
    Moved s (.Commit i) { s.set i none with db, log := s.log ++ [exchange] }
  | ended (a : Action) (i : Nat) (turn : Turn) :
    s.turns i = some turn → Moved s a (s.set i none)

theorem load_some {s t : Chats} {i : Nat} {conversation_id : UUID} {turn : Turn}
    (hi : s.turns i = some turn) (h : s.load i conversation_id turn = some t) :
    Moved s (.Load i conversation_id) t := by
  cases turn with
  | Asked data =>
    simp only [Chats.load] at h
    split at h
    · cases h
    · split at h
      · cases h
        exact .ended _ i _ hi
      · rename_i conversation hload
        cases h
        exact .loaded i conversation_id data conversation hi hload
  | _ => cases h

theorem answer_some {s t : Chats} {i : Nat} {answer : String} {now : DateTime}
    {question_id answer_id : UUID} {turn : Turn} (hi : s.turns i = some turn)
    (h : s.answer i answer now question_id answer_id turn = some t) :
    Moved s (.Answer i answer now question_id answer_id) t := by
  cases turn with
  | Loaded data conversation =>
    simp only [Chats.answer] at h
    split at h
    · cases h
    · rename_i hfresh
      simp only [not_or] at hfresh
      cases h
      exact .answered i answer now question_id answer_id data conversation hi hfresh.1
        hfresh.2.1 hfresh.2.2
  | _ => cases h

theorem write_some {s t : Chats} {i : Nat} {db_now : DateTime} {turn : Turn}
    (hi : s.turns i = some turn) (h : s.write i db_now turn = some t) :
    Moved s (.Write i db_now) t := by
  cases turn with
  | Answered data exchange conversation =>
    cases h
    exact .written i db_now data exchange conversation hi
  | _ => cases h

theorem commit_some {s t : Chats} {i : Nat} {turn : Turn} (hi : s.turns i = some turn)
    (h : s.commit i turn = some t) : Moved s (.Commit i) t := by
  cases turn with
  | Written exchange rows =>
    simp only [Chats.commit] at h
    split at h
    · cases h
      exact .ended _ i _ hi
    · rename_i db hdb
      cases h
      exact .committed i exchange rows db hi hdb
  | _ => cases h

/-- A step is one of the moves. -/
theorem moved_of_step {s t : Chats} {a : Action} (h : s.step a = some t) : Moved s a t := by
  cases a with
  | Ask i data =>
    simp only [Chats.step] at h
    split at h
    · cases h
    · rename_i hi
      cases h
      exact .asked i data hi
  | Load i conversation_id =>
    obtain ⟨turn, hi, h⟩ := Option.bind_eq_some_iff.mp h
    exact load_some hi h
  | Answer i answer now question_id answer_id =>
    obtain ⟨turn, hi, h⟩ := Option.bind_eq_some_iff.mp h
    exact answer_some hi h
  | Write i db_now =>
    obtain ⟨turn, hi, h⟩ := Option.bind_eq_some_iff.mp h
    exact write_some hi h
  | Commit i =>
    obtain ⟨turn, hi, h⟩ := Option.bind_eq_some_iff.mp h
    exact commit_some hi h
  | Fail i =>
    obtain ⟨turn, hi, rfl⟩ := Option.map_eq_some_iff.mp h
    exact .ended _ i turn hi

/-! ## What the log says -/

/-- The two messages of a turn. -/
def Exchange.messages (e : Exchange) : List (UUID × Role × String) :=
  [(e.question_id, .User, e.question), (e.answer_id, .Assistant, e.answer)]

/-- The committed turns of a conversation, in commit order. -/
def turns_of (log : List Exchange) (c : UUID) : List Exchange :=
  log.filter (fun e => e.conversation_id = c)

/-- The stored messages of a conversation, in the order of their inserts. -/
def rows_of (t : List ConversationMessageModel) (c : UUID) : List ConversationMessageModel :=
  t.filter (fun m => m.conversation_id = c)

def said (m : ConversationMessageModel) : UUID × Role × String := (m.id, m.role, m.content)

def ChatMessage.said (m : ChatMessage) : UUID × Role × String := (m.id, m.role, m.content)

theorem turns_of_append (log : List Exchange) (e : Exchange) (c : UUID) :
    turns_of (log ++ [e]) c =
      if e.conversation_id = c then turns_of log c ++ [e] else turns_of log c := by
  unfold turns_of
  rw [List.filter_append]
  split
  · rename_i h
    simp [h]
  · rename_i h
    simp [h]

theorem rows_of_append (t rows : List ConversationMessageModel) (c : UUID) :
    rows_of (t ++ rows) c = rows_of t c ++ rows_of rows c := List.filter_append ..

/-- Rows that are numbered in the order of their inserts come back in this
order. -/
theorem message_rows_eq {db : Database} {c : UUID} {n : Nat}
    (h : (rows_of db.messages c).map (fun m => m.seq) = List.range n) :
    SqlAlchemyConversationRepository.message_rows db c = rows_of db.messages c := by
  apply List.Pairwise.insertionSort_eq
  have hpair : ((rows_of db.messages c).map (fun m => m.seq)).Pairwise (· ≤ ·) := by
    rw [h]
    exact List.pairwise_le_range
  exact List.pairwise_map.mp hpair

/-- The row behind a conversation that `get` returns. -/
theorem get_conversation {db : Database} {tenant_id : String} {c : UUID}
    {conversation : Conversation}
    (h : SqlAlchemyConversationRepository.get db tenant_id c = some conversation) :
    ∃ row, find ConversationModel.id c db.conversations = some row ∧ conversation =
      { id := c
        tenant_id := row.tenant_id
        messages := (SqlAlchemyConversationRepository.message_rows db c).map message_to_entity
        created_at := some row.created_at
        updated_at := some row.updated_at } := by
  unfold SqlAlchemyConversationRepository.get at h
  split at h
  · cases h
  · rename_i row hrow
    split at h
    · cases h
    · exact ⟨row, hrow, (Option.some.inj h).symm⟩

/-- Of stored messages and two new ones after them, the new ones are left, each
with its place. -/
theorem new_places {ids : List UUID} {messages : List ChatMessage} {q a : ChatMessage}
    (hstored : ∀ m ∈ messages, m.id ∈ ids) (hq : q.id ∉ ids) (ha : a.id ∉ ids) :
    (messages ++ [q, a]).zipIdx.filter (fun m => m.1.id ∉ ids) =
      [(q, messages.length), (a, messages.length + 1)] := by
  have hold : messages.zipIdx.filter (fun m => m.1.id ∉ ids) = [] := by
    rw [List.filter_eq_nil_iff]
    rintro ⟨m, k⟩ hm
    simpa using hstored m (List.fst_mem_of_mem_zipIdx hm)
  rw [List.zipIdx_append, List.filter_append, hold]
  simp [List.zipIdx_cons, hq, ha]

theorem insert_two {t t' : List ConversationMessageModel} {a b : ConversationMessageModel}
    (h : SqlAlchemyConversationRepository.insert_messages t [a, b] = .ok t') :
    a.seq_key ∉ t.map ConversationMessageModel.seq_key ∧ t' = t ++ [a, b] := by
  unfold SqlAlchemyConversationRepository.insert_messages at h
  rw [List.foldlM_cons] at h
  simp only [bind, Except.bind] at h
  split at h
  · cases h
  · rename_i t1 h1
    obtain ⟨hkey, rfl⟩ := insert_unique_ok.mp h1
    simp only [List.foldlM_cons, List.foldlM_nil, bind, Except.bind, pure, Except.pure] at h
    split at h
    · cases h
    · rename_i t2 h2
      obtain ⟨_, rfl⟩ := insert_unique_ok.mp h2
      cases h
      exact ⟨hkey, by simp⟩

theorem committed_ok {db db' : Database} {rows : Rows} (h : committed db rows = .ok db') :
    SqlAlchemyConversationRepository.insert_messages db.messages rows.messages =
        .ok db'.messages ∧
      db' = { db with
        messages := db'.messages
        conversations := db.conversations ++ rows.conversations } := by
  simp only [committed, bind, Except.bind, pure, Except.pure] at h
  split at h
  · cases h
  · rename_i messages hm
    cases h
    exact ⟨hm, rfl⟩

theorem committed_of_insert {db : Database} {rows : Rows}
    {messages : List ConversationMessageModel}
    (h : SqlAlchemyConversationRepository.insert_messages db.messages rows.messages =
      .ok messages) :
    committed db rows = .ok { db with
      messages
      conversations := db.conversations ++ rows.conversations } := by
  simp only [committed, h, bind, Except.bind, pure, Except.pure]

/-! ## The turns that are open -/

/-- The ids of messages that a turn has taken and not committed. -/
def Turn.pending : Turn → List UUID
  | .Answered _ exchange _ => [exchange.question_id, exchange.answer_id]
  | .Written exchange _ => [exchange.question_id, exchange.answer_id]
  | _ => []

/-- What a turn has loaded: messages that the log begins with, or a new
conversation. -/
def Known (db : Database) (data : AnswerQuestionInput) (conversation : Conversation) : Prop :=
  match data.conversation_id with
  | none => conversation.messages = []
  | some _ => (∃ row ∈ db.conversations, row.id = conversation.id) ∧
      conversation.messages <+: (rows_of db.messages conversation.id).map message_to_entity

/-- The rows of a turn's two messages, from place `n` on. -/
def Exchange.rows (e : Exchange) (n : Nat) (at_ : DateTime) : List ConversationMessageModel :=
  [⟨e.question_id, e.conversation_id, n, .User, e.question, at_⟩,
   ⟨e.answer_id, e.conversation_id, n + 1, .Assistant, e.answer, at_⟩]

/-- The rows that a turn has written: its two messages, at a place that the log
has reached. -/
def Placed (db : Database) (e : Exchange) (rows : Rows) : Prop :=
  (∃ row ∈ db.conversations ++ rows.conversations, row.id = e.conversation_id) ∧
    ∃ n at_, n ≤ (rows_of db.messages e.conversation_id).length ∧ rows.messages = e.rows n at_

/-- What holds of every open turn. -/
def TurnSound (db : Database) : Turn → Prop
  | .Asked _ => True
  | .Loaded data conversation => Known db data conversation
  | .Answered data e conversation => e.question_id ≠ e.answer_id ∧
      ∃ loaded now, Known db data loaded ∧ e.conversation_id = loaded.id ∧
        conversation = AnswerQuestionUseCase.appended loaded
          ⟨e.question_id, .User, e.question, some now⟩
          ⟨e.answer_id, .Assistant, e.answer, some now⟩
  | .Written e rows => e.question_id ≠ e.answer_id ∧ Placed db e rows

/-- The conversations and the messages of `db'` are those of `db` and new ones
after them. -/
def Longer (db db' : Database) : Prop :=
  db.conversations <+: db'.conversations ∧ db.messages <+: db'.messages

theorem Longer.rows {db db' : Database} (h : Longer db db') (c : UUID) :
    rows_of db.messages c <+: rows_of db'.messages c := h.2.filter _

theorem Known.longer {db db' : Database} {data : AnswerQuestionInput} {conversation : Conversation}
    (h : Known db data conversation) (hl : Longer db db') : Known db' data conversation := by
  unfold Known at *
  split at h
  · exact h
  · obtain ⟨⟨row, hrow, hid⟩, hstart⟩ := h
    exact ⟨⟨row, hl.1.subset hrow, hid⟩, hstart.trans ((hl.rows _).map _)⟩

theorem Placed.longer {db db' : Database} {e : Exchange} {rows : Rows} (h : Placed db e rows)
    (hl : Longer db db') : Placed db' e rows := by
  obtain ⟨⟨row, hrow, hid⟩, n, at_, hn, hrows⟩ := h
  refine ⟨⟨row, ?_, hid⟩, n, at_, hn.trans (hl.rows _).length_le, hrows⟩
  rcases List.mem_append.mp hrow with hrow | hrow
  · exact List.mem_append_left _ (hl.1.subset hrow)
  · exact List.mem_append_right _ hrow

theorem TurnSound.longer {db db' : Database} {turn : Turn} (h : TurnSound db turn)
    (hl : Longer db db') : TurnSound db' turn := by
  cases turn with
  | Asked data => trivial
  | Loaded data conversation => exact Known.longer h hl
  | Answered data e conversation =>
    obtain ⟨hne, loaded, now, hknown, hid, hconversation⟩ := h
    exact ⟨hne, loaded, now, hknown.longer hl, hid, hconversation⟩
  | Written e rows => exact ⟨h.1, h.2.longer hl⟩

/-! ## The invariant -/

structure Sound (s : Chats) : Prop where
  numbered : ∀ c, (rows_of s.db.messages c).map (fun m => m.seq) =
    List.range (2 * (turns_of s.log c).length)
  told : ∀ c, (rows_of s.db.messages c).map said = (turns_of s.log c).flatMap Exchange.messages
  distinct : (s.db.messages.map (fun m => m.id)).Nodup
  issued : ∀ m ∈ s.db.messages, m.id ∈ s.issued
  owned : ∀ e ∈ s.log, ∃ row ∈ s.db.conversations, row.id = e.conversation_id
  turns : ∀ i turn, s.turns i = some turn → TurnSound s.db turn
  fresh : ∀ i turn, s.turns i = some turn → ∀ x ∈ turn.pending,
    x ∈ s.issued ∧ x ∉ s.db.messages.map (fun m => m.id)
  apart : ∀ i j turn other, i ≠ j → s.turns i = some turn → s.turns j = some other →
    ∀ x ∈ turn.pending, x ∉ other.pending

theorem sound_init : Sound {} where
  numbered _ := rfl
  told _ := rfl
  distinct := List.nodup_nil
  issued _ h := by cases h
  owned _ h := by cases h
  turns _ _ h := by cases h
  fresh _ _ h := by cases h
  apart _ _ _ _ _ h := by cases h

theorem set_turns (s : Chats) (i k : Nat) (turn : Option Turn) :
    (s.set i turn).turns k = if k = i then turn else s.turns k := rfl

/-- A turn that moves on and takes only ids that no one has. -/
theorem sound_move {s : Chats} (hs : Sound s) (i : Nat) (turn : Turn) (ids : List UUID)
    (hturn : TurnSound s.db turn)
    (hpending : ∀ x ∈ turn.pending, (x ∈ ids ∧ x ∉ s.issued) ∨
      ∃ old, s.turns i = some old ∧ x ∈ old.pending) :
    Sound { s.set i (some turn) with issued := ids ++ s.issued } where
  numbered := hs.numbered
  told := hs.told
  distinct := hs.distinct
  issued m hm := List.mem_append_right _ (hs.issued m hm)
  owned := hs.owned
  turns k other hk := by
    by_cases hki : k = i
    · simp only [Chats.set, if_pos hki, Option.some.injEq] at hk
      exact hk ▸ hturn
    · simp only [Chats.set, if_neg hki] at hk
      exact hs.turns k other hk
  fresh k other hk x hx := by
    by_cases hki : k = i
    · simp only [Chats.set, if_pos hki, Option.some.injEq] at hk
      subst hk
      rcases hpending x hx with ⟨hids, hnew⟩ | ⟨old, hold, hx⟩
      · refine ⟨List.mem_append_left _ hids, ?_⟩
        intro hin
        obtain ⟨m, hm, rfl⟩ := List.mem_map.mp hin
        exact hnew (hs.issued m hm)
      · obtain ⟨hin, hnot⟩ := hs.fresh i old hold x hx
        exact ⟨List.mem_append_right _ hin, hnot⟩
    · simp only [Chats.set, if_neg hki] at hk
      obtain ⟨hin, hnot⟩ := hs.fresh k other hk x hx
      exact ⟨List.mem_append_right _ hin, hnot⟩
  apart := by
    -- the ids of the moved turn are new, or were its own before
    have hmoved : ∀ j other, j ≠ i → s.turns j = some other → ∀ x ∈ turn.pending,
        x ∉ other.pending := by
      intro j other hji hj x hx hin
      rcases hpending x hx with ⟨_, hnew⟩ | ⟨old, hold, hx⟩
      · exact hnew (hs.fresh j other hj x hin).1
      · exact hs.apart i j old other (Ne.symm hji) hold hj x hx hin
    intro j k a b hjk hj hk x hx hin
    by_cases hji : j = i
    · have hki : k ≠ i := fun h => hjk (hji.trans h.symm)
      simp only [Chats.set, if_pos hji, Option.some.injEq] at hj
      simp only [Chats.set, if_neg hki] at hk
      subst hj
      exact hmoved k b hki hk x hx hin
    · simp only [Chats.set, if_neg hji] at hj
      by_cases hki : k = i
      · simp only [Chats.set, if_pos hki, Option.some.injEq] at hk
        subst hk
        exact hmoved j a hji hj x hin hx
      · simp only [Chats.set, if_neg hki] at hk
        exact hs.apart j k a b hjk hj hk x hx hin

/-- A turn that ends leaves the others as they are. -/
theorem sound_end {s : Chats} (hs : Sound s) (i : Nat) : Sound (s.set i none) := by
  have hother : ∀ k turn, (s.set i none).turns k = some turn → s.turns k = some turn := by
    intro k turn hk
    rw [set_turns] at hk
    split at hk
    · cases hk
    · exact hk
  exact {
    numbered := hs.numbered
    told := hs.told
    distinct := hs.distinct
    issued := hs.issued
    owned := hs.owned
    turns := fun k turn hk => hs.turns k turn (hother k turn hk)
    fresh := fun k turn hk => hs.fresh k turn (hother k turn hk)
    apart := fun j k a b hjk hj hk => hs.apart j k a b hjk (hother j a hj) (hother k b hk) }

/-! ## The steps -/

/-- A read gives what the log begins with. -/
theorem known_of_load {s : Chats} (hs : Sound s) {fresh_id : UUID} {data : AnswerQuestionInput}
    {conversation : Conversation}
    (h : AnswerQuestionUseCase.load_or_create_conversation s.db fresh_id data = .ok conversation) :
    Known s.db data conversation := by
  unfold AnswerQuestionUseCase.load_or_create_conversation at h
  split at h
  · rename_i hdata
    cases h
    unfold Known
    rw [hdata]
  · rename_i id hdata
    unfold Known
    rw [hdata]
    split at h
    · cases h
    · rename_i conversation' hget
      cases h
      obtain ⟨row, hrow, hconversation⟩ := get_conversation hget
      obtain ⟨hmem, hid⟩ := find_some _ hrow
      rw [message_rows_eq (hs.numbered id)] at hconversation
      rw [hconversation]
      exact ⟨⟨row, hmem, hid⟩, List.prefix_rfl⟩

/-- The rows of a turn that has loaded a part of the log: the messages that are
stored already are left out, and the two new ones come after them. -/
theorem placed_of_written {s : Chats} (hs : Sound s) {i : Nat} {data : AnswerQuestionInput}
    {e : Exchange} {conversation : Conversation}
    (hi : s.turns i = some (.Answered data e conversation)) (db_now : DateTime) :
    Placed s.db e (written s.db db_now data conversation) := by
  obtain ⟨hne, loaded, now, hknown, hid, rfl⟩ := hs.turns i _ hi
  unfold Known at hknown
  unfold written
  rcases hdata : data.conversation_id with _ | id
  · rw [hdata] at hknown
    refine ⟨⟨_, List.mem_append_right _ (List.mem_singleton_self _), hid.symm⟩, 0, db_now,
      Nat.zero_le _, ?_⟩
    simp [AnswerQuestionUseCase.appended, Exchange.rows, hknown, List.zipIdx_cons, message_to_model,
      hid]
  · rw [hdata] at hknown
    obtain ⟨⟨row, hrow, hrowid⟩, hstart⟩ := hknown
    obtain ⟨row', hfind⟩ := exists_of_find ConversationModel.id hrow hrowid
    have hstored : ∀ m ∈ loaded.messages,
        m.id ∈ (rows_of s.db.messages loaded.id).map (fun m => m.id) := by
      intro m hm
      obtain ⟨m', hm', rfl⟩ := List.mem_map.mp (hstart.subset hm)
      exact List.mem_map.mpr ⟨m', hm', rfl⟩
    have hnew : ∀ x ∈ [e.question_id, e.answer_id],
        x ∉ (rows_of s.db.messages loaded.id).map (fun m => m.id) := by
      intro x hx hin
      obtain ⟨m, hm, rfl⟩ := List.mem_map.mp hin
      exact (hs.fresh i _ hi _ hx).2 (List.mem_map.mpr ⟨m, (List.mem_filter.mp hm).1, rfl⟩)
    have hplaces := new_places hstored (hnew e.question_id (by simp)) (hnew e.answer_id (by simp))
      (q := ⟨e.question_id, .User, e.question, some now⟩)
      (a := ⟨e.answer_id, .Assistant, e.answer, some now⟩)
    simp only [AnswerQuestionUseCase.appended, hfind]
    refine ⟨⟨row, List.mem_append_left _ hrow, hrowid.trans hid.symm⟩, loaded.messages.length,
      db_now, ?_, ?_⟩
    · rw [hid, ← List.length_map message_to_entity]
      exact hstart.length_le
    · unfold rows_of at hplaces
      unfold SqlAlchemyConversationRepository.new_rows
      dsimp only
      rw [hplaces, ← hid]
      rfl

/-- The unique index admits the messages of a turn at the end of their
conversation only. -/
theorem commit_appends {s : Chats} (hs : Sound s) {i : Nat} {e : Exchange} {rows : Rows}
    {db : Database} (hi : s.turns i = some (.Written e rows))
    (hdb : committed s.db rows = .ok db) :
    (∃ row ∈ s.db.conversations ++ rows.conversations, row.id = e.conversation_id) ∧
      ∃ at_, db = { s.db with
        messages := s.db.messages ++
          e.rows (2 * (turns_of s.log e.conversation_id).length) at_
        conversations := s.db.conversations ++ rows.conversations } := by
  obtain ⟨_, hrow, n, at_, hn, hrows⟩ := hs.turns i _ hi
  obtain ⟨hmessages, hdb⟩ := committed_ok hdb
  rw [hrows] at hmessages
  obtain ⟨hkey, happended⟩ := insert_two hmessages
  have hnumbered := hs.numbered e.conversation_id
  have hlen : (rows_of s.db.messages e.conversation_id).length =
      2 * (turns_of s.log e.conversation_id).length := by
    have := congrArg List.length hnumbered
    simpa using this
  have hend : n = 2 * (turns_of s.log e.conversation_id).length := by
    rw [hlen] at hn
    by_contra hne
    have hmem : n ∈ (rows_of s.db.messages e.conversation_id).map (fun m => m.seq) := by
      rw [hnumbered, List.mem_range]
      omega
    obtain ⟨m, hm, rfl⟩ := List.mem_map.mp hmem
    obtain ⟨hm, hc⟩ := List.mem_filter.mp hm
    refine hkey (List.mem_map.mpr ⟨m, hm, ?_⟩)
    simp only [decide_eq_true_eq] at hc
    simp [ConversationMessageModel.seq_key, hc]
  refine ⟨hrow, at_, ?_⟩
  rw [hdb, happended, ← hend]
  rfl

theorem rows_of_rows (e : Exchange) (n : Nat) (at_ : DateTime) (c : UUID) :
    rows_of (e.rows n at_) c = if e.conversation_id = c then e.rows n at_ else [] := by
  unfold rows_of Exchange.rows
  split
  · rename_i h
    simp [h]
  · rename_i h
    simp [h]

/-- The log with one more committed turn. -/
theorem sound_commit {s : Chats} (hs : Sound s) {i : Nat} {e : Exchange} {rows : Rows}
    {db : Database} (hi : s.turns i = some (.Written e rows))
    (hdb : committed s.db rows = .ok db) :
    Sound { s.set i none with db, log := s.log ++ [e] } := by
  obtain ⟨⟨row, hrow, hid⟩, at_, rfl⟩ := commit_appends hs hi hdb
  have hfresh := hs.fresh i _ hi
  have hold := sound_end hs i
  have hlonger : Longer s.db { s.db with
      messages := s.db.messages ++ e.rows (2 * (turns_of s.log e.conversation_id).length) at_
      conversations := s.db.conversations ++ rows.conversations } :=
    ⟨List.prefix_append _ _, List.prefix_append _ _⟩
  exact {
    numbered := by
      intro c
      dsimp only
      rw [rows_of_append, rows_of_rows, turns_of_append]
      by_cases hc : e.conversation_id = c
      · subst hc
        rw [if_pos rfl, if_pos rfl, List.map_append, hs.numbered, List.length_append]
        simp [Exchange.rows, Nat.mul_add, List.range_succ]
      · rw [if_neg hc, if_neg hc, List.append_nil]
        exact hs.numbered c
    told := by
      intro c
      dsimp only
      rw [rows_of_append, rows_of_rows, turns_of_append]
      by_cases hc : e.conversation_id = c
      · subst hc
        rw [if_pos rfl, if_pos rfl, List.map_append, hs.told, List.flatMap_append]
        simp [Exchange.rows, said, Exchange.messages]
      · rw [if_neg hc, if_neg hc, List.append_nil]
        exact hs.told c
    distinct := by
      rw [List.map_append, List.nodup_append]
      have hne : e.question_id ≠ e.answer_id := (hs.turns i _ hi).1
      refine ⟨hs.distinct, by simp [Exchange.rows, hne], ?_⟩
      intro x hx y hy hxy
      subst hxy
      exact (hfresh x (by simpa [Exchange.rows, Turn.pending] using hy)).2 hx
    issued := by
      intro m hm
      rcases List.mem_append.mp hm with hm | hm
      · exact hs.issued m hm
      · refine (hfresh m.id ?_).1
        simp only [Exchange.rows, List.mem_cons, List.not_mem_nil, or_false] at hm
        rcases hm with rfl | rfl <;> simp [Turn.pending]
    owned := by
      intro e' he'
      rcases List.mem_append.mp he' with he' | he'
      · obtain ⟨row', hrow', hid'⟩ := hs.owned e' he'
        exact ⟨row', List.mem_append_left _ hrow', hid'⟩
      · rw [List.mem_singleton] at he'
        subst he'
        exact ⟨row, hrow, hid⟩
    turns := fun k turn hk => (hold.turns k turn hk).longer hlonger
    fresh := by
      intro k turn hk x hx
      obtain ⟨hin, hnot⟩ := hold.fresh k turn hk x hx
      refine ⟨hin, ?_⟩
      rw [List.map_append, List.mem_append, not_or]
      refine ⟨hnot, ?_⟩
      -- another turn has no id of the committed one
      have hki : k ≠ i := by
        rintro rfl
        simp [Chats.set] at hk
      have hk' : s.turns k = some turn := by
        simpa [Chats.set, hki] using hk
      intro hmem
      exact hs.apart k i turn _ hki hk' hi x hx
        (by simpa [Exchange.rows, Turn.pending] using hmem)
    apart := hold.apart }

theorem sound_step {s t : Chats} {a : Action} (hs : Sound s) (h : s.step a = some t) :
    Sound t := by
  cases moved_of_step h with
  | asked i data hi => exact sound_move hs i (.Asked data) [] trivial (by simp [Turn.pending])
  | loaded i conversation_id data conversation hi hload =>
    exact sound_move hs i (.Loaded data conversation) [conversation_id] (known_of_load hs hload)
      (by simp [Turn.pending])
  | answered i answer now question_id answer_id data conversation hi hq ha hne =>
    refine sound_move hs i _ [question_id, answer_id]
      ⟨hne, conversation, now, hs.turns i _ hi, rfl, rfl⟩ ?_
    intro x hx
    refine Or.inl ⟨hx, ?_⟩
    rcases List.mem_pair.mp hx with rfl | rfl
    · exact hq
    · exact ha
  | written i db_now data e conversation hi =>
    exact sound_move hs i (.Written e _) [] ⟨(hs.turns i _ hi).1, placed_of_written hs hi db_now⟩
      (fun x hx => Or.inr ⟨_, hi, hx⟩)
  | committed i e rows db hi hdb => exact sound_commit hs hi hdb
  | ended a i turn hi => exact sound_end hs i

/-! ## The laws -/

/-- What a reader of the committed tables sees: the numbers have no gap, the
roles alternate, the messages are the committed turns one after another, and
`get` returns them. -/
structure Consistent (s : Chats) : Prop where
  numbered : ∀ c, (SqlAlchemyConversationRepository.message_rows s.db c).map (fun m => m.seq) =
    List.range (2 * (turns_of s.log c).length)
  alternate : ∀ c, (SqlAlchemyConversationRepository.message_rows s.db c).map (fun m => m.role) =
    (List.replicate (turns_of s.log c).length [Role.User, Role.Assistant]).flatten
  told : ∀ c, (SqlAlchemyConversationRepository.message_rows s.db c).map said =
    (turns_of s.log c).flatMap Exchange.messages
  distinct : (s.db.messages.map (fun m => m.id)).Nodup
  returned : ∀ tenant_id c conversation,
    SqlAlchemyConversationRepository.get s.db tenant_id c = some conversation →
    conversation.messages.map ChatMessage.said = (turns_of s.log c).flatMap Exchange.messages
  found : ∀ e ∈ s.log, ∃ tenant_id conversation,
    SqlAlchemyConversationRepository.get s.db tenant_id e.conversation_id = some conversation

theorem roles_of_turns (turns : List Exchange) :
    (turns.flatMap Exchange.messages).map (fun m => m.2.1) =
      (List.replicate turns.length [Role.User, Role.Assistant]).flatten := by
  induction turns with
  | nil => rfl
  | cons e turns ih =>
    rw [List.flatMap_cons, List.map_append, ih, List.length_cons, List.replicate_succ,
      List.flatten_cons]
    rfl

theorem consistent_of_sound {s : Chats} (hs : Sound s) : Consistent s := by
  have htold : ∀ c, (SqlAlchemyConversationRepository.message_rows s.db c).map said =
      (turns_of s.log c).flatMap Exchange.messages := by
    intro c
    rw [message_rows_eq (hs.numbered c)]
    exact hs.told c
  refine ⟨?_, ?_, htold, hs.distinct, ?_, ?_⟩
  · intro c
    rw [message_rows_eq (hs.numbered c)]
    exact hs.numbered c
  · intro c
    rw [← roles_of_turns, ← htold c, List.map_map]
    rfl
  · intro tenant_id c conversation h
    obtain ⟨row, _, rfl⟩ := get_conversation h
    rw [← htold c, List.map_map]
    rfl
  · intro e he
    obtain ⟨row, hrow, hid⟩ := hs.owned e he
    obtain ⟨row', hfind⟩ := exists_of_find ConversationModel.id hrow hid
    refine ⟨row'.tenant_id, ?_⟩
    simp [SqlAlchemyConversationRepository.get, hfind]

/-- The log of `t` is the log of `s` with more turns after it. -/
structure Continues (s t : Chats) : Prop where
  turns : s.log <+: t.log
  messages : ∀ c, SqlAlchemyConversationRepository.message_rows s.db c <+:
    SqlAlchemyConversationRepository.message_rows t.db c

/-- What a step adds: the turn that it commits, or nothing. -/
def Adds (s : Chats) (a : Action) (t : Chats) : Prop :=
  (t.db = s.db ∧ t.log = s.log) ∨
    ∃ i e rows, a = .Commit i ∧ s.turns i = some (.Written e rows) ∧ t.log = s.log ++ [e]

theorem adds_of_moved {s t : Chats} {a : Action} (h : Moved s a t) : Adds s a t := by
  cases h with
  | committed i e rows db hi hdb => exact Or.inr ⟨i, e, rows, rfl, hi, rfl⟩
  | _ => exact Or.inl ⟨rfl, rfl⟩

theorem longer_of_moved {s t : Chats} {a : Action} (hs : Sound s) (h : Moved s a t) :
    s.log <+: t.log ∧ Longer s.db t.db := by
  cases h with
  | committed i e rows db hi hdb =>
    obtain ⟨_, at_, rfl⟩ := commit_appends hs hi hdb
    exact ⟨List.prefix_append _ _, List.prefix_append _ _, List.prefix_append _ _⟩
  | _ => exact ⟨List.prefix_rfl, List.prefix_rfl, List.prefix_rfl⟩

theorem continues_of_run {s t : Chats} {as : List Action} (hs : Sound s)
    (ht : run Chats.step s as = some t) : Continues s t := by
  have hkeeps : Sound t ∧ s.log <+: t.log ∧ Longer s.db t.db := by
    refine run_invariant (I := fun u => Sound u ∧ s.log <+: u.log ∧ Longer s.db u.db) ?_
      ⟨hs, List.prefix_rfl, List.prefix_rfl, List.prefix_rfl⟩ ht
    rintro u a w ⟨hu, hlog, hlonger⟩ hw
    obtain ⟨hlog', hlonger'⟩ := longer_of_moved hu (moved_of_step hw)
    exact ⟨sound_step hu hw, hlog.trans hlog', hlonger.1.trans hlonger'.1,
      hlonger.2.trans hlonger'.2⟩
  obtain ⟨ht, hlog, hlonger⟩ := hkeeps
  refine ⟨hlog, ?_⟩
  intro c
  rw [message_rows_eq (hs.numbered c), message_rows_eq (ht.numbered c)]
  exact hlonger.rows c

/-- In every committed state the log is the committed turns in commit order; a
step adds the turn that it commits, or nothing; and no run takes a message back. -/
theorem the_log_is_append_only_and_consistent {s : Chats} (h : Reachable Chats.step {} s) :
    Consistent s ∧ (∀ a t, s.step a = some t → Adds s a t) ∧
      ∀ as t, run Chats.step s as = some t → Continues s t := by
  have hs : Sound s := reachable_invariant sound_init (fun _ _ _ hs h => sound_step hs h) h
  exact ⟨consistent_of_sound hs, fun a t ht => adds_of_moved (moved_of_step ht),
    fun as t ht => continues_of_run hs ht⟩

/-- One turn, and two more that both load it: the second of them to commit is
refused. -/
def overlapping_turns : List Action :=
  let ask (conversation_id : Option UUID) : AnswerQuestionInput := {
    tenant_id := "acme", question := "why?", conversation_id }
  [.Ask 0 (ask none), .Load 0 ⟨1⟩, .Answer 0 "so" noon ⟨2⟩ ⟨3⟩, .Write 0 noon, .Commit 0,
    .Ask 1 (ask (some ⟨1⟩)), .Ask 2 (ask (some ⟨1⟩)), .Load 1 ⟨4⟩, .Load 2 ⟨5⟩,
    .Answer 1 "no" noon ⟨6⟩ ⟨7⟩, .Answer 2 "yes" noon ⟨8⟩ ⟨9⟩, .Write 1 noon, .Write 2 noon,
    .Commit 2, .Commit 1]

theorem an_overtaken_turn_adds_nothing :
    ∃ s, run Chats.step {} overlapping_turns = some s ∧
      s.log.map (fun e => e.answer) = ["so", "yes"] ∧ Consistent s ∧
      (∀ a t, s.step a = some t → Adds s a t) ∧
      ∀ as t, run Chats.step s as = some t → Continues s t := by
  have hrun : (run Chats.step {} overlapping_turns).map
      (fun s => s.log.map (fun e => e.answer)) = some ["so", "yes"] := by
    decide +kernel
  obtain ⟨s, hs, hlog⟩ := Option.map_eq_some_iff.mp hrun
  exact ⟨s, hs, hlog, the_log_is_append_only_and_consistent ⟨overlapping_turns, hs⟩⟩

end cortex_rag.conversation_log
