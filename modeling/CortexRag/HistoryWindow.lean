-- The law of the memory: an answer sends the LLM the prompt with the passages,
-- the last messages of the conversation, and the question.
import CortexRag.ServiceOutcomes
import Mathlib.Data.List.DropRight

open keyed_rows state_programs labelled_runs cortex_rag.service

namespace cortex_rag.history_window

/-! ## The window -/

theorem length_rtake {α : Type} (n : Nat) (items : List α) :
    (items.rtake n).length = min n items.length := by
  unfold List.rtake
  rw [List.length_drop]
  omega

theorem rtake_min {α : Type} (n : Nat) (items : List α) :
    items.rtake (min n items.length) = items.rtake n := by
  unfold List.rtake
  congr 1
  omega

/-- `items[-window:]` for a window that is not empty. -/
theorem slice_of_window {α : Type} {window : Int} (h : 0 < window) (items : List α) :
    python_slice_from items (-window) = items.rtake window.toNat := by
  unfold python_slice_from List.rtake
  rw [if_neg (by omega), Int.neg_neg]

/-- `items[-0:]` is not the empty window but all items. -/
theorem slice_of_zero {α : Type} (items : List α) : python_slice_from items (-0) = items := rfl

/-! ## The prompt -/

/-- The stored messages of the conversation that a question continues, the oldest
first. -/
def stored_messages (db : Database) (data : AnswerQuestionInput) : List LLMMessage :=
  match data.conversation_id with
  | none => []
  | some id =>
    (SqlAlchemyConversationRepository.message_rows db id).map
      (fun m => { role := m.role, content := m.content })

/-- The points that the search for a question finds, in rank order. -/
def passages (P : Providers) (w : World) (data : AnswerQuestionInput) (vector : Vector) :
    List SearchResult :=
  (P.nearest (QdrantVectorRepository.filtered w.points data.tenant_id) vector data.top_k).map
    (fun hit => { id := hit.1.id, score := hit.2, payload := hit.1.payload })

/-- The prompt for the LLM as the window has it. -/
def window_prompt (settings : ChatSettings) (results : List SearchResult)
    (stored : List LLMMessage) (question : String) : List LLMMessage :=
  let contents := results.map (fun r => r.payload.content)
  { role := .System
    content := settings.system_prompt ++ "\n\nContext:\n" ++ String.intercalate "\n\n" contents } ::
    (stored.rtake (min settings.history_window.toNat stored.length) ++
      [{ role := .User, content := question }])

theorem length_window_prompt (settings : ChatSettings) (results : List SearchResult)
    (stored : List LLMMessage) (question : String) :
    (window_prompt settings results stored question).length =
      1 + min settings.history_window.toNat stored.length + 1 := by
  unfold window_prompt
  rw [List.length_cons, List.length_append, length_rtake, List.length_singleton]
  omega

variable {settings : Settings} {chat : ChatSettings} {P : Providers} {m : Moment} {w : World}
  {data : AnswerQuestionInput} {vector : Vector} {conversation : Conversation}

/-- A message of a conversation as the LLM gets it. -/
def sent (message : ChatMessage) : LLMMessage where
  role := message.role
  content := message.content

/-- The conversation of a question holds the stored messages. -/
theorem loaded_messages {db : Database} {fresh_id : UUID}
    (h : AnswerQuestionUseCase.load_or_create_conversation db fresh_id data = .ok conversation) :
    conversation.messages.map sent = stored_messages db data := by
  unfold AnswerQuestionUseCase.load_or_create_conversation at h
  unfold stored_messages
  revert h
  rcases data.conversation_id with _ | id
  · intro h
    cases h
    rfl
  · intro h
    dsimp only at h ⊢
    split at h
    · cases h
    · rename_i conversation' hget
      cases h
      unfold SqlAlchemyConversationRepository.get at hget
      split at hget
      · cases hget
      · split at hget
        · cases hget
        · cases hget
          rw [List.map_map]
          rfl

/-- Where the window is not empty, the messages for the LLM are those of the
window; where it is empty, they are all. -/
theorem llm_messages_iff (hwindow : 0 ≤ chat.history_window) (results : List SearchResult)
    (conversation : Conversation) (question : String) :
    AnswerQuestionUseCase.llm_messages chat (AnswerQuestionUseCase.context results) conversation
        question = window_prompt chat results (conversation.messages.map sent) question ↔
      chat.history_window ≠ 0 ∨ conversation.messages.map sent = [] := by
  have hprompt : AnswerQuestionUseCase.llm_messages chat (AnswerQuestionUseCase.context results)
        conversation question = window_prompt chat results (conversation.messages.map sent)
          question ↔
      (python_slice_from conversation.messages (-chat.history_window)).map sent =
        (conversation.messages.map sent).rtake chat.history_window.toNat := by
    unfold AnswerQuestionUseCase.llm_messages window_prompt AnswerQuestionUseCase.context
    rw [rtake_min, List.cons.injEq, List.append_left_inj]
    exact and_iff_right rfl
  rw [hprompt]
  rcases Int.lt_or_eq_of_le hwindow with hpos | hzero
  · rw [slice_of_window hpos]
    have hlast : (conversation.messages.rtake chat.history_window.toNat).map sent =
        (conversation.messages.map sent).rtake chat.history_window.toNat := by
      unfold List.rtake
      rw [List.map_drop, List.length_map]
    exact iff_of_true hlast (Or.inl (by omega))
  · rw [← hzero, slice_of_zero]
    constructor
    · intro h
      have hlength := congrArg List.length h
      rw [length_rtake] at hlength
      exact Or.inr (List.eq_nil_of_length_eq_zero (by simpa using hlength))
    · rintro (h | h)
      · exact absurd rfl h
      · rw [h]
        rfl

/-! ## The way to the LLM -/

/-- How many calls load the conversation: only a conversation id asks the
database. -/
def loads (data : AnswerQuestionInput) : Nat :=
  match data.conversation_id with
  | none => 0
  | some _ => 1

/-- The call comes to the LLM: the question has this vector, its conversation is
this one, and none of the calls to the outside up to the LLM fails. -/
structure Asks (P : Providers) (w : World) (m : Moment) (data : AnswerQuestionInput)
    (vector : Vector) (conversation : Conversation) : Prop where
  faultless : Faultless (2 + loads data + 1) m.faults
  embedded : ∃ vectors, P.embed .Query [data.question] = .ok (vector :: vectors)
  loaded : AnswerQuestionUseCase.load_or_create_conversation w.db m.ids.conversation data =
    .ok conversation

theorem retrieve_ok {c d : Call} {tenant_id query : String} {top_k : Nat}
    {results : List SearchResult} :
    retrieve P tenant_id query top_k c = (.ok results, d) ↔
      Faultless 2 c.faults ∧
        (∃ vector vectors, P.embed .Query [query] = .ok (vector :: vectors) ∧
          results = (P.nearest (QdrantVectorRepository.filtered c.world.points tenant_id) vector
            top_k).map (fun hit => { id := hit.1.id, score := hit.2, payload := hit.1.payload })) ∧
        d = { c with faults := c.faults.drop 2 } := by
  unfold retrieve FastEmbedEmbeddingProvider.embed_text FastEmbedEmbeddingProvider.embed_batch
    QdrantVectorRepository.search
  rw [faultless_succ, faultless_one, ← List.tail_drop, List.drop_one]
  simp only [bind_ok, external_ok, of_except_ok, look_ok]
  constructor
  · rintro ⟨vector, _, ⟨vectors, _, ⟨_, _, ⟨hf, rfl⟩, hembed, rfl⟩, hvector⟩, _, _, ⟨hf', rfl⟩,
      hresults, rfl⟩
    rcases vectors with _ | ⟨first, vectors⟩
    · cases hvector
    · obtain ⟨rfl, rfl⟩ := pure_ok.mp hvector
      cases hresults
      exact ⟨⟨hf, hf'⟩, ⟨first, vectors, hembed, rfl⟩, rfl⟩
  · rintro ⟨⟨hf, hf'⟩, ⟨vector, vectors, hembed, rfl⟩, rfl⟩
    exact ⟨vector, _, ⟨vector :: vectors, _, ⟨(), _, ⟨hf, rfl⟩, hembed, rfl⟩, rfl⟩, (), _,
      ⟨hf', rfl⟩, rfl, rfl⟩

theorem load_conversation_iff {c d : Call} (hc : c.broken = false) :
    AnswerQuestionUseCase.load_conversation m data c = (.ok conversation, d) ↔
      Faultless (loads data) c.faults ∧
        AnswerQuestionUseCase.load_or_create_conversation c.world.db m.ids.conversation data =
          .ok conversation ∧
        d = { c with faults := c.faults.drop (loads data) } := by
  unfold AnswerQuestionUseCase.load_conversation loads
  rcases hdata : data.conversation_id with _ | id
  · have hload : ∀ db, AnswerQuestionUseCase.load_or_create_conversation db m.ids.conversation
        data = .ok { id := m.ids.conversation, tenant_id := data.tenant_id } := by
      intro db
      unfold AnswerQuestionUseCase.load_or_create_conversation
      rw [hdata]
    rw [hload, hload, of_except_ok]
    exact (and_iff_right (fun _ hk => absurd hk (Nat.not_lt_zero _))).symm
  · rw [faultless_one, List.drop_one]
    simp only [bind_ok, query_ok, of_except_ok]
    constructor
    · rintro ⟨_, _, ⟨_, hf, rfl, rfl⟩, hload, rfl⟩
      exact ⟨hf, hload, rfl⟩
    · rintro ⟨hf, hload, rfl⟩
      exact ⟨_, _, ⟨hc, hf, rfl, rfl⟩, hload, rfl⟩

/-- An answer up to the place where the LLM has its prompt. -/
def asked (P : Providers) (settings : Settings) (m : Moment) (data : AnswerQuestionInput) :
    Service (List SearchResult × Conversation) := do
  let results ← retrieve P data.tenant_id data.question data.top_k
  let conversation ← AnswerQuestionUseCase.load_conversation m data
  let prompt := AnswerQuestionUseCase.llm_messages settings.chat
    (AnswerQuestionUseCase.context results) conversation data.question
  effect (fun w => { w with prompts := w.prompts ++ [prompt] })
  return (results, conversation)

/-- The rest of an answer. -/
def answered (settings : Settings) (m : Moment) (data : AnswerQuestionInput)
    (x : List SearchResult × Conversation) : Service AnswerQuestionOutput := do
  let answer ← of_except (m.complete (AnswerQuestionUseCase.llm_messages settings.chat
    (AnswerQuestionUseCase.context x.1) x.2 data.question))
  let conversation := AnswerQuestionUseCase.appended x.2
    (AnswerQuestionUseCase.question_message data (m.clock 0) m.ids.question)
    (AnswerQuestionUseCase.answer_message answer (m.clock 0) m.ids.answer)
  write (fun db => AnswerQuestionUseCase.stored db m.db_now data conversation)
  return {
    answer
    conversation_id := conversation.id
    sources := AnswerQuestionUseCase.sources x.1 }

theorem execute_eq : AnswerQuestionUseCase.execute P settings m data =
    asked P settings m data >>= answered settings m data := by
  unfold AnswerQuestionUseCase.execute asked answered AnswerQuestionUseCase.complete
  simp only [bind_assoc, pure_bind]

/-- The call comes past the prompt exactly where it asks. -/
theorem asked_ok (settings : Settings) {d : Call} {x : List SearchResult × Conversation} :
    asked P settings m data ⟨w, m.faults, false⟩ = (.ok x, d) ↔
      ∃ vector, Asks P w m data vector x.2 ∧ x.1 = passages P w data vector ∧
        d = { world := { w with prompts := w.prompts ++ [AnswerQuestionUseCase.llm_messages
                settings.chat (AnswerQuestionUseCase.context x.1) x.2 data.question] }
              faults := m.faults.drop (2 + loads data + 1), broken := false } := by
  unfold asked
  simp only [bind_ok, retrieve_ok, effect_ok, pure_ok]
  constructor
  · rintro ⟨results, _, ⟨hfirst, ⟨vector, vectors, hembed, rfl⟩, rfl⟩, conversation, _, hload, _, _,
      ⟨hlast, rfl⟩, rfl, rfl⟩
    obtain ⟨hloads, hloaded, rfl⟩ := (load_conversation_iff rfl).mp hload
    refine ⟨vector, ⟨?_, ⟨vectors, hembed⟩, hloaded⟩, rfl, ?_⟩
    · rw [faultless_add, faultless_add, faultless_one, ← List.drop_drop]
      exact ⟨⟨hfirst, hloads⟩, hlast⟩
    · simp only [List.drop_drop, List.tail_drop]
  · rintro ⟨vector, ⟨hfaults, ⟨vectors, hembed⟩, hloaded⟩, hresults, rfl⟩
    rw [faultless_add, faultless_add, faultless_one, ← List.drop_drop] at hfaults
    obtain ⟨⟨hfirst, hloads⟩, hlast⟩ := hfaults
    refine ⟨x.1, _, ⟨hfirst, ⟨vector, vectors, hembed, hresults⟩, rfl⟩, x.2, _,
      (load_conversation_iff rfl).mpr ⟨hloads, hloaded, rfl⟩, (), _, ⟨hlast, rfl⟩, rfl, ?_⟩
    simp only [List.drop_drop, List.tail_drop]

/-! ## What an answer sends -/

theorem answer_program (P : Providers) (settings : Settings) (m : Moment)
    (data : AnswerQuestionInput) :
    Operation.program P settings m (.Answer data) = asked P settings m data >>=
      fun x => answered settings m data x >>= fun output => pure (.Answer output) := by
  change AnswerQuestionUseCase.execute P settings m data >>= 
    (fun output => pure (Response.Answer output)) = _
  rw [execute_eq, bind_assoc]

/-- The rest of an answer sends nothing more. -/
theorem answered_ends (x : List SearchResult × Conversation) :
    Ends w (answered settings m data x >>= fun output => pure (Response.Answer output))
      (fun _ w' => w'.prompts = w.prompts) (fun w' => w'.prompts = w.prompts) := by
  unfold answered
  simp only [bind_assoc, pure_bind]
  refine ends_of_except rfl ?_
  intro answer _
  refine ends_write rfl ?_
  intro db _
  exact ends_pure rfl

/-- A call that ends before the prompt sends nothing. -/
theorem asked_ends (P : Providers) (settings : Settings) (m : Moment) (w : World)
    (data : AnswerQuestionInput) : Ends w (asked P settings m data) (fun _ _ => True)
      (fun w' => w'.prompts = w.prompts) := by
  unfold asked
  refine ends_bind (retrieve_ends _ _ _ rfl) ?_
  rintro results w' ⟨_, rfl⟩
  refine ends_bind (load_conversation_ends data rfl) ?_
  rintro conversation w'' ⟨_, rfl⟩
  exact ends_effect rfl (ends_pure trivial)

/-- The prompt of a call that asks. -/
theorem prompts_of_asks (settings : Settings) (h : Asks P w m data vector conversation) :
    (w.perform P settings ⟨m, .Answer data⟩).2.prompts =
      w.prompts ++ [AnswerQuestionUseCase.llm_messages settings.chat
        (AnswerQuestionUseCase.context (passages P w data vector)) conversation data.question] := by
  rw [perform_eq]
  simp only [answer_program]
  have ho : Asks P (opened w ⟨m, .Answer data⟩) m data vector conversation :=
    ⟨h.faultless, h.embedded, h.loaded⟩
  have hp := (asked_ok settings (x := (passages P w data vector, conversation))).mpr
    ⟨vector, ho, rfl, rfl⟩
  exact session_past hp (Q := fun w' => w'.prompts = _) (fun _ _ hw => hw) (answered_ends _)

/-- A call that does not ask sends nothing. -/
theorem prompts_of_silent (settings : Settings)
    (h : ∀ vector conversation, ¬ Asks P w m data vector conversation) :
    (w.perform P settings ⟨m, .Answer data⟩).2.prompts = w.prompts := by
  rw [perform_eq]
  simp only [answer_program]
  have hends := asked_ends P settings m (opened w ⟨m, .Answer data⟩) data
    ⟨opened w ⟨m, .Answer data⟩, m.faults, false⟩ rfl
  rcases hp : asked P settings m data ⟨opened w ⟨m, .Answer data⟩, m.faults, false⟩ with
    ⟨e | x, d⟩
  · rw [hp] at hends
    unfold session
    simp only [bind, hp]
    exact hends
  · obtain ⟨vector, ho, _, _⟩ := (asked_ok settings).mp hp
    exact absurd ⟨ho.faultless, ho.embedded, ho.loaded⟩ (h vector x.2)

/-! ## The law -/

/-- What an answer sends, if it sends anything, is the prompt of the window: the
passages of the search, the last `min window n` of the `n` stored messages, and
the question. -/
def SendsWindow (P : Providers) (settings : Settings) (w : World) (r : Request) : Prop :=
  ∀ data, r.operation = .Answer data →
    (w.perform P settings r).2.prompts = w.prompts ∨
    ∃ vector vectors prompt, P.embed .Query [data.question] = .ok (vector :: vectors) ∧
      prompt = window_prompt settings.chat (passages P w data vector) (stored_messages w.db data)
        data.question ∧
      prompt.length =
        1 + min settings.chat.history_window.toNat (stored_messages w.db data).length + 1 ∧
      (w.perform P settings r).2.prompts = w.prompts ++ [prompt]

/-- An answer that asks the LLM has a window that is not empty, or no stored
messages. -/
def WindowOpen (P : Providers) (settings : Settings) (w : World) (r : Request) : Prop :=
  ∀ data vector conversation, r.operation = .Answer data →
    Asks P w r.moment data vector conversation →
    settings.chat.history_window ≠ 0 ∨ stored_messages w.db data = []

theorem sends_window_iff (hwindow : 0 ≤ settings.chat.history_window) (w : World) (r : Request) :
    SendsWindow P settings w r ↔ WindowOpen P settings w r := by
  obtain ⟨m, operation⟩ := r
  constructor
  · rintro h data vector conversation rfl hasks
    have hsent := prompts_of_asks settings hasks
    have hiff := llm_messages_iff hwindow (passages P w data vector) conversation data.question
    rw [loaded_messages hasks.loaded] at hiff
    rcases h data rfl with hnone | ⟨vector', vectors, prompt, hembed, rfl, _, hprompt⟩
    · rw [hsent] at hnone
      exact absurd hnone (by simp)
    · obtain ⟨vectors', hembed'⟩ := hasks.embedded
      rw [hembed'] at hembed
      cases hembed
      rw [hsent] at hprompt
      exact hiff.mp (List.singleton_inj.mp (List.append_cancel_left hprompt))
  · rintro h data rfl
    by_cases hasks : ∃ vector conversation, Asks P w m data vector conversation
    · obtain ⟨vector, conversation, hasks⟩ := hasks
      have hopen := h data vector conversation rfl hasks
      have hiff := llm_messages_iff hwindow (passages P w data vector) conversation data.question
      rw [loaded_messages hasks.loaded] at hiff
      obtain ⟨vectors, hembed⟩ := hasks.embedded
      exact Or.inr ⟨vector, vectors, _, hembed, hiff.mpr hopen ▸ rfl,
        hiff.mpr hopen ▸ length_window_prompt _ _ _ _, prompts_of_asks settings hasks⟩
    · exact Or.inl (prompts_of_silent settings (fun vector conversation hasked =>
        hasks ⟨vector, conversation, hasked⟩))

/-- In every run the answers send the window exactly where none of them has an
empty window and a conversation with messages. -/
theorem every_turn_sends_the_window (hwindow : 0 ≤ settings.chat.history_window) (w : World)
    (rs : List Request) :
    Along (World.step P settings) (SendsWindow P settings) w rs ↔
      Along (World.step P settings) (WindowOpen P settings) w rs :=
  along_congr (I := fun _ => True) (fun _ _ _ _ _ => trivial)
    (fun w r _ => sends_window_iff hwindow w r) trivial rs

/-- A question, and a second one in the same conversation. -/
def two_turns : List Request :=
  [plain.request 0 (.Answer { tenant_id := "acme", question := "Who?" }),
    plain.request 1 (.Answer {
      tenant_id := "acme"
      question := "When?"
      conversation_id := some (plain.ids 0).conversation })]

theorem two_turns_send_the_window :
    Along (World.step plain.providers {}) (SendsWindow plain.providers {}) {} two_turns :=
  (every_turn_sends_the_window (by decide) {} two_turns).mpr
    (along_of_forall (fun _ _ _ _ _ _ _ => Or.inl (by decide)) _ _)

/-- No message of the memory is to be sent. -/
def no_memory : Settings := { chat := { history_window := 0 } }

/-- The second question is sent with both messages of the first turn. -/
theorem an_empty_window_sends_the_whole_conversation :
    0 ≤ no_memory.chat.history_window ∧
      ¬ Along (World.step plain.providers no_memory) (SendsWindow plain.providers no_memory) {}
        two_turns := by
  refine ⟨by decide, ?_⟩
  intro h
  have hrun : (run (World.step plain.providers no_memory) {} (two_turns.take 1)).map (fun w =>
      (w.prompts.map List.length, (w.perform plain.providers no_memory
        (plain.request 1 (.Answer {
          tenant_id := "acme"
          question := "When?"
          conversation_id := some (plain.ids 0).conversation }))).2.prompts.map List.length)) =
        some ([2], [2, 4]) := by
    decide +kernel
  obtain ⟨w, hw, heq⟩ := Option.map_eq_some_iff.mp hrun
  rw [Prod.mk.injEq] at heq
  rcases along_iff.mp h _ _ [] w rfl hw _ rfl with hsame | ⟨_, _, prompt, _, _, hlength, hsent⟩
  · rw [hsame, heq.1] at heq
    exact absurd heq.2 (by decide)
  · rw [hsent, List.map_append, heq.1] at heq
    have hfour : prompt.length = 4 := by simpa using heq.2
    have hzero : no_memory.chat.history_window.toNat = 0 := rfl
    omega

end cortex_rag.history_window
