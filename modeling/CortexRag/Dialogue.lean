-- The law of the dialogue: whatever turns run beside each other, Gemini is sent a
-- conversation in which the two sides take turns, cut out of the committed ones.
import CortexRag.ConversationLog
import Mathlib.Data.List.Chain

open keyed_rows labelled_runs

namespace cortex_rag

/-! ## GeminiLLMProvider -/

/-- A `types.Content` of one text. -/
structure Content where
  role : String
  text : String
deriving DecidableEq

/-- What `generate_content` is sent. -/
structure GenerateContent where
  contents : List Content
  system_instruction : Option String
deriving DecidableEq

/-- An `APIError` of the client. -/
structure APIError where
  code : Int
  exception : PyException

namespace GeminiLLMProvider

/-- `_ROLE_MAP`. -/
def ROLE_MAP : Role → Option String
  | .System => none
  | .User => some "user"
  | .Assistant => some "model"

def system_parts (messages : List LLMMessage) : List String :=
  (messages.filter (fun m => m.role = .System)).map (fun m => m.content)

def contents (messages : List LLMMessage) : List Content :=
  messages.filterMap (fun m => (ROLE_MAP m.role).map (fun role => { role, text := m.content }))

def request (messages : List LLMMessage) : GenerateContent where
  contents := contents messages
  system_instruction :=
    if system_parts messages = [] then none
    else some (String.intercalate "\n" (system_parts messages))

def rate_limit : DomainError :=
  .ServiceUnavailableError "Gemini rate limit exceeded. Please try again in a moment."

/-- `complete`, over the call of the client. -/
def complete (generate_content : GenerateContent → Except APIError (Option String))
    (messages : List LLMMessage) : Except PyException String :=
  match generate_content (request messages) with
  | .ok text => .ok (text.getD "")
  | .error e => if e.code = 429 then .error (.Domain rate_limit) else .error e.exception

end GeminiLLMProvider

namespace conversation_log

/-! ## What a turn has loaded -/

/-- A turn loads whole exchanges: those that were committed at that time. -/
def Whole (log : List Exchange) : Turn → Prop
  | .Loaded _ conversation => ∃ turns, turns <+: turns_of log conversation.id ∧
      conversation.messages.map ChatMessage.said = turns.flatMap Exchange.messages
  | _ => True

theorem Whole.longer {log more : List Exchange} (h : log <+: more) {turn : Turn}
    (hturn : Whole log turn) : Whole more turn := by
  cases turn with
  | Loaded data conversation =>
    obtain ⟨turns, hturns, hsaid⟩ := hturn
    exact ⟨turns, hturns.trans (h.filter _), hsaid⟩
  | _ => trivial

theorem whole_of_load {s : Chats} (hs : Sound s) {fresh_id : UUID} {data : AnswerQuestionInput}
    {conversation : Conversation}
    (h : AnswerQuestionUseCase.load_or_create_conversation s.db fresh_id data = .ok conversation) :
    Whole s.log (.Loaded data conversation) := by
  unfold AnswerQuestionUseCase.load_or_create_conversation at h
  split at h
  · cases h
    exact ⟨[], List.nil_prefix, rfl⟩
  · rename_i id _
    split at h
    · cases h
    · rename_i hget
      cases h
      have hsaid := (consistent_of_sound hs).returned data.tenant_id id conversation hget
      obtain ⟨row, _, rfl⟩ := get_conversation hget
      exact ⟨turns_of s.log id, List.prefix_rfl, hsaid⟩

/-- The turns that load, or have loaded, whole exchanges. -/
def AllWhole (s : Chats) : Prop := ∀ i turn, s.turns i = some turn → Whole s.log turn

theorem all_whole_move {s t : Chats} (hw : AllWhole s) (hlog : s.log <+: t.log) {i : Nat}
    {turn : Option Turn} (hturns : t.turns = (s.set i turn).turns)
    (hturn : ∀ x, turn = some x → Whole t.log x) : AllWhole t := by
  intro k x hk
  rw [hturns, set_turns] at hk
  split at hk
  · exact hturn x hk
  · exact (hw k x hk).longer hlog

theorem all_whole_step {s t : Chats} {a : Action} (hs : Sound s) (hw : AllWhole s)
    (h : s.step a = some t) : AllWhole t := by
  have hmoved := moved_of_step h
  have hlog := (longer_of_moved hs hmoved).1
  cases hmoved with
  | asked i data hi => exact all_whole_move (i := i) hw hlog rfl (by rintro _ ⟨⟩; trivial)
  | loaded i conversation_id data conversation hi hload =>
    refine all_whole_move (i := i) hw hlog rfl ?_
    rintro _ ⟨⟩
    exact whole_of_load hs hload
  | answered i => exact all_whole_move (i := i) hw hlog rfl (by rintro _ ⟨⟩; trivial)
  | written i => exact all_whole_move (i := i) hw hlog rfl (by rintro _ ⟨⟩; trivial)
  | committed i => exact all_whole_move (i := i) hw hlog rfl (by rintro _ ⟨⟩)
  | ended a i => exact all_whole_move (i := i) hw hlog rfl (by rintro _ ⟨⟩)

/-! ## What Gemini is sent -/

def said_by (role text : String) : Content where
  role := role
  text := text

/-- A committed exchange, as contents. -/
def Exchange.contents (e : Exchange) : List Content :=
  [said_by "user" e.question, said_by "model" e.answer]

/-- The messages that the window leaves out of `n`. -/
def left_out (chat : ChatSettings) (n : Nat) : Nat :=
  if chat.history_window ≤ 0 then (-chat.history_window).toNat
  else n - chat.history_window.toNat

/-- A request whose contents are the end of a conversation and the question. -/
structure Dialogue (chat : ChatSettings) (context question : String) (turns : List Exchange)
    (request : GenerateContent) : Prop where
  instruction : request.system_instruction =
    some (chat.system_prompt ++ "\n\nContext:\n" ++ context)
  contents : request.contents =
    (turns.flatMap Exchange.contents).drop (left_out chat (2 * turns.length)) ++
      [said_by "user" question]
  alternates : request.contents.IsChain (fun a b => a.role ≠ b.role)

theorem contents_append (before after : List LLMMessage) :
    GeminiLLMProvider.contents (before ++ after) =
      GeminiLLMProvider.contents before ++ GeminiLLMProvider.contents after := by
  unfold GeminiLLMProvider.contents
  exact List.filterMap_append

/-- The contents of what is said. -/
def content_of (m : UUID × Role × String) : Option Content :=
  (GeminiLLMProvider.ROLE_MAP m.2.1).map (fun role => { role, text := m.2.2 })

theorem contents_of_turns (turns : List Exchange) :
    (turns.flatMap Exchange.messages).map content_of =
      (turns.flatMap Exchange.contents).map some := by
  rw [List.map_flatMap, List.map_flatMap]
  rfl

theorem slice_of_history {α : Type} (chat : ChatSettings) (items : List α) :
    python_slice_from items (-chat.history_window) =
      items.drop (left_out chat items.length) := by
  unfold python_slice_from left_out
  split
  · rw [if_pos (by omega)]
  · rw [if_neg (by omega), Int.neg_neg]

theorem length_messages (turns : List Exchange) :
    (turns.flatMap Exchange.messages).length = 2 * turns.length := by
  induction turns with
  | nil => rfl
  | cons e turns ih =>
    rw [List.flatMap_cons, List.length_append, ih, List.length_cons]
    simp only [Exchange.messages, List.length_cons, List.length_nil]
    omega

/-- The sides take turns in a conversation and the question after it. -/
theorem sides_alternate (turns : List Exchange) (question : String) :
    (turns.flatMap Exchange.contents ++ [said_by "user" question]).IsChain
      (fun a b => a.role ≠ b.role) := by
  induction turns with
  | nil => exact .singleton _
  | cons e turns ih =>
    rw [List.flatMap_cons, Exchange.contents, List.append_assoc, List.cons_append,
      List.cons_append, List.nil_append]
    refine .cons_cons (by simp [said_by]) ?_
    cases turns with
    | nil => exact .cons_cons (by simp [said_by]) (.singleton _)
    | cons e' turns => exact .cons_cons (by simp [said_by]) ih

/-- Neither side of a conversation speaks as the system. -/
theorem role_of_turns {turns : List Exchange} {m : UUID × Role × String}
    (h : m ∈ turns.flatMap Exchange.messages) : m.2.1 ≠ .System := by
  obtain ⟨e, _, hm⟩ := List.mem_flatMap.mp h
  rcases List.mem_pair.mp hm with rfl | rfl <;> exact fun h => nomatch h

theorem dialogue_of_turns {conversation : Conversation} {turns : List Exchange}
    (h : conversation.messages.map ChatMessage.said = turns.flatMap Exchange.messages)
    (chat : ChatSettings) (context question : String) :
    Dialogue chat context question turns (GeminiLLMProvider.request
      (AnswerQuestionUseCase.llm_messages chat context conversation question)) := by
  have hlength : conversation.messages.length = 2 * turns.length := by
    rw [← length_messages, ← h, List.length_map]
  generalize hk : left_out chat (2 * turns.length) = k
  have hslice : python_slice_from conversation.messages (-chat.history_window) =
      conversation.messages.drop k := by
    rw [slice_of_history, hlength, hk]
  have hhistory : (conversation.messages.drop k).filterMap
      (fun m => content_of (ChatMessage.said m)) = (turns.flatMap Exchange.contents).drop k := by
    have hsome := congrArg (List.drop k) (contents_of_turns turns)
    rw [← h, List.map_map, ← List.map_drop, ← List.map_drop] at hsome
    have hkept := congrArg (List.filterMap id) hsome
    rw [List.filterMap_map, List.filterMap_map] at hkept
    exact hkept.trans List.filterMap_some
  have hcontents : GeminiLLMProvider.contents
      (AnswerQuestionUseCase.llm_messages chat context conversation question) =
        (turns.flatMap Exchange.contents).drop k ++ [said_by "user" question] := by
    rw [← hhistory]
    unfold AnswerQuestionUseCase.llm_messages
    rw [hslice, ← List.singleton_append, contents_append, contents_append]
    unfold GeminiLLMProvider.contents
    rw [List.filterMap_map]
    rfl
  have hparts : GeminiLLMProvider.system_parts
      (AnswerQuestionUseCase.llm_messages chat context conversation question) =
        [chat.system_prompt ++ "\n\nContext:\n" ++ context] := by
    unfold AnswerQuestionUseCase.llm_messages GeminiLLMProvider.system_parts
    rw [hslice, List.filter_cons_of_pos (by simp), List.filter_eq_nil_iff.mpr, List.map_singleton]
    intro m hm
    rcases List.mem_append.mp hm with hm | hm
    · obtain ⟨message, hmessage, rfl⟩ := List.mem_map.mp hm
      have hsaid := List.mem_map_of_mem (f := ChatMessage.said) (List.mem_of_mem_drop hmessage)
      rw [h] at hsaid
      have hrole : message.role ≠ .System := role_of_turns hsaid
      simpa using hrole
    · rw [List.mem_singleton.mp hm]
      simp
  refine ⟨?_, hk ▸ hcontents, ?_⟩
  · simp only [GeminiLLMProvider.request, hparts]
    rfl
  · simp only [GeminiLLMProvider.request, hcontents]
    refine (sides_alternate turns question).suffix ?_
    obtain ⟨before, hbefore⟩ := List.drop_suffix k (turns.flatMap Exchange.contents)
    exact ⟨before, by rw [← List.append_assoc, hbefore]⟩

/-! ## The law -/

/-- The call of the LLM for a turn that has loaded its conversation. -/
def completed (generate_content : GenerateContent → Except APIError (Option String))
    (chat : ChatSettings) (results : List SearchResult) (data : AnswerQuestionInput)
    (conversation : Conversation) : Except PyException String :=
  GeminiLLMProvider.complete generate_content (AnswerQuestionUseCase.llm_messages chat
    (AnswerQuestionUseCase.context results) conversation data.question)

/-- However many turns run beside each other: a turn that calls the LLM sends Gemini one
dialogue, the end of the exchanges that were committed when it loaded them and its own
question, and what it gets is what Gemini makes of that. -/
theorem every_request_is_a_dialogue {s : Chats} (h : Reachable Chats.step {} s) {i : Nat}
    {data : AnswerQuestionInput} {conversation : Conversation}
    (hi : s.turns i = some (.Loaded data conversation)) (chat : ChatSettings)
    (results : List SearchResult) :
    ∃ turns request, turns <+: turns_of s.log conversation.id ∧
      Dialogue chat (AnswerQuestionUseCase.context results) data.question turns request ∧
      ∀ generate_content, completed generate_content chat results data conversation =
        match generate_content request with
        | .ok text => .ok (text.getD "")
        | .error e =>
          if e.code = 429 then .error (.Domain GeminiLLMProvider.rate_limit)
          else .error e.exception := by
  have hboth : Sound s ∧ AllWhole s := by
    refine reachable_invariant (I := fun s => Sound s ∧ AllWhole s) ⟨sound_init, ?_⟩ ?_ h
    · intro i turn hi
      cases hi
    · intro s a t hs hstep
      exact ⟨sound_step hs.1 hstep, all_whole_step hs.1 hs.2 hstep⟩
  obtain ⟨turns, hturns, hsaid⟩ := hboth.2 i _ hi
  exact ⟨turns, _, hturns, dialogue_of_turns hsaid chat _ _, fun _ => rfl⟩

/-- Three turns on one conversation: the last two load it when one exchange is
committed. -/
def a_question_in_between : List Action :=
  let ask (conversation_id : Option UUID) : AnswerQuestionInput := {
    tenant_id := "acme", question := "why?", conversation_id }
  [.Ask 0 (ask none), .Load 0 ⟨1⟩, .Answer 0 "so" noon ⟨2⟩ ⟨3⟩, .Write 0 noon, .Commit 0,
    .Ask 1 (ask (some ⟨1⟩)), .Ask 2 (ask (some ⟨1⟩)), .Load 1 ⟨4⟩, .Load 2 ⟨5⟩,
    .Answer 1 "no" noon ⟨6⟩ ⟨7⟩, .Write 1 noon, .Commit 1]

theorem a_question_in_between_continues_the_first :
    ∃ s data conversation, run Chats.step {} a_question_in_between = some s ∧
      s.log.length = 2 ∧ s.turns 2 = some (.Loaded data conversation) ∧
      ∃ turns request, turns <+: turns_of s.log conversation.id ∧
        Dialogue {} (AnswerQuestionUseCase.context []) data.question turns request ∧
        ∀ generate_content, completed generate_content {} [] data conversation =
          match generate_content request with
          | .ok text => .ok (text.getD "")
          | .error e =>
            if e.code = 429 then .error (.Domain GeminiLLMProvider.rate_limit)
            else .error e.exception := by
  have hrun : (run Chats.step {} a_question_in_between).map (fun s =>
      decide (s.log.length = 2) &&
        (s.turns 2).any (fun turn => (s.answer 2 "no" noon ⟨8⟩ ⟨9⟩ turn).isSome)) = some true := by
    decide +kernel
  obtain ⟨s, hs, hfacts⟩ := Option.map_eq_some_iff.mp hrun
  rw [Bool.and_eq_true, decide_eq_true_eq] at hfacts
  obtain ⟨hlog, hnext⟩ := hfacts
  obtain ⟨turn, hi, hanswer⟩ := (Option.any_eq_true _ _).1 hnext
  -- the turn that can be answered next is the one that has loaded
  cases turn with
  | Loaded data conversation =>
    exact ⟨s, data, conversation, hs, hlog, hi, every_request_is_a_dialogue ⟨_, hs⟩ hi {} []⟩
  | _ => cases hanswer

end conversation_log

end cortex_rag
