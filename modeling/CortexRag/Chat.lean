-- The chat use case in its parts: the conversation that a turn loads or
-- creates, the messages for the LLM, and what a turn appends and stores.
import CortexRag.DocumentUseCases

namespace cortex_rag

structure SearchInput where
  tenant_id : String
  query : String
  top_k : Nat := 10
deriving DecidableEq

structure SearchHit where
  chunk_id : UUID
  score : PyFloat
  content : String
deriving DecidableEq

structure AnswerQuestionInput where
  tenant_id : String
  question : String
  conversation_id : Option UUID := none
  top_k : Nat := 5
deriving DecidableEq

structure SourceReference where
  chunk_id : UUID
  score : PyFloat
deriving DecidableEq

structure AnswerQuestionOutput where
  answer : String
  conversation_id : UUID
  sources : List SourceReference
deriving DecidableEq

/-- `items[start:]`. -/
def python_slice_from {α : Type} (items : List α) (start : Int) : List α :=
  if 0 ≤ start then items.drop start.toNat else items.drop (items.length - (-start).toNat)

namespace SemanticSearchUseCase

def hits (results : List SearchResult) : List SearchHit :=
  results.map (fun result =>
    { chunk_id := result.id, score := result.score, content := result.payload.content })

end SemanticSearchUseCase

namespace AnswerQuestionUseCase

def context (results : List SearchResult) : String :=
  String.intercalate "\n\n" (results.map (fun r => r.payload.content))

def sources (results : List SearchResult) : List SourceReference :=
  results.map (fun r => { chunk_id := r.id, score := r.score })

/-- The messages for the LLM: the prompt with the context, the last messages of
the conversation, and the question. -/
def llm_messages (settings : ChatSettings) (context : String) (conversation : Conversation)
    (question : String) : List LLMMessage :=
  let history := python_slice_from conversation.messages (-settings.history_window)
  { role := .System, content := settings.system_prompt ++ "\n\nContext:\n" ++ context } ::
    (history.map (fun m => { role := m.role, content := m.content }) ++
      [{ role := .User, content := question }])

def not_found (conversation_id : UUID) : DomainError :=
  .EntityNotFoundError ("Conversation " ++ conversation_id.str ++ " not found.")

/-- `_load_or_create_conversation`. -/
def load_or_create_conversation (db : Database) (fresh_id : UUID) (data : AnswerQuestionInput) :
    Except PyException Conversation :=
  match data.conversation_id with
  | none => .ok { id := fresh_id, tenant_id := data.tenant_id }
  | some id =>
    match SqlAlchemyConversationRepository.get db data.tenant_id id with
    | none => .error (.Domain (not_found id))
    | some conversation => .ok conversation

def question_message (data : AnswerQuestionInput) (now : DateTime) (id : UUID) : ChatMessage where
  id := id
  role := .User
  content := data.question
  created_at := some now

def answer_message (answer : String) (now : DateTime) (id : UUID) : ChatMessage where
  id := id
  role := .Assistant
  content := answer
  created_at := some now

/-- The conversation with the question and the answer of the turn. -/
def appended (conversation : Conversation) (question answer : ChatMessage) : Conversation :=
  { conversation with messages := conversation.messages ++ [question, answer] }

/-- The write of the turn: `update` with a conversation id, `add` without one. -/
def stored (db : Database) (db_now : DateTime) (data : AnswerQuestionInput)
    (conversation : Conversation) : Except PyException Database :=
  match data.conversation_id with
  | some _ => SqlAlchemyConversationRepository.update db db_now conversation
  | none => SqlAlchemyConversationRepository.add db db_now conversation

end AnswerQuestionUseCase

end cortex_rag
