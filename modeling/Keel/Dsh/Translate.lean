import Keel.Proto.Agent

/-! # Session events of the embedded runtime, translated

The bridge forwards the committed events of a session to the engine, each
translated into agent events on its own. Parsing of tool arguments and of stored
receipts is the JSON library's and is a parameter.
-/

namespace Keel

/-- The two parses the translation asks the JSON library for. -/
class JsonParser where
  value : String → Option Json
  receipt : Json → Option DecisionEvent

/-- The chunks the translation tells apart. -/
inductive StreamChunk where
  | textDelta (text : String)
  | reasoningDelta (text : String)
  | usage (inputTokens outputTokens : Nat)
  | other
deriving DecidableEq

structure LlmFailure where
  message : String
  code : String
deriving DecidableEq

inductive TurnEndReason where
  | completed
  | aborted
  | blocked
  | error (failure : LlmFailure)
  | maxTokens
  | interrupted
deriving DecidableEq

/-- A tool-result block. Blocks of its content that are not text are absent. -/
structure ToolResultBlock where
  toolCallId : String
  isError : Option Bool
  content : List (Option String)
deriving DecidableEq

/-- A committed session event, with the fields the translation reads. -/
inductive SessionEvent where
  | turnStart
  | turnEnd (reason : TurnEndReason)
  | stepStart
  | stepEnd
  | userMessage
  | assistantChunk (chunk : StreamChunk)
  | assistantMessage (id : String)
  | toolCall (callId name arguments : String)
  /-- The first content block of the result message, when it is a tool result. -/
  | toolResult (block : Option ToolResultBlock)
  | extension (eventType : String) (data : Json)
  | other
deriving DecidableEq

/-- The text blocks joined, cut to `cap` characters once they exceed `cap`
bytes. -/
def flattenTextCapped (content : List (Option String)) (cap : Nat) : Option String :=
  let text := content.foldl (fun text block => text ++ block.getD "") ""
  if text.isEmpty then none
  else if text.utf8ByteSize ≤ cap then some text
  else some (String.ofList (text.toList.take cap) ++ "…")

/-- The string under a key of an object; other values have none. -/
def Json.stringArg (args : Json) (key : String) : Option String :=
  match args with
  | .object fields =>
    match fields.lookup key with
    | some (.string value) => some value
    | _ => none
  | _ => none

def Json.filePathArg (args : Json) : String :=
  ((args.stringArg "file_path").or (args.stringArg "path")).getD ""

/-- Arguments that do not parse read as null. -/
def mapToolCall [JsonParser] (name rawArguments : String) : ToolCall :=
  let args := (JsonParser.value rawArguments).getD .null
  if name = "bash" ∨ name = "shell" then .exec ((args.stringArg "command").getD rawArguments)
  else if name = "read" ∨ name = "read_file" then .readFile args.filePathArg
  else if name = "write" ∨ name = "write_file" then
    .writeFile args.filePathArg (args.stringArg "content")
  else if name = "edit" ∨ name = "edit_file" ∨ name = "str_replace_editor" then
    .editFile args.filePathArg (args.stringArg "old_string") (args.stringArg "new_string")
  else if name = "grep" then .search ((args.stringArg "pattern").getD "") (args.stringArg "path")
  else if name = "glob" then .glob ((args.stringArg "pattern").getD "")
  else .unknown name (if args = .null then none else some args)

def translate [JsonParser] : SessionEvent → List AgentEvent
  | .extension eventType data =>
    if eventType = "decision/receipt" then
      ((JsonParser.receipt data).map fun event => AgentEvent.decision event.bounded).toList
    else []
  | .assistantChunk (.textDelta text) => [.textDelta text]
  | .assistantChunk (.reasoningDelta text) => [.reasoningDelta text]
  | .assistantChunk (.usage inputTokens outputTokens) => [.usage inputTokens outputTokens]
  | .assistantChunk .other => []
  | .assistantMessage id => [.assistantMessageCompleted id]
  | .toolCall callId name arguments => [.toolCall callId (mapToolCall name arguments)]
  | .toolResult none => []
  | .toolResult (some block) =>
    [.toolResult block.toolCallId (block.isError.getD false)
      (flattenTextCapped block.content 4000) none]
  | .turnEnd (.error failure) => [.error (failure.message ++ " (" ++ failure.code ++ ")")]
  | .turnEnd _ | .turnStart | .stepStart | .stepEnd | .userMessage | .other => []

/-- The events that end or confirm something on the engine's side. -/
def AgentEvent.isControl : AgentEvent → Bool
  | .steered .. | .done .. => true
  | _ => false

/-- No session event is translated into a steer boundary or a terminal event. -/
theorem translate_not_isControl [JsonParser] (event : SessionEvent) :
    ∀ agentEvent ∈ translate event, agentEvent.isControl = false := by
  intro agentEvent hmem
  cases event with
  | extension eventType data =>
    simp only [translate] at hmem
    split at hmem
    · simp only [Option.mem_toList, Option.map_eq_some_iff] at hmem
      obtain ⟨receipt, -, rfl⟩ := hmem
      rfl
    · simp at hmem
  | assistantChunk chunk =>
    cases chunk <;> simp_all [translate, AgentEvent.isControl]
  | toolResult block =>
    cases block <;> simp_all [translate, AgentEvent.isControl]
  | turnEnd reason =>
    cases reason <;> simp_all [translate, AgentEvent.isControl]
  | _ => simp_all [translate, AgentEvent.isControl]

end Keel
