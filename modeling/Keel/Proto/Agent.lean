import Keel.Proto.Decision

/-! # Agent-side wire types

Run requests, decoded tool calls and the normalized event that every harness
emits.
-/

namespace Keel

inductive HarnessId where
  | claudeCode
  | codex
  | cursor
  | grok
  | hermes
  | pi
  | dsh
  | mock
deriving DecidableEq

inductive ReasoningLevel where
  | minimal
  | low
  | medium
  | high
  | xHigh
  | max
  | ultra
  | ultracode
  | ultrathink
deriving DecidableEq

inductive SandboxLevel where
  | readOnly
  | workspaceWrite
  | dangerFullAccess
deriving DecidableEq

structure RunRequest where
  prompt : String
  harness : Option HarnessId
  model : Option String
  reasoning : Option ReasoningLevel
  modelOptions : List (String × Json)
  cwd : String
  sandbox : SandboxLevel
  autoApprove : Bool
  resume : Option String
  attachments : List String
deriving DecidableEq

/-- The session-scoped singleton id of the live plan chip. -/
def livePlanToolId : String := "acp-plan"

structure TodoItem where
  text : String
  done : Bool
deriving DecidableEq

/-- A decoded tool invocation, reduced to the fields each kind renders. -/
inductive ToolCall where
  | exec (command : String)
  | readFile (path : String)
  | writeFile (path : String) (content : Option String)
  | editFile (path : String) (oldString newString : Option String)
  | applyPatch (path : Option String)
  | search (pattern : String) (path : Option String)
  | glob (pattern : String)
  | webFetch (url : String) (prompt : Option String)
  | webSearch (query : String)
  | todo (items : List TodoItem)
  | mcp (server tool : String) (input : Option Json)
  | unknown (name : String) (input : Option Json)
deriving DecidableEq

structure SlashCommand where
  name : String
  description : String
  inputHint : Option String
deriving DecidableEq

/-- A file modification carried on a tool result. No old text means a new file. -/
structure ToolDiff where
  path : String
  oldText : Option String
  newText : String
deriving DecidableEq

structure UserInputQuestion where
  id : String
  header : String
  question : String
  options : List String
  multiSelect : Bool
deriving DecidableEq

structure UserInputAnswer where
  questionId : String
  labels : List String
deriving DecidableEq

inductive DoneStatus where
  | completed
  | interrupted
  | errored
deriving DecidableEq

/-- The normalized streaming event every harness emits. -/
inductive AgentEvent where
  | sessionStarted (harness : HarnessId) (model : String) (tools : List String) (cwd : String)
      (sessionId : String) (assistantMessageId : String)
  | textDelta (text : String)
  | reasoningDelta (text : String)
  | decision (event : DecisionEvent)
  | decisionActivity (activity : Option DecisionActivity)
  | assistantMessageCompleted (assistantMessageId : String)
  | toolCall (id : String) (call : ToolCall)
  | toolResult (id : String) (isError : Bool) (output : Option String) (diff : Option ToolDiff)
  | usage (inputTokens outputTokens : Nat)
  | availableCommands (commands : List SlashCommand)
  | error (message : String)
  | inputRequested (requestId : String) (questions : List UserInputQuestion)
  | inputResolved (requestId : String)
  | steered (assistantMessageId nextAssistantMessageId : Option String)
  | done (status : DoneStatus) (result error sessionId : Option String)
deriving DecidableEq

/-- The live status of a chat's session. -/
inductive SessionStatus where
  | idle
  | working
  | awaitingInput
  | errored
deriving DecidableEq

end Keel
