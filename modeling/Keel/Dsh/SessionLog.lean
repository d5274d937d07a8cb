import Mathlib.Algebra.Order.Group.Nat
import Keel.Proto.Json

/-! # The session log and its repair

A session is a log of numbered events. A crash may leave the last turn open; the
repair closes it with synthetic events behind the log. Payloads that no function
here reads are JSON values.
-/

namespace Keel.Session

open List

inductive ContentBlock where
  | text (text : String)
  | reasoning (text : String)
  | image (attachment : Json)
  | toolCall (id name arguments : String)
  | toolResult (toolCallId : String) (content : List ContentBlock) (isError : Option Bool)

namespace ContentBlock

mutual

def beq : ContentBlock → ContentBlock → Bool
  | .text a, .text b => a == b
  | .reasoning a, .reasoning b => a == b
  | .image a, .image b => decide (a = b)
  | .toolCall id name arguments, .toolCall id' name' arguments' =>
    id == id' && (name == name' && arguments == arguments')
  | .toolResult id content isError, .toolResult id' content' isError' =>
    id == id' && (beqBlocks content content' && isError == isError')
  | _, _ => false

def beqBlocks : List ContentBlock → List ContentBlock → Bool
  | [], [] => true
  | a :: as, b :: bs => beq a b && beqBlocks as bs
  | _, _ => false

end

mutual

theorem beq_iff : ∀ a b : ContentBlock, beq a b = true ↔ a = b
  | .text a, b | .reasoning a, b | .image a, b | .toolCall id name arguments, b =>
    by cases b <;> simp [beq]
  | .toolResult id content isError, b => by cases b <;> simp [beq, beqBlocks_iff content]

theorem beqBlocks_iff : ∀ as bs : List ContentBlock, beqBlocks as bs = true ↔ as = bs
  | [], bs => by cases bs <;> simp [beqBlocks]
  | a :: as, bs => by
      cases bs with
      | nil => simp [beqBlocks]
      | cons b bs => simp [beqBlocks, beq_iff a b, beqBlocks_iff as bs]

end

instance : DecidableEq ContentBlock := fun a b => decidable_of_iff _ (beq_iff a b)

end ContentBlock

inductive Role where
  | system
  | user
  | assistant
deriving DecidableEq

/-- The provider and model of an assistant message, and what its adapter needs to replay it. -/
structure AssistantProvenance where
  provider : String
  model : String
  replayState : Option Json := none
deriving DecidableEq

/-- One named contribution to a snapshot. -/
structure ContextSnapshotSection where
  name : String
  text : String
deriving DecidableEq

/-- The kind of information a plugin supplies. -/
inductive ContextForm where
  | instructions
  | catalog
  | snapshot (sections : List ContextSnapshotSection)
  | notice (summary : String)
  | relay
  | recall
deriving DecidableEq

inductive MessageSource where
  | user
  | plugin (plugin : String) (form : Option ContextForm)
  | model (provenance : AssistantProvenance)
  | tool (callId : String)
deriving DecidableEq

structure Message where
  id : String
  role : Role
  content : List ContentBlock
  source : MessageSource
deriving DecidableEq

inductive TurnEndReason where
  | completed
  | aborted (reason : Json)
  | blocked
  | error (error : Json)
  | maxTokens
  | interrupted

/-- The identity of a failed tool result. -/
structure ToolErrorRef where
  name : String
  code : String
deriving DecidableEq

/-- Which fields of a call configuration an adapter filled in. -/
structure AdapterDefaults where
  reasoningEffort : Option Bool := none
  maxTokens : Option Bool := none

/-- Logged request state outside the derived history. -/
structure EpochHeader where
  config : Json
  adapterDefaults : Option AdapterDefaults := none
  system : Option String := none
  tools : Option (List Json) := none

/-- The metadata of one resolved model route. -/
structure RequestContext where
  provider : String
  model : String
  contextWindow : Option Nat := none

inductive EventData where
  | turnStart (turn : Nat)
  | turnEnd (turn : Nat) (reason : TurnEndReason)
  | stepStart (turn step : Nat)
  | stepEnd (turn step : Nat)
  | userMessage (message : Message)
  | assistantChunk (turn step : Nat) (chunk : Json)
  | assistantMessage (turn step : Nat) (message : Message) (usage : Option Json)
  | toolCall (turn step : Nat) (callId name arguments : String)
  | toolResult (turn step : Nat) (message : Message) (error : Option ToolErrorRef)
      (toolMeta : Option Json)
  | todoWrite (todos : Json)
  | requestHeader (header : EpochHeader) (reason : Json)
  | requestContext (context : RequestContext)
  | sessionEndSeed
  | extension (eventType : String) (data : Json)

inductive SurfaceOp where
  | append
  | replace (first last : Nat)

structure Event where
  seq : Nat
  time : Nat
  data : EventData
  sourceEventSeqs : Option (List Nat) := none
  surfaceOp : Option SurfaceOp := none
  ignorable : Option Bool := none

inductive SessionOrigin where
  | subagent

/-- The metadata of a session, kept outside its log. -/
structure Header where
  version : Nat
  id : String
  createdAt : Nat
  cwd : Option String := none
  parentSession : Option String := none
  seedLength : Option Nat := none
  origin : Option SessionOrigin := none
  delegationDepth : Option Nat := none
  agentPreset : Option String := none

def sessionFormatVersion : Nat := 0

def EventData.eventType : EventData → String
  | .turnStart .. => "turn/start"
  | .turnEnd .. => "turn/end"
  | .stepStart .. => "step/start"
  | .stepEnd .. => "step/end"
  | .userMessage .. => "user/message"
  | .assistantChunk .. => "assistant/chunk"
  | .assistantMessage .. => "assistant/message"
  | .toolCall .. => "tool/call"
  | .toolResult .. => "tool/result"
  | .todoWrite .. => "todo/write"
  | .requestHeader .. => "request/header"
  | .requestContext .. => "request/context"
  | .sessionEndSeed => "session/end-seed"
  | .extension eventType _ => eventType

/-- The event types the readers of this build may interpret. -/
def knownSessionEventTypes : List String :=
  ["agent-preset/selected", "agent/inbox/spliced", "approval/asked", "approval/decided",
    "approval/policy", "assistant/chunk", "assistant/message", "command/done", "command/run",
    "compaction/end", "compaction/prune", "compaction/start", "compaction/summary",
    "decision/receipt", "feedback/record", "goal/change", "hook/invoked", "hook/result",
    "llm/retry", "llm/retry-started", "permission/preset", "plan/mode", "request/context",
    "request/header", "sandbox/mode", "schedule/change", "session/end-seed", "session/title",
    "session/title-llm-request", "step/end", "step/start", "subagent/descriptor", "todo/write",
    "tool-workflow/agent-end", "tool-workflow/agent-start", "tool-workflow/run-end",
    "tool-workflow/run-start", "tool/call", "tool/code-dispatch", "tool/code-dispatch-start",
    "tool/result", "turn/end", "turn/start", "user/message", "web/deepseek-search-llm-request"]

def isKnownSessionEventType (eventType : String) : Bool :=
  knownSessionEventTypes.contains eventType

/-- A reader of this build may keep the event. -/
def Event.isReadable (event : Event) : Bool :=
  isKnownSessionEventType event.data.eventType || event.ignorable == some true

section Repair

/-- A requested tool call without a result. -/
structure PendingCall where
  callId : String
  step : Nat
  callSeq : Option Nat := none

/-- What is open at the end of a log. -/
structure OpenTail where
  turn : Option Nat := none
  step : Option Nat := none
  pending : List PendingCall := []

/-- The calls an assistant message asks for. -/
def requestedCalls (step : Nat) (content : List ContentBlock) : List PendingCall :=
  content.filterMap fun block =>
    match block with
    | .toolCall id _ _ => some { callId := id, step }
    | _ => none

/-- Note the start of a call at its first request. -/
def noteCallStart (pending : List PendingCall) (callId : String) (seq : Nat) : List PendingCall :=
  match pending with
  | [] => []
  | entry :: rest =>
    if entry.callId = callId then { entry with callSeq := some seq } :: rest
    else entry :: noteCallStart rest callId seq

def OpenTail.scan (tail : OpenTail) (event : Event) : OpenTail :=
  match event.data with
  | .turnStart turn => { turn := some turn }
  | .turnEnd .. => {}
  | .stepStart _ step => { tail with step := some step }
  | .stepEnd .. => { tail with step := none, pending := [] }
  | .assistantMessage _ step message _ =>
    { tail with pending := tail.pending ++ requestedCalls step message.content }
  | .toolCall _ _ callId _ _ =>
    { tail with pending := noteCallStart tail.pending callId event.seq }
  | .toolResult _ _ message _ _ =>
    match message.source with
    | .tool callId =>
      { tail with pending := tail.pending.filter fun entry => entry.callId ≠ callId }
    | _ => tail
  | _ => tail

def openTail (events : List Event) : OpenTail := events.foldl OpenTail.scan {}

def outcomeUnknownText : String :=
  "The tool call was interrupted after it was recorded, but no result was durably " ++
    "recorded. Its outcome is unknown. Decide whether to retry from the tool semantics: " ++
    "retry only if the operation is read-only or idempotent; if it may have side effects, " ++
    "first verify external state or ask the user. Do not retry blindly."

def notStartedText : String :=
  "The tool call was interrupted before the Harness recorded it as started. Retry it if " ++
    "it is still needed."

/-- The synthetic error result of a call. -/
def callCloser (turn time seq : Nat) (entry : PendingCall) : Event :=
  let started := entry.callSeq.isSome
  { seq
    time
    data := .toolResult turn entry.step
      { id := "interrupted-tool-result-" ++ entry.callId ++ "-" ++ toString seq
        role := .user
        content := [.toolResult entry.callId
          [.text (if started then outcomeUnknownText else notStartedText)] (some true)]
        source := .tool entry.callId }
      (some (if started then ⟨"ToolOutcomeUnknownError", "TOOL_OUTCOME_UNKNOWN"⟩
        else ⟨"ToolNotStartedError", "TOOL_NOT_STARTED"⟩))
      none
    surfaceOp := some .append
    sourceEventSeqs := entry.callSeq.map fun callSeq => [callSeq] }

/-- The events that close an open turn: its calls, its step, then the turn. -/
def interruptedTurnClosers (events : List Event) : List Event :=
  let tail := openTail events
  match tail.turn, events.getLast? with
  | some turn, some last =>
    let calls := tail.pending.mapIdx fun index entry =>
      callCloser turn last.time (last.seq + 1 + index) entry
    let seq := last.seq + 1 + tail.pending.length
    match tail.step with
    | some step =>
      calls ++ [{ seq, time := last.time, data := .stepEnd turn step },
        { seq := seq + 1, time := last.time, data := .turnEnd turn .interrupted }]
    | none => calls ++ [{ seq, time := last.time, data := .turnEnd turn .interrupted }]
  | _, _ => []

end Repair

section Numbering

/-- The events are numbered consecutively from `start`. -/
def Contiguous : Nat → List Event → Prop
  | _, [] => True
  | start, event :: rest => event.seq = start ∧ Contiguous (start + 1) rest

instance : ∀ start events, Decidable (Contiguous start events)
  | _, [] => isTrue trivial
  | start, event :: rest =>
    @instDecidableAnd _ _ (inferInstanceAs (Decidable (event.seq = start)))
      (instDecidableContiguous (start + 1) rest)

variable {start : Nat} {events : List Event}

theorem contiguous_append {first second : List Event} :
    Contiguous start (first ++ second) ↔
      Contiguous start first ∧ Contiguous (start + first.length) second := by
  induction first generalizing start with
  | nil => simp [Contiguous]
  | cons event rest ih =>
    simp only [cons_append, Contiguous, ih, length_cons, and_assoc,
      Nat.add_assoc, Nat.add_comm 1]

theorem Contiguous.take (hevents : Contiguous start events)
    (count : Nat) : Contiguous start (events.take count) := by
  rw [← take_append_drop count events, contiguous_append] at hevents
  exact hevents.1

theorem Contiguous.getLast (hevents : Contiguous start events) {last : Event}
    (hlast : events.getLast? = some last) : last.seq + 1 = start + events.length := by
  obtain ⟨init, rfl⟩ := getLast?_eq_some_iff.mp hlast
  rw [contiguous_append] at hevents
  obtain ⟨-, hseq, -⟩ := hevents
  rw [hseq, length_append, length_singleton, Nat.add_assoc]

theorem contiguous_callClosers (turn time start : Nat) (pending : List PendingCall) :
    Contiguous start (pending.mapIdx fun index entry =>
      callCloser turn time (start + index) entry) := by
  induction pending generalizing start with
  | nil => trivial
  | cons entry rest ih =>
    rw [mapIdx_cons]
    refine ⟨rfl, ?_⟩
    have hshift : (fun index entry => callCloser turn time (start + (index + 1)) entry) =
        fun index entry => callCloser turn time (start + 1 + index) entry := by
      funext index entry
      rw [Nat.add_right_comm, Nat.add_assoc]
    rw [hshift]
    exact ih (start + 1)

theorem contiguous_interruptedTurnClosers (hevents : Contiguous 0 events) :
    Contiguous events.length (interruptedTurnClosers events) := by
  rw [interruptedTurnClosers]
  split
  next turn last _ hlast =>
    rw [← Nat.zero_add events.length, ← hevents.getLast hlast]
    have hcalls := contiguous_callClosers turn last.time (last.seq + 1) (openTail events).pending
    dsimp only
    split
    next step _ => exact contiguous_append.2 ⟨hcalls, by simp [Contiguous]⟩
    · exact contiguous_append.2 ⟨hcalls, by simp [Contiguous]⟩
  · trivial

theorem isReadable_interruptedTurnClosers :
    ∀ closer ∈ interruptedTurnClosers events, closer.isReadable = true := by
  have hcalls : ∀ turn time start, ∀ closer ∈ ((openTail events).pending.mapIdx fun index entry =>
      callCloser turn time (start + index) entry), closer.isReadable = true := by
    intro turn time start closer hcloser
    obtain ⟨index, hindex, rfl⟩ := mem_mapIdx.mp hcloser
    rfl
  intro closer hcloser
  rw [interruptedTurnClosers] at hcloser
  split at hcloser
  next turn last _ _ =>
    dsimp only at hcloser
    split at hcloser
    next step _ =>
      rcases mem_append.mp hcloser with hcall | hboundary
      · exact hcalls turn last.time (last.seq + 1) closer hcall
      · rw [mem_cons, mem_singleton] at hboundary
        rcases hboundary with rfl | rfl <;> rfl
    · rcases mem_append.mp hcloser with hcall | hboundary
      · exact hcalls turn last.time (last.seq + 1) closer hcall
      · obtain rfl := mem_singleton.mp hboundary
        rfl
  · cases hcloser

end Numbering

end Keel.Session
