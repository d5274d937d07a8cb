import Keel.Dsh.JsonSchema
import Keel.Dsh.ScopedLayers
import Keel.Foundation.Trace

/-! # The tool runtime

One call goes through a pre-execute policy, guards, an around-dispatch policy that ends in
the tool body, and a post-execute policy. The policies are listeners around a built-in
behavior: each may author the stage's outcome or delegate, at most once. What they and the
body decide are actions, and between any two of them the outside may change: signals abort,
tools and guards come and go, the call's visible signal is replaced.
-/

namespace Keel.Tools

open Scoped (ScopeKey ScopeTree shadow)

def TOOL_ABORTED : String := "ABORTED"

def TOOL_ABORTED_BEFORE_DISPATCH : String := "ABORTED_BEFORE_DISPATCH"

/-- Which aborts are seen: a fused signal aborts with any of its sources. -/
inductive AbortSignal where
  | never
  | controller (id : Nat)
  | any (signals : List AbortSignal)

namespace AbortSignal

mutual

def aborted (sources : List Nat) : AbortSignal → Bool
  | .never => false
  | .controller id => sources.contains id
  | .any signals => anyAborted sources signals

def anyAborted (sources : List Nat) : List AbortSignal → Bool
  | [] => false
  | signal :: signals => aborted sources signal || anyAborted sources signals

end

end AbortSignal

structure ToolErrorInfo where
  name : String
  code : String

structure ToolFailure where
  message : String
  info : Option ToolErrorInfo

/-- The known error classes. -/
inductive ErrorClass where
  | toolNotFound
  | toolOutput
  | toolArgs
  | jsonSchema
  | harness (code : String)
  | other

/-- `anyhow::Error`: its text and the known class in its chain. -/
structure ToolError where
  message : String
  kind : ErrorClass

/-- Structured metadata for known error classes. -/
def errorInfo (error : ToolError) : Option ToolErrorInfo :=
  match error.kind with
  | .toolNotFound => some ⟨"ToolNotFoundError", "UNKNOWN_TOOL"⟩
  | .toolOutput => some ⟨"ToolOutputError", "INVALID_TOOL_OUTPUT"⟩
  | .toolArgs => some ⟨"ToolArgsError", "INVALID_ARGS"⟩
  | .jsonSchema => some ⟨"JsonSchemaError", "UNSUPPORTED_SCHEMA"⟩
  | .harness code => some ⟨"HarnessError", code⟩
  | .other => none

def ToolNotFoundError (toolName : String) : ToolError :=
  ⟨"unknown tool \"" ++ toolName ++ "\"", .toolNotFound⟩

def ToolOutputError (toolName : String) (violations : List String) : ToolError :=
  ⟨"tool \"" ++ toolName ++ "\" returned invalid output: " ++ "; ".intercalate violations,
    .toolOutput⟩

inductive ContentBlock where
  | text (text : String)
  | reasoning (text : String)
  | image (attachment : Value)
  | toolCall (id name arguments : String)
  | toolResult (toolCallId : String) (content : List ContentBlock) (isError : Option Bool)

/-- What a block contributes to a failure's message. -/
def ContentBlock.feedback : ContentBlock → String
  | .text content => content
  | .reasoning _ => "[reasoning content]"
  | .image _ => "[image content]"
  | .toolCall .. => "[tool-call content]"
  | .toolResult .. => "[tool-result content]"

def failureMessageFromContent (content : List ContentBlock) : String :=
  let joined := "\n".intercalate (content.map ContentBlock.feedback)
  if joined.isEmpty then "tool result blocked by post-execute policy" else joined

/-- The outcome of one call. -/
inductive ToolExecutionResult (Message : Type) where
  | success (value : Value) (content : List ContentBlock) (metadata : Option Value)
      (additionalContexts : List Message) (concludesTurn : Bool)
  | failure (error : ToolFailure) (content : List ContentBlock) (metadata : Option Value)
      (additionalContexts : List Message)

section Results

variable {Message : Type}

namespace ToolExecutionResult

def isError : ToolExecutionResult Message → Bool
  | .success .. => false
  | .failure .. => true

def additionalContexts : ToolExecutionResult Message → List Message
  | .success _ _ _ contexts _ | .failure _ _ _ contexts => contexts

def withContent (content : List ContentBlock) :
    ToolExecutionResult Message → ToolExecutionResult Message
  | .success value _ metadata contexts concludes => .success value content metadata contexts concludes
  | .failure error _ metadata contexts => .failure error content metadata contexts

def withAdditionalContexts (contexts : List Message) :
    ToolExecutionResult Message → ToolExecutionResult Message
  | .success value content metadata _ concludes => .success value content metadata contexts concludes
  | .failure error content metadata _ => .failure error content metadata contexts

def code : ToolExecutionResult Message → Option String
  | .success .. => none
  | .failure error _ _ _ => error.info.map ToolErrorInfo.code

end ToolExecutionResult

def toolErrorResult (error : ToolError) : ToolExecutionResult Message :=
  .failure ⟨error.message, errorInfo error⟩ [.text ("Error: " ++ error.message)] none []

def abortedResult (message code : String) (prior : Option (ToolExecutionResult Message)) :
    ToolExecutionResult Message :=
  .failure ⟨message, some ⟨"AbortError", code⟩⟩ [.text ("Error: " ++ message)] none
    ((prior.map ToolExecutionResult.additionalContexts).getD [])

/-- Cancellation supersedes success after the body was invoked. -/
def toolAbortedResult (prior : Option (ToolExecutionResult Message)) : ToolExecutionResult Message :=
  abortedResult "tool call aborted" TOOL_ABORTED prior

def toolAbortedBeforeDispatchResult (prior : Option (ToolExecutionResult Message)) :
    ToolExecutionResult Message :=
  abortedResult "tool call aborted before dispatch" TOOL_ABORTED_BEFORE_DISPATCH prior

end Results

section Registry

/-- The output contract of a tool. -/
structure ToolOutputDefinition where
  schema : Value
  render : Value → Value → Except ToolError (List ContentBlock)
  presentationMeta : Option (Value → Value → Except ToolError Value)

structure ToolDefinition where
  name : String
  description : String
  /-- The JSON Schema object of the arguments. -/
  parameters : List (String × Value)
  output : ToolOutputDefinition
  /-- Whether it transforms the content of its outcomes. -/
  finalizeContent : Bool
  timeoutMs : Option Float
  /-- Whether two calls may overlap, by the arguments. -/
  isConcurrencySafe : Option (Value → Bool)

structure CompiledToolRestriction where
  allow : Option (List String)
  deny : Option (List String)

/-- One scope's contribution; a guard is known by a number. -/
structure ToolLayer where
  tools : List (String × ToolDefinition)
  restrictions : List CompiledToolRestriction
  guards : List Nat

def ToolLayer.admits (layer : ToolLayer) (name : String) : Bool :=
  layer.restrictions.all fun filter =>
    (filter.allow.all fun allow => allow.contains name) &&
      filter.deny.all fun deny => ! deny.contains name

def ToolLayer.guardReason (layer : ToolLayer) (answers : Nat → Option String) : Option String :=
  layer.guards.findSome? answers

structure Registry where
  global : ToolLayer
  tree : ScopeTree
  overlays : ScopeKey → Option ToolLayer

namespace Registry

/-- The existing layers along a scope's chain with their scopes, the farthest ancestor first. -/
def chainLayers (registry : Registry) (scope : Option ScopeKey) : List (ScopeKey × ToolLayer) :=
  (registry.tree.scopeChainOf scope).reverse.filterMap fun key =>
    (registry.overlays key).map fun layer => (key, layer)

def peek (registry : Registry) (scope : Option ScopeKey) : Option ToolLayer :=
  scope.bind registry.overlays

/-- The first denial: the global layer, then the scope's chain. -/
def guardReason (registry : Registry) (scope : Option ScopeKey) (answers : Nat → Option String) :
    Option String :=
  match registry.global.guardReason answers with
  | some reason => some reason
  | none => match scope with
    | none => none
    | some _ => (registry.chainLayers scope).findSome? fun layer => layer.2.guardReason answers

def guards (registry : Registry) (scope : Option ScopeKey) : List Nat :=
  registry.global.guards ++ (registry.chainLayers scope).flatMap fun layer => layer.2.guards

/-- The visible tools: inherited ones that every restriction admits, then the scope's own. -/
def view (registry : Registry) (scope : Option ScopeKey) : List (String × ToolDefinition) :=
  let chain := registry.chainLayers scope
  let inherited := (chain.filter fun layer => some layer.1 ≠ scope).foldl
    (fun entries layer => layer.2.tools.foldl shadow entries) registry.global.tools
  let admitted := inherited.filter fun entry => chain.all fun layer => layer.2.admits entry.1
  match registry.peek scope with
  | none => admitted
  | some own => own.tools.foldl shadow admitted

def get (registry : Registry) (name : String) (scope : Option ScopeKey) : Option ToolDefinition :=
  (registry.view scope).findSome? fun entry => if entry.1 = name then some entry.2 else none

end Registry

end Registry

inductive PreToolDecision where
  | allow
  | deny (reason : String)
  | ask (reason : Option String)

inductive PostAcceptReplacement where
  | content (content : List ContentBlock)
  | value (value : Value)

inductive PostToolDecision (Message : Type) where
  | accept (replace : Option PostAcceptReplacement) (additionalContexts : List Message)
  | block (feedback : List ContentBlock) (additionalContexts : List Message)

inductive ApprovalOutcome where
  | allowedOnce
  | rejected
  | cancelled
  | unavailable

/-- The agent a call runs for. -/
structure Agent where
  scope : Option ScopeKey

structure ToolExecutionInput where
  name : String
  arguments : Value
  agent : Option Agent
  /-- The enclosing composite execution, by its token. -/
  parent : Option Nat
  signal : AbortSignal

/-- One pending call, shared with its listeners and its body. -/
structure ToolExecution (Message : Type) where
  name : String
  arguments : Value
  agent : Option Agent
  parent : Option Nat
  signal : AbortSignal
  callerSignal : AbortSignal
  bodyInvoked : Bool
  concludes : Bool
  deferredContexts : List Message
  /-- Whether the tool, as it was when the call started, transforms contents. -/
  finalizer : Bool

def agentScope (agent : Option Agent) : Option ScopeKey := agent.bind Agent.scope

/-- What is outside of the call. -/
structure World where
  /-- The sources that aborted. -/
  aborted : List Nat
  registry : Registry
  /-- Whether there is an approval seam. -/
  approval : Bool
  /-- How many listeners of each stage admit the call. -/
  preListeners : Nat
  aroundListeners : Nat
  postListeners : Nat

section Pipeline

variable {Message : Type}

namespace ToolExecution

variable (exec : ToolExecution Message) (world : World)

def scope : Option ScopeKey := agentScope exec.agent

def callerAborted : Bool := exec.callerSignal.aborted world.aborted

/-- The tool as the agent's scope sees it. -/
def visible : Option ToolDefinition := world.registry.get exec.name exec.scope

/-- Cancellation, by whether the body started. -/
def cancellationResult (prior : Option (ToolExecutionResult Message)) : ToolExecutionResult Message :=
  if exec.bodyInvoked then toolAbortedResult prior else toolAbortedBeforeDispatchResult prior

variable (print : Value → String)

/-- The presentation of a value, for top-level calls. -/
def presentation (tool : ToolDefinition) (value : Value) : Except ToolError (Option Value) :=
  match exec.parent, tool.output.presentationMeta with
  | none, some project => ((project exec.arguments value).map some).mapError fun error =>
    ToolOutputError tool.name ["output.presentationMeta failed: " ++ error.message]
  | _, _ => .ok none

/-- Validate, render and project a value. -/
def createSuccessResult (tool : ToolDefinition) (value : Value) :
    Except ToolError (ToolExecutionResult Message) :=
  match validateJsonSchemaValue print tool.output.schema value "value" with
  | [] => do
      let content ← (tool.output.render exec.arguments value).mapError fun error =>
        ToolOutputError tool.name ["output.render failed: " ++ error.message]
      let metadata ← exec.presentation tool value
      return .success value content metadata [] exec.concludes
  | violations => .error (ToolOutputError tool.name violations)

/-- A success of whatever origin goes through the tool's output contract. -/
def normalizeDispatchResult : ToolExecutionResult Message →
    Except ToolError (ToolExecutionResult Message)
  | .failure error content metadata contexts => .ok (.failure error content metadata contexts)
  | .success value _ _ contexts _ =>
    match exec.visible world with
    | none => .error (ToolNotFoundError exec.name)
    | some tool =>
      (exec.createSuccessResult print tool value).map (·.withAdditionalContexts contexts)

/-- Apply the decision of the post-execute policy. -/
def applyDecision (result : ToolExecutionResult Message) :
    PostToolDecision Message → Except ToolError (ToolExecutionResult Message)
  | .block feedback contexts =>
    .ok (.failure ⟨failureMessageFromContent feedback, none⟩ feedback none contexts)
  | .accept replace decisionContexts =>
    let contexts := result.additionalContexts ++ decisionContexts
    match replace with
    | none => .ok (result.withAdditionalContexts contexts)
    | some (.content content) => .ok ((result.withContent content).withAdditionalContexts contexts)
    | some (.value value) =>
      if result.isError then
        .error ⟨"tools/post-execute cannot replace the value of a failed result", .other⟩
      else match exec.visible world with
        | none => .error (ToolNotFoundError exec.name)
        | some tool =>
          (exec.createSuccessResult print tool value).map (·.withAdditionalContexts contexts)

end ToolExecution

/-- Where `execute` is. -/
inductive Stage (Message : Type) where
  | preExecute (listeners : Nat)
  | approving
  /-- Past the pre decision, with its denial and whether an approval was cancelled. -/
  | guarding (denyReason : Option String) (approvalCancelled : Bool)
  | around (listeners : Nat)
  | postExecute (listeners : Nat) (result : ToolExecutionResult Message)
  | finished (result : ToolExecutionResult Message)

/-- The innermost `next` of the around stage. Once called it may be polled at any time. -/
inductive Inner (Message : Type) where
  /-- So many listeners still have to delegate; none before the stage. -/
  | uncalled (listeners : Option Nat)
  | called
  | body (tool : ToolDefinition) (fused wrapper : AbortSignal)
  | settled (result : ToolExecutionResult Message)

/-- What happened, for statements about a run. -/
inductive Event (Message : Type) where
  | decided (outcome : Except ToolError PreToolDecision)
  | approved (outcome : ApprovalOutcome)
  | guarded (registry : Registry) (answers : Nat → Option String)
  | delegated
  | invoked (world : World) (tool : ToolDefinition)
  /-- A value passed the output contract of a visible tool. -/
  | normalized (world : World) (tool : ToolDefinition) (value : Value)
  | posted (before : ToolExecutionResult Message)
      (outcome : Except ToolError (ToolExecutionResult Message))
  | finished (world : World) (result : ToolExecutionResult Message)

structure State (Message : Type) where
  exec : ToolExecution Message
  world : World
  stage : Stage Message
  inner : Inner Message
  /-- The newest event is first. -/
  log : List (Event Message)

inductive Action (Message : Type) where
  /-- The outside changes; what aborted stays aborted. -/
  | turn (world : World)
  | setSignal (signal : AbortSignal)
  | deferContext (message : Message)
  | concludeTurn
  /-- The pre-execute policy decides, or every listener delegates. A transformed content is
  for a call that finishes here. -/
  | preReturns (outcome : Option (Except ToolError PreToolDecision))
      (content : Option (List ContentBlock))
  | approvalReturns (outcome : ApprovalOutcome)
  | guardsAnswer (answers : Nat → Option String)
  /-- The next around listener calls its `next`. -/
  | delegate
  | pollInner
  | bodyReturns (outcome : Except ToolError Value)
  | aroundReturns (outcome : Option (Except ToolError (ToolExecutionResult Message)))
      (content : Option (List ContentBlock))
  | postReturns (outcome : Option (Except ToolError (PostToolDecision Message)))
      (content : Option (List ContentBlock))

namespace State

variable (state : State Message)

def record (event : Event Message) : State Message := { state with log := event :: state.log }

/-- The content transform of the tool, then the observers. -/
def finish (result : ToolExecutionResult Message) (content : Option (List ContentBlock)) :
    State Message :=
  let finalized := match state.exec.finalizer, content with
    | true, some content => result.withContent content
    | _, _ => result
  { state with stage := .finished finalized, log := .finished state.world finalized :: state.log }

def post (result : ToolExecutionResult Message) : State Message :=
  { state with stage := .postExecute state.world.postListeners result }

/-- Enter the around stage; without listeners its `next` is called at once. -/
def dispatch : State Message :=
  let entered := { state with
    stage := .around state.world.aroundListeners
    inner := .uncalled (some state.world.aroundListeners) }
  match state.world.aroundListeners with
  | 0 => { entered with inner := .called, log := .delegated :: state.log }
  | _ + 1 => entered

/-- Resolve an `Ask` through the optional approval seam. -/
def serviceAsk (reason : Option String) : State Message :=
  if ¬ state.world.approval then
    { state with stage := .guarding (some (reason.getD
      ("tool \"" ++ state.exec.name ++ "\" requires approval (not yet supported)"))) false }
  else if state.exec.agent.isNone then
    { state with stage := .guarding (some ("tool \"" ++ state.exec.name ++
      "\" requires approval, but the call has no agent to route it through")) false }
  else { state with stage := .approving }

/-- The denial of an approval outcome, and whether it was cancelled. -/
def approvalDenial (outcome : ApprovalOutcome) : Option String × Bool :=
  let name := state.exec.name
  match outcome with
  | .allowedOnce => (none, false)
  | .rejected => (some ("the user rejected tool \"" ++ name ++ "\""), false)
  | .cancelled => (some ("approval for tool \"" ++ name ++ "\" was cancelled"), true)
  | .unavailable =>
    (some ("tool \"" ++ name ++ "\" requires approval, but no approval channel is available"), false)

def gate (denyReason : Option String) (approvalCancelled : Bool) (answers : Nat → Option String) :
    State Message :=
  if state.exec.callerAborted state.world ∧ approvalCancelled then
    state.post (toolAbortedBeforeDispatchResult none)
  else
    -- guards run over a call that the policy allowed
    let (asked, denial) := match denyReason with
      | some reason => (state, some reason)
      | none => (state.record (.guarded state.world.registry answers),
          state.world.registry.guardReason state.exec.scope answers)
    match denial with
    | some reason =>
      asked.post (.failure ⟨reason, none⟩ [.text ("Error: " ++ reason)] none [])
    | none =>
      if state.exec.callerAborted state.world then asked.post (toolAbortedBeforeDispatchResult none)
      else asked.dispatch

/-- The first poll of the body's dispatch. -/
def dispatchToolBody : State Message :=
  let wrapper := state.exec.signal
  let fused := AbortSignal.any [state.exec.callerSignal, wrapper]
  if fused.aborted state.world.aborted then
    { state with inner := .settled (toolAbortedBeforeDispatchResult none) }
  else match state.exec.visible state.world with
    | none => { state with inner := .settled (toolErrorResult (ToolNotFoundError state.exec.name)) }
    | some tool =>
      { state with
        exec := { state.exec with signal := fused, bodyInvoked := true }
        inner := .body tool fused wrapper
        log := .invoked state.world tool :: state.log }

variable (print : Value → String)

def settleBody (tool : ToolDefinition) (fused wrapper : AbortSignal)
    (outcome : Except ToolError Value) :
    State Message :=
  let result := match outcome.bind (state.exec.createSuccessResult print tool) with
    | .error error => toolErrorResult error
    | .ok result =>
      if fused.aborted state.world.aborted then toolAbortedResult (some result) else result
  { state with exec := { state.exec with signal := wrapper }, inner := .settled result }

/-- A value that passed is recorded with the tool whose contract it passed. -/
def recordNormalized : ToolExecutionResult Message → State Message
  | .failure .. => state
  | .success value _ _ _ _ =>
    match state.exec.visible state.world with
    | none => state
    | some tool => state.record (.normalized state.world tool value)

def settleDispatch (outcome : Except ToolError (ToolExecutionResult Message))
    (content : Option (List ContentBlock)) : State Message :=
  match outcome.bind (state.exec.normalizeDispatchResult state.world print) with
  | .error error => state.finish (toolErrorResult error) content
  | .ok normalized =>
    let withContexts := if state.exec.deferredContexts.isEmpty then normalized
      else normalized.withAdditionalContexts
        (state.exec.deferredContexts ++ normalized.additionalContexts)
    let result := if state.exec.callerAborted state.world ∧ ¬ withContexts.isError then
      state.exec.cancellationResult (some withContexts) else withContexts
    (state.recordNormalized normalized).post result

/-- Whether a decision replaces the value. -/
def replacesValue : PostToolDecision Message → Bool
  | .accept (some (.value _)) _ => true
  | _ => false

def finalize (before : ToolExecutionResult Message)
    (decision : Except ToolError (PostToolDecision Message)) (content : Option (List ContentBlock)) :
    State Message :=
  let outcome := decision.bind (state.exec.applyDecision state.world print before)
  let posted := state.record (.posted before outcome)
  match outcome with
  | .error error => posted.finish (toolErrorResult error) content
  | .ok post =>
    let normalized := if decision.toOption.any replacesValue then posted.recordNormalized post
      else posted
    let result := if state.exec.callerAborted state.world ∧ ¬ post.isError then
      state.exec.cancellationResult (some post) else post
    normalized.finish result content

end State

/-- The start of a call: an aborted one ends at once. -/
def execute (input : ToolExecutionInput) (world : World) (content : Option (List ContentBlock)) :
    State Message :=
  let exec : ToolExecution Message := {
    name := input.name
    arguments := input.arguments
    agent := input.agent
    parent := input.parent
    signal := input.signal
    callerSignal := input.signal
    bodyInvoked := false
    concludes := false
    deferredContexts := []
    finalizer := (world.registry.get input.name (agentScope input.agent)).any
      ToolDefinition.finalizeContent }
  let state : State Message := {
    exec, world, stage := .preExecute world.preListeners, inner := .uncalled none, log := [] }
  if exec.callerAborted world then state.finish (toolAbortedBeforeDispatchResult none) content
  else state

/-- What a waterfall returns: what a listener authors, or the built-in outcome. -/
def waterfall {Outcome : Type} (listeners : Nat) (authored builtin : Option Outcome) :
    Option Outcome :=
  match authored with
  | some outcome => if listeners = 0 then none else some outcome
  | none => builtin

def step (print : Value → String) (state : State Message) : Action Message → Option (State Message)
  | .turn world => if state.world.aborted ⊆ world.aborted then some { state with world } else none
  | .setSignal signal => some { state with exec := { state.exec with signal } }
  | .deferContext message => some { state with
      exec := { state.exec with deferredContexts := state.exec.deferredContexts ++ [message] } }
  | .concludeTurn => some { state with exec := { state.exec with concludes := true } }
  | .preReturns authored content =>
    match state.stage with
    | .preExecute listeners =>
      (waterfall listeners authored (some (.ok .allow))).map fun outcome =>
        let decided := state.record (.decided outcome)
        match outcome with
        | .error error => decided.finish (toolErrorResult error) content
        | .ok .allow => { decided with stage := .guarding none false }
        | .ok (.deny reason) => { decided with stage := .guarding (some reason) false }
        | .ok (.ask reason) => decided.serviceAsk reason
    | _ => none
  | .approvalReturns outcome =>
    match state.stage with
    | .approving =>
      let (denyReason, cancelled) := state.approvalDenial outcome
      some { state.record (.approved outcome) with stage := .guarding denyReason cancelled }
    | _ => none
  | .guardsAnswer answers =>
    match state.stage with
    | .guarding denyReason cancelled => some (state.gate denyReason cancelled answers)
    | _ => none
  | .delegate =>
    match state.inner with
    | .uncalled (some 1) => some { state.record .delegated with inner := .called }
    | .uncalled (some (listeners + 2)) =>
      some { state with inner := .uncalled (some (listeners + 1)) }
    | _ => none
  | .pollInner =>
    match state.inner with
    | .called => some state.dispatchToolBody
    | _ => none
  | .bodyReturns outcome =>
    match state.inner with
    | .body tool fused wrapper => some (state.settleBody print tool fused wrapper outcome)
    | _ => none
  | .aroundReturns authored content =>
    match state.stage with
    | .around listeners =>
      let builtin := match state.inner with
        | .settled result => some (.ok result)
        | _ => none
      (waterfall listeners authored builtin).map fun outcome =>
        state.settleDispatch print outcome content
    | _ => none
  | .postReturns authored content =>
    match state.stage with
    | .postExecute listeners result =>
      (waterfall listeners authored (some (.ok (.accept none [])))).map fun decision =>
        state.finalize print result decision content
    | _ => none

end Pipeline

end Keel.Tools
