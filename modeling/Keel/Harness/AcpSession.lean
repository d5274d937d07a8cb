import Keel.Foundation.Trace
import Keel.Proto.Agent

/-! # The session loop of an agent

One loop multiplexes the agent's messages, the response of the pending prompt, the steering
mailbox, an in-flight steering call, three timers and the interrupt. Every arm of the loop
is one action; what it reads from elsewhere (a response, the messages drained, the time) is
in the action or passes by ticks. A steer is known by its place in the mailbox.

A consumer that hangs up in the middle of an arm sees a prefix of what the arm sends.
-/

namespace Keel.Acp

/-- How long after the evidence a starved turn is settled, in milliseconds. -/
def STARVE_GRACE : Nat := 2000
def COST_HINT_GRACE : Nat := 1000
/-- Traffic this recent means a busy session. -/
def BUSY_RECENT : Nat := 3000
def CANCEL_FLUSH : Nat := 2000

/-- An event of the agent's own, neither a boundary nor an end. -/
structure AgentUpdate where
  event : AgentEvent
  plain : match event with
    | .steered .. | .done .. => False
    | _ => True

/-- A message of the agent, as the loop reads it. -/
inductive Incoming where
  /-- `session/update`, and whether it is the session's terminal accounting frame. -/
  | update (events : List AgentUpdate) (turnEndCost : Bool)
  /-- `_session/turn_ended`, and whether it is about this session. -/
  | turnEnded (ours : Bool)
  | notification (events : List AgentUpdate)
  /-- A request, and whether it opens a question to the user. -/
  | request (events : List AgentUpdate) (asks : Bool)

structure PromptResponse where
  stopReason : Option String
  usage : Option (Nat × Nat)

structure SteeringAnswer where
  outcome : Option String
  reason : Option String

/-- A message of the mailbox, by its place there. -/
structure Steer where
  number : Nat
  text : String

structure Config where
  harness : HarnessId
  model : String
  cwd : String
  sessionId : String
  prompt : String
  promptTransform : String → String
  /-- The `_session/steering` extension. -/
  steerExt : Bool
  /-- `KEEL_ACP_QUIET_SETTLE_MS`. -/
  quietSettleMs : Option Nat
  crashMessage : String

namespace Config

/-- Only Claude's cost frames are known to end a turn. -/
def costHintEnabled (config : Config) : Bool := config.harness = .claudeCode

def quietSettle (config : Config) : Option Nat :=
  if config.costHintEnabled then none
  else match config.quietSettleMs with
    | some 0 => none
    | some ms => some ms
    | none => some 30000

end Config

/-- What the loop sends, to the agent or to the consumer. -/
inductive Output where
  /-- `session/prompt`, by its number, for a steer or as the first. -/
  | prompt (number : Nat) (steer : Option Nat) (text : String)
  | cancel
  /-- `_session/steering`. -/
  | call (steer : Nat) (text : String)
  | sent (event : AgentEvent)
  /-- `Steered`, at the boundary of a steer. -/
  | steered (steer : Nat) (previous next : Nat)
  /-- `Done`, for a prompt or for none. -/
  | done (prompt : Option Nat) (status : DoneStatus) (error : Option String) (session : Option String)
  /-- No message: an answer said that the steer is in a turn. -/
  | injected (steer : Nat)
  /-- No message: the interrupt was handled. -/
  | interrupted

inductive Stage where
  | setup
  | running
  | ended
deriving DecidableEq

structure State where
  stage : Stage := .setup
  assistantMessageId : Nat := 0
  /-- The prompts sent so far. -/
  prompts : Nat := 0
  /-- The pending prompt. -/
  turn : Option Nat := none
  queuedSteers : List Steer := []
  steeringCall : Option Steer := none
  steerBacklog : List Steer := []
  /-- The steers received so far. -/
  received : Nat := 0
  steeringOpen : Bool := true
  interrupted : Bool := false
  interruptSent : Bool := false
  doneCurrent : Bool := false
  doneAfterInterrupt : Bool := false
  now : Nat := 0
  starveDeadline : Option Nat := none
  cancelFlushDeadline : Option Nat := none
  lastUpdateAt : Nat := 0
  turnContentSeen : Bool := false
  steeredThisTurn : Bool := false
  openTools : List String := []
  openQuestions : Nat := 0
  /-- The newest output is first. -/
  log : List Output := []

inductive Action where
  | tick (elapsed : Nat)
  /-- The handshake completes, with the commands scanned from it. -/
  | ready (commands : List SlashCommand)
  | setupFails (error : String)
  /-- The prompt's response, what an in-flight steering call gives in time, and what the agent
  had sent before. -/
  | settle (response : Except String PromptResponse) (answer : Option (Except String SteeringAnswer))
      (drained : List Incoming)
  | incoming (message : Incoming)
  /-- The agent's output ends, with what the pending prompt still gives. -/
  | eof (response : Option (Except String PromptResponse))
  /-- The steering call's answer, and what the agent had sent before. -/
  | answer (answer : Except String SteeringAnswer) (drained : List Incoming)
  | flush
  | quiet
  | starve
  /-- A steer, or the end of the mailbox. -/
  | steer (prompt : Option String)
  | interrupt
  | questionAnswered
  /-- The consumer hangs up. -/
  | closed

def stopOutcome (response : Except String PromptResponse) (interrupted : Bool) :
    DoneStatus × Option String :=
  if interrupted then (.interrupted, none)
  else match response with
    | .ok response =>
      if response.stopReason = some "cancelled" then (.interrupted, none)
      else if response.stopReason = some "refusal" then
        (.errored, some "The agent refused to continue.")
      else (.completed, none)
    | .error error => (.errored, some error)

/-- The outcome of a steering call; a failed one is redelivered. -/
def outcomeOf : Except String SteeringAnswer → String
  | .ok answer => answer.outcome.getD "injected"
  | .error _ => "promptRequired"

def saysNoRunningTurn : Except String SteeringAnswer → Bool
  | .ok answer => answer.reason = some "noRunningTurn"
  | .error _ => false

/-- The outcome in time; a call that is not answered is redelivered. -/
def settledOutcome : Option (Except String SteeringAnswer) → String
  | some answer => outcomeOf answer
  | none => "promptRequired"

/-- The events and the question of a drained message. -/
def Incoming.drainedEvents : Incoming → List AgentUpdate
  | .update events _ | .notification events | .request events _ => events
  | .turnEnded _ => []

def Incoming.asks : Incoming → Bool
  | .request _ asks => asks
  | _ => false

namespace State

variable (config : Config) (state : State)

def emit (output : Output) : State := { state with log := output :: state.log }

def sendAll (events : List AgentUpdate) : State :=
  { state with log := (events.map fun update => Output.sent update.event).reverse ++ state.log }

def trackTurnSignals (event : AgentEvent) : State :=
  match event with
  | .textDelta text => if text.isEmpty then state else { state with turnContentSeen := true }
  | .toolCall id _ => { state with
      turnContentSeen := true
      openTools := if state.openTools.contains id then state.openTools else id :: state.openTools }
  | .toolResult id _ _ _ => { state with openTools := state.openTools.filter (· ≠ id) }
  | _ => state

def trackAll (events : List AgentUpdate) : State :=
  events.foldl (fun state update => state.trackTurnSignals update.event) state

/-- Fold what the agent had sent into the stream. -/
def drain (drained : List Incoming) : State :=
  drained.foldl (fun state message =>
    let state := if message.asks then { state with openQuestions :=
      state.openQuestions + 1 } else state
    state.sendAll message.drainedEvents) state

def boundary (steer : Steer) : State :=
  { state with
    assistantMessageId := state.assistantMessageId + 1
    log := .steered steer.number state.assistantMessageId (state.assistantMessageId + 1) :: state.log }

def startTurn (steer : Steer) : State :=
  { state with
    doneCurrent := false
    turnContentSeen := false
    steeredThisTurn := false
    openTools := []
    lastUpdateAt := state.now
    turn := some state.prompts
    prompts := state.prompts + 1
    log := .prompt state.prompts (some steer.number) steer.text :: state.log }

def promote (steer : Steer) : State := (state.boundary steer).startTurn steer

def startCall (steer : Steer) : State :=
  { state with steeringCall := some steer, log := .call steer.number steer.text :: state.log }

def completeMessage : State :=
  { state with
    assistantMessageId := state.assistantMessageId + 1
    log := .sent (.assistantMessageCompleted (toString state.assistantMessageId)) :: state.log }

def sendDone (number : Nat) (status : DoneStatus) (error : Option String) : State :=
  { state with
    doneCurrent := true
    doneAfterInterrupt := state.doneAfterInterrupt || state.interrupted
    log := .done (some number) status error (some config.sessionId) :: state.log }

/-- Terminal bookkeeping: never end the stream without a Done. -/
def endLoop : State :=
  if state.interrupted ∧ ¬ state.doneAfterInterrupt then
    { state with
      stage := .ended
      log := .done (if state.doneCurrent then none else some (state.prompts - 1)) .interrupted none
        (some config.sessionId) :: state.log }
  else if ¬ state.interrupted ∧ ¬ state.doneCurrent then
    { state with
      stage := .ended
      log := .done (some (state.prompts - 1)) .errored (some config.crashMessage)
        (some config.sessionId) :: state.log }
  else { state with stage := .ended }

def reportUsage (response : Except String PromptResponse) : State :=
  match response with
  | .ok ⟨_, some (input, output)⟩ => state.emit (.sent (.usage input output))
  | _ => state

def closeTurn (number : Nat) (response : Except String PromptResponse) : State :=
  let outcome := stopOutcome response state.interrupted
  (state.completeMessage.reportUsage response).sendDone config number outcome.1 outcome.2

/-- A queued steer becomes the next turn; otherwise the session waits for the mailbox. -/
def next : State :=
  match state.queuedSteers with
  | steer :: rest => { state with queuedSteers := rest }.promote steer
  | [] => if state.steeringOpen then state else state.endLoop config

/-- Decide the steering call that was in flight at the end of its turn. -/
def decideCall (steer : Steer) (outcome : String) : State :=
  if state.interrupted then state
  else if outcome ≠ "promptRequired" then (state.emit (.injected steer.number)).boundary steer
  else { state with queuedSteers := state.queuedSteers ++ [steer] }

/-- Settle an in-flight steering call, and its followers: there is no live turn to inject into
anymore. -/
def settleCall (steer : Steer) (answer : Option (Except String SteeringAnswer)) : State :=
  let decided := { state with steeringCall := none }.decideCall steer (settledOutcome answer)
  { decided with queuedSteers := decided.queuedSteers ++ decided.steerBacklog, steerBacklog := [] }

/-- The steering call that a response finds in flight. -/
def settleSteering (answer : Option (Except String SteeringAnswer)) : State :=
  match state.steeringCall with
  | some steer => state.settleCall steer answer
  | none => state

/-- A persistent session goes on after a turn; an interrupt or a failed prompt ends it. -/
def afterTurn (response : Except String PromptResponse) : State :=
  if state.interrupted ∨ response.toBool = false then state.endLoop config else state.next config

def settle (number : Nat) (response : Except String PromptResponse)
    (answer : Option (Except String SteeringAnswer)) (drained : List Incoming) : State :=
  let taken := { state with turn := none, starveDeadline := none }
  (((taken.settleSteering answer).drain drained).closeTurn config number response).afterTurn
    config response

def receive (message : Incoming) : State :=
  match message with
  | .request events asks =>
    (if asks then { state with openQuestions := state.openQuestions + 1 } else state).sendAll events
  | .update events turnEndCost =>
    let read := { state with lastUpdateAt := state.now }
    let hinted :=
      if config.costHintEnabled ∧ read.turn.isSome ∧ ¬ read.interrupted ∧ ¬ read.steeredThisTurn ∧
          read.steeringCall.isNone ∧ read.starveDeadline.isNone ∧ turnEndCost then
        { read with starveDeadline := some (read.now + COST_HINT_GRACE) }
      else read
    (hinted.trackAll events).sendAll events
  | .turnEnded ours =>
    let read := { state with lastUpdateAt := state.now }
    -- between prompts only: a live turn settles through its own response
    if read.turn.isNone ∧ ¬ read.interrupted ∧ ours then
      read.emit (.done none .completed none (some config.sessionId))
    else read
  | .notification events =>
    let read := { state with lastUpdateAt := state.now }
    (read.trackAll events).sendAll events

def eof (response : Option (Except String PromptResponse)) : State :=
  let taken := { state with turn := none }
  match state.turn, response with
  | some number, some (.ok response) => (taken.closeTurn config number (.ok response)).endLoop config
  | _, _ => taken.endLoop config

/-- The followers of an answered steering call. -/
def resumeBacklog (state : State) : List Steer → State
  | [] => { state with steerBacklog := [] }
  | steer :: rest =>
    if state.turn.isSome ∧ ¬ state.interrupted then
      { state.startCall steer with steerBacklog := rest }
    else resumeBacklog { state with queuedSteers := state.queuedSteers ++ [steer] } rest

/-- An injection into the live turn is a boundary there, after what was streamed before. If the
turn ended with the injection in it, its boundary has passed. -/
def injectCall (steer : Steer) (drained : List Incoming) : State :=
  if state.turn.isSome then
    ({ state.emit (.injected steer.number) with
      steeredThisTurn := true
      starveDeadline := none }.drain drained).boundary steer
  else state.emit (.injected steer.number)

/-- A rejected steer is redelivered: at the boundary ahead, or as the next turn. -/
def redeliver (steer : Steer) (noRunningTurn : Bool) : State :=
  if state.turn.isSome then
    { state with
      starveDeadline := if noRunningTurn then some (state.now + STARVE_GRACE) else state.starveDeadline
      queuedSteers := state.queuedSteers ++ [steer] }
  else state.promote steer

/-- What the answer of the steering call decides. -/
def resolveCall (steer : Steer) (answer : Except String SteeringAnswer) (drained : List Incoming) :
    State :=
  if state.interrupted then state
  else if outcomeOf answer ≠ "promptRequired" then state.injectCall steer drained
  else state.redeliver steer (saysNoRunningTurn answer)

/-- The answer of the steering call, and its followers. -/
def answered (steer : Steer) (answer : Except String SteeringAnswer) (drained : List Incoming) :
    State :=
  let resolved := { state with steeringCall := none }.resolveCall steer answer drained
  resolved.resumeBacklog resolved.steerBacklog

/-- A starved turn is closed out, and a queued steer promoted. -/
def starve (number : Nat) : State :=
  let taken := { state with turn := none, starveDeadline := none }
  (taken.completeMessage.sendDone config number .completed none).next config

/-- A steer during a turn: an injection if the agent has the extension, one call at a time. -/
def steerTurn (steer : Steer) : State :=
  if config.steerExt then
    if state.steeringCall.isSome then { state with steerBacklog := state.steerBacklog ++ [steer] }
    else state.startCall steer
  else { state with queuedSteers := state.queuedSteers ++ [steer] }

def receiveSteer (prompt : String) : State :=
  let steer : Steer := ⟨state.received, config.promptTransform prompt⟩
  let read := { state with received := state.received + 1 }
  if read.turn.isNone ∧ read.cancelFlushDeadline.isSome then
    { read with queuedSteers := read.queuedSteers ++ [steer] }
  else if read.turn.isNone ∧ ¬ config.costHintEnabled ∧
      (¬ read.openTools.isEmpty ∨ read.now - read.lastUpdateAt < BUSY_RECENT) then
    { read.emit .cancel with
      queuedSteers := read.queuedSteers ++ [steer]
      cancelFlushDeadline := some (read.now + CANCEL_FLUSH) }
  else if read.turn.isNone then read.promote steer
  else read.steerTurn config steer

def closeMailbox : State :=
  let read := { state with steeringOpen := false }
  if read.turn.isNone ∧ read.queuedSteers.isEmpty then read.endLoop config else read

def interrupt : State :=
  let marked := { state.emit .interrupted with interruptSent := true, interrupted := true }
  if marked.turn.isSome then marked.emit .cancel else marked.endLoop config

def announce (commands : List SlashCommand) : State :=
  let started := state.emit (.sent (.sessionStarted config.harness config.model [] config.cwd
    config.sessionId (toString state.assistantMessageId)))
  if commands.isEmpty then started else started.emit (.sent (.availableCommands commands))

/-- The session started, and its first prompt was sent. -/
def begin (commands : List SlashCommand) : State :=
  { state.announce config commands with
    stage := .running
    turn := some 0
    prompts := 1
    lastUpdateAt := state.now
    log := .prompt 0 none (config.promptTransform config.prompt) ::
      (state.announce config commands).log }

end State

def expired (deadline : Option Nat) (now : Nat) : Bool := deadline.any (· ≤ now)

/-- One arm of the loop, if its guard allows. -/
def running (config : Config) (state : State) : Action → Option State
  | .settle response answer drained =>
    state.turn.map fun number => state.settle config number response answer drained
  | .incoming message => some (state.receive config message)
  | .eof response => some (state.eof config response)
  | .answer answer drained =>
    state.steeringCall.map fun steer => state.answered steer answer drained
  | .flush =>
    if expired state.cancelFlushDeadline state.now ∧ ¬ state.interrupted then
      let flushed := { state with cancelFlushDeadline := none }
      some (if flushed.turn.isNone then flushed.next config else flushed)
    else none
  | .quiet =>
    if config.quietSettle.any (fun quiet => state.lastUpdateAt + quiet ≤ state.now) ∧
        state.starveDeadline.isNone ∧ state.turn.isSome ∧ ¬ state.interrupted ∧
        state.turnContentSeen ∧ state.openTools.isEmpty ∧ state.openQuestions = 0 then
      some { state with starveDeadline := some state.now }
    else none
  | .starve =>
    if expired state.starveDeadline state.now ∧ ¬ state.interrupted then
      state.turn.map fun number => state.starve config number
    else none
  | .steer prompt =>
    if state.steeringOpen ∧ ¬ state.interrupted then
      some (match prompt with
        | some prompt => state.receiveSteer config prompt
        | none => state.closeMailbox config)
    else none
  | .interrupt => if state.interruptSent then none else some (state.interrupt config)
  | .tick elapsed => some { state with now := state.now + elapsed }
  | .questionAnswered => some { state with openQuestions := state.openQuestions - 1 }
  | .closed => some { state with stage := .ended }
  | .ready _ | .setupFails _ => none

/-- One step of `run_session`. -/
def step (config : Config) (state : State) (action : Action) : Option State :=
  match state.stage with
  | .running => running config state action
  | .ended => none
  | .setup =>
    match action with
    | .tick elapsed => some { state with now := state.now + elapsed }
    | .ready commands => some (state.begin config commands)
    | .setupFails error => some { state.emit (.done none .errored (some error) none) with stage := .ended }
    | .interrupt => some
        { (state.emit .interrupted).emit (.done none .interrupted none none) with
          stage := .ended, interrupted := true, interruptSent := true }
    | .closed => some { state with stage := .ended }
    | _ => none

end Keel.Acp
