import Keel.Engine.SteerRun
import Keel.Dsh.Translate

/-! # One run of the embedded runtime under the engine

The bridge feeds mailbox messages to an agent loop, waits until the loop is
idle, stops feeding, and closes the event stream with a terminal event. The
engine that drives it keeps one ledger entry per accepted message, retires the
oldest at each steer boundary it reads, and re-dispatches the rest when the
stream has ended.

There is no user interrupt and no model error, so a turn ends completed or at
the token limit, and no pre-step hook rejects a step. `M` is the type of steer
messages.
-/

namespace Keel

open List

variable {M : Type}

/-- A message waiting for the agent loop. -/
inductive InboxMessage (M : Type) where
  | prompt
  | steer (message : M)
  | context
deriving DecidableEq

def InboxMessage.steer? : InboxMessage M → Option M
  | .steer message => some message
  | _ => none

/-- The steers among inbox messages, in order. -/
def steersOf (messages : List (InboxMessage M)) : List M := messages.filterMap InboxMessage.steer?

@[simp] theorem steersOf_append (first second : List (InboxMessage M)) :
    steersOf (first ++ second) = steersOf first ++ steersOf second :=
  filterMap_append

@[simp] theorem steersOf_nil : steersOf ([] : List (InboxMessage M)) = [] := rfl

inductive InboxTarget where
  | nextTurn
  | nextStep
deriving DecidableEq

/-- Where the driver of the loop stands. -/
inductive LoopPhase (M : Type) where
  | idle
  | ready (target : InboxTarget)
  /-- The batch is claimed; prompt assembly and hooks are awaited. -/
  | claimed (batch : List (InboxMessage M))
  | stepping
  | stopping
deriving DecidableEq

/-- The agent loop: its inbox, its driver, and the user messages it entered. -/
structure AgentLoop (M : Type) where
  nextTurn : List (InboxMessage M)
  nextStep : List (InboxMessage M)
  phase : LoopPhase M
  step : Nat
  turnEnds : Option TurnEndReason
  lastTurnEnd : Option TurnEndReason
  entered : List (InboxMessage M)

namespace AgentLoop

def init : AgentLoop M :=
  { nextTurn := [], nextStep := [], phase := .idle, step := 0, turnEnds := none
    lastTurnEnd := none, entered := [] }

def hasPending (loop : AgentLoop M) : Bool := !loop.nextTurn.isEmpty || !loop.nextStep.isEmpty

/-- A wake sent while idle opens a turn; a live driver picks the input up. -/
def wakeDriver (loop : AgentLoop M) : AgentLoop M :=
  match loop.phase with
  | .idle => { loop with phase := .ready .nextTurn, step := 0, turnEnds := none }
  | _ => loop

def followup (loop : AgentLoop M) (message : InboxMessage M) : AgentLoop M :=
  { loop with nextTurn := loop.nextTurn ++ [message] }.wakeDriver

def steer (loop : AgentLoop M) (message : InboxMessage M) : AgentLoop M :=
  { loop with nextStep := loop.nextStep ++ [message] }.wakeDriver

/-- Input that waits for a step without waking the driver. -/
def inject (loop : AgentLoop M) (message : InboxMessage M) : AgentLoop M :=
  { loop with nextStep := loop.nextStep ++ [message] }

/-- A step claims all step input, and the first prompt when it opens a turn. -/
def claim (loop : AgentLoop M) (target : InboxTarget) : AgentLoop M :=
  match target with
  | .nextStep => { loop with nextStep := [], phase := .claimed loop.nextStep }
  | .nextTurn => { loop with
      nextStep := [], nextTurn := loop.nextTurn.drop 1
      phase := .claimed (loop.nextStep ++ loop.nextTurn.take 1) }

/-- Close the turn; pending work opens the next one. -/
def endTurn (loop : AgentLoop M) (reason : TurnEndReason) : AgentLoop M :=
  { loop with
    lastTurnEnd := some reason, turnEnds := none
    step := if loop.hasPending then 0 else loop.step
    phase := if loop.hasPending then .ready .nextTurn else .idle }

/-- Enter the claimed batch as user messages and start the step, or end a turn
that has nothing to enter. -/
def enter (loop : AgentLoop M) (messages : List (InboxMessage M)) : AgentLoop M :=
  match loop.turnEnds, messages with
  | some reason, [] => loop.endTurn reason
  | none, [] =>
    if loop.step = 0 then loop.endTurn .completed
    else { loop with step := loop.step + 1, phase := .stepping }
  | _, messages =>
    { loop with
      step := loop.step + 1, phase := .stepping, entered := loop.entered ++ messages }

/-- The token limit is sticky over the steps of a turn. -/
def stepReason (loop : AgentLoop M) (reason : Option TurnEndReason) : Option TurnEndReason :=
  if loop.turnEnds = some .maxTokens then loop.turnEnds else reason

def stepEnd (loop : AgentLoop M) (reason : Option TurnEndReason) : AgentLoop M :=
  { loop with
    turnEnds := loop.stepReason reason
    phase := if (loop.stepReason reason).isSome && loop.nextStep.isEmpty then .stopping
      else .ready .nextStep }

def stopped (loop : AgentLoop M) : AgentLoop M :=
  if loop.nextStep.isEmpty then loop.endTurn (loop.turnEnds.getD .completed)
  else { loop with phase := .ready .nextStep }

/-- The messages claimed for the step being prepared. -/
def batch (loop : AgentLoop M) : List (InboxMessage M) :=
  match loop.phase with
  | .claimed batch => batch
  | _ => []

/-- Every steer the loop was given, in order: entered, claimed, or waiting. -/
def carried (loop : AgentLoop M) : List M :=
  steersOf loop.entered ++ steersOf loop.batch ++ steersOf loop.nextStep

/-- Prompts wait alone in the turn list, and an idle loop has nothing waiting. -/
structure Tidy (loop : AgentLoop M) : Prop where
  prompts : steersOf loop.nextTurn = []
  idle_empty : loop.phase = .idle → loop.nextStep = [] ∧ loop.nextTurn = []

variable {loop : AgentLoop M}

attribute [local simp] carried batch

theorem carried_of_idle (htidy : loop.Tidy) (hidle : loop.phase = .idle) :
    loop.carried = steersOf loop.entered := by
  simp [hidle, (htidy.idle_empty hidle).1]

theorem tidy_wakeDriver (hprompts : steersOf loop.nextTurn = []) : loop.wakeDriver.Tidy := by
  unfold wakeDriver
  split
  · exact ⟨hprompts, nofun⟩
  next hbusy => exact ⟨hprompts, fun hidle => absurd hidle hbusy⟩

theorem carried_wakeDriver (loop : AgentLoop M) : loop.wakeDriver.carried = loop.carried := by
  unfold wakeDriver
  split
  next hidle => simp [hidle]
  · rfl

theorem tidy_steer (htidy : loop.Tidy) (message : InboxMessage M) : (loop.steer message).Tidy := by
  apply tidy_wakeDriver
  exact htidy.prompts

theorem carried_steer (loop : AgentLoop M) (message : M) :
    (loop.steer (.steer message)).carried = loop.carried ++ [message] := by
  rw [steer, carried_wakeDriver]
  simp [steersOf, InboxMessage.steer?]

section
variable (htidy : loop.Tidy)
include htidy

/-- No steer waits among the prompts, neither in the first nor in the others. -/
theorem Tidy.split :
    steersOf (loop.nextTurn.take 1) = [] ∧ steersOf (loop.nextTurn.drop 1) = [] := by
  have hprompts := htidy.prompts
  rwa [← take_append_drop 1 loop.nextTurn, steersOf_append, append_eq_nil_iff] at hprompts

theorem tidy_claim (target : InboxTarget) : (loop.claim target).Tidy := by
  cases target with
  | nextStep => exact ⟨htidy.prompts, nofun⟩
  | nextTurn => exact ⟨htidy.split.2, nofun⟩

theorem carried_claim {target : InboxTarget} (hready : loop.phase = .ready target) :
    (loop.claim target).carried = loop.carried := by
  cases target with
  | nextStep => simp [claim, hready]
  | nextTurn => simp [claim, hready, htidy.split.1]

theorem tidy_endTurn (reason : TurnEndReason) : (loop.endTurn reason).Tidy := by
  refine ⟨htidy.prompts, ?_⟩
  intro hidle
  simp only [endTurn] at hidle
  split at hidle
  · cases hidle
  next hnothing =>
    simp only [hasPending, Bool.or_eq_true, Bool.not_eq_true', not_or, Bool.not_eq_false,
      List.isEmpty_iff] at hnothing
    exact ⟨hnothing.2, hnothing.1⟩

end

theorem carried_endTurn (hbatch : steersOf loop.batch = [])
    (reason : TurnEndReason) : (loop.endTurn reason).carried = loop.carried := by
  have hphase : (loop.endTurn reason).batch = [] := by
    simp only [endTurn, batch]
    cases loop.hasPending <;> rfl
  rw [carried, hphase, carried, hbatch]
  rfl

theorem tidy_enter (htidy : loop.Tidy) (messages : List (InboxMessage M)) :
    (loop.enter messages).Tidy := by
  unfold enter
  split
  next reason _ => exact tidy_endTurn htidy reason
  · split
    · exact tidy_endTurn htidy .completed
    · exact ⟨htidy.prompts, nofun⟩
  · exact ⟨htidy.prompts, nofun⟩

theorem carried_enter {claimed messages : List (InboxMessage M)}
    (hclaimed : loop.phase = .claimed claimed) (hsteers : steersOf messages = steersOf claimed) :
    (loop.enter messages).carried = loop.carried := by
  have hbatch : loop.batch = claimed := by simp [hclaimed]
  unfold enter
  split
  next reason _ => exact carried_endTurn (by simpa [-batch, hbatch] using hsteers.symm) reason
  · split
    · exact carried_endTurn (by simpa [-batch, hbatch] using hsteers.symm) .completed
    · have hnone : steersOf claimed = [] := by simpa using hsteers.symm
      simp [hclaimed, hnone]
  · simp [hclaimed, hsteers]

theorem tidy_stepEnd (htidy : loop.Tidy) (reason : Option TurnEndReason) :
    (loop.stepEnd reason).Tidy := by
  refine ⟨htidy.prompts, ?_⟩
  intro hidle
  simp only [stepEnd] at hidle
  split at hidle <;> cases hidle

theorem carried_stepEnd (hstepping : loop.phase = .stepping)
    (reason : Option TurnEndReason) : (loop.stepEnd reason).carried = loop.carried := by
  have hbatch : (loop.stepEnd reason).batch = [] := by
    simp only [stepEnd, batch]
    cases (loop.stepReason reason).isSome && loop.nextStep.isEmpty <;> rfl
  rw [carried, hbatch]
  simp [hstepping, stepEnd]

theorem tidy_stopped (htidy : loop.Tidy) : loop.stopped.Tidy := by
  unfold stopped
  split
  · exact tidy_endTurn htidy _
  · exact ⟨htidy.prompts, nofun⟩

theorem carried_stopped (hstopping : loop.phase = .stopping) :
    loop.stopped.carried = loop.carried := by
  unfold stopped
  split
  · exact carried_endTurn (by simp [hstopping]) _
  · simp [hstopping]

theorem tidy_inject (htidy : loop.Tidy) (hbusy : loop.phase ≠ .idle)
    (message : InboxMessage M) : (loop.inject message).Tidy :=
  ⟨htidy.prompts, fun hidle => absurd hidle hbusy⟩

theorem carried_inject (loop : AgentLoop M) : (loop.inject .context).carried = loop.carried := by
  simp [inject, steersOf, InboxMessage.steer?]

end AgentLoop

inductive BridgePhase where
  | driving
  | closing
  | closed
deriving DecidableEq

inductive EnginePhase where
  | running
  | parked
  | exited
deriving DecidableEq

structure BridgeRun (M : Type) where
  sessionId : String
  loop : AgentLoop M
  bridge : BridgePhase
  mailboxOpen : Bool
  mailbox : List M
  /-- Taken from the mailbox by the steering task, in order. -/
  received : List M
  /-- Events sent and not yet read by the engine. -/
  stream : List AgentEvent
  engine : EnginePhase
  ledger : List M
  accepted : List M
  /-- Ledger entries retired at boundaries. -/
  retired : List M
  redispatched : List M

inductive BridgeAction (M : Type) where
  /-- The engine routes a message into the live run. -/
  | accept (message : M)
  /-- The steering task takes a message and steers the agent. -/
  | receive
  | claim
  /-- Enter the claimed batch, with a context message when one is due. -/
  | enter (withContext : Bool)
  /-- A session event of the step in flight. -/
  | emit (event : SessionEvent)
  | inject
  | stepEnd (reason : Option TurnEndReason)
  | stopped
  /-- The wait for idleness returns and the steering task is stopped. -/
  | idleSeen
  /-- The terminal event is sent and the stream closed. -/
  | close
  /-- The engine reads one event. -/
  | read
  /-- The engine reads the end of the stream. -/
  | streamEnd
deriving DecidableEq

namespace BridgeRun

section Runs

variable [DecidableEq M] [JsonParser]

/-- The run's prompt is sent before the bridge waits for idleness. -/
def init (sessionId : String) : BridgeRun M :=
  { sessionId, loop := AgentLoop.init.followup .prompt, bridge := .driving, mailboxOpen := true,
    mailbox := []
    received := [], stream := [], engine := .running, ledger := [], accepted := [], retired := []
    redispatched := [] }

/-- Commit session events; the forwarder translates each. -/
def publish (state : BridgeRun M) (events : List SessionEvent) : BridgeRun M :=
  { state with stream := state.stream ++ events.flatMap translate }

/-- The terminal event reports the last turn's outcome. -/
def doneEvent (state : BridgeRun M) : AgentEvent :=
  match state.loop.lastTurnEnd with
  | some .aborted => .done .interrupted none none (some state.sessionId)
  | some (.error failure) =>
    .done .errored none (some (failure.message ++ " (" ++ failure.code ++ ")"))
      (some state.sessionId)
  | _ => .done .completed none none (some state.sessionId)

/-- The exit drain re-dispatches every entry no boundary retired. -/
def exitDrain (state : BridgeRun M) : BridgeRun M :=
  { state with engine := .exited, redispatched := state.redispatched ++ state.ledger, ledger := [] }

/-- A completed turn parks the session; another outcome ends the run. -/
def read (state : BridgeRun M) (event : AgentEvent) : BridgeRun M :=
  match event with
  | .steered .. => { state with
      ledger := state.ledger.tail, retired := state.retired ++ state.ledger.take 1 }
  | .done .completed .. => { state with engine := .parked }
  | .done .. => state.exitDrain
  | _ => state

def step (state : BridgeRun M) : BridgeAction M → Option (BridgeRun M)
  | .accept message =>
    if state.mailboxOpen ∧ state.mailbox.length < steerMailboxCapacity ∧ state.engine ≠ .exited ∧
        message ∉ state.accepted then
      some { state with
        mailbox := state.mailbox ++ [message], ledger := state.ledger ++ [message]
        accepted := state.accepted ++ [message] }
    else none
  | .receive =>
    match state.mailbox with
    | message :: rest =>
      if state.mailboxOpen then
        some { state with
          mailbox := rest, received := state.received ++ [message]
          loop := state.loop.steer (.steer message) }
      else none
    | [] => none
  | .claim =>
    match state.loop.phase with
    | .ready target => some { state with loop := state.loop.claim target }
    | _ => none
  | .enter withContext =>
    match state.loop.phase with
    | .claimed batch =>
      let messages := batch ++ if withContext then [.context] else []
      some ({ state with loop := state.loop.enter messages }.publish
        (.stepStart :: messages.map fun _ => .userMessage))
    | _ => none
  | .emit event => if state.loop.phase = .stepping then some (state.publish [event]) else none
  | .inject =>
    if state.loop.phase = .stepping ∨ state.loop.phase = .stopping then
      some { state with loop := state.loop.inject .context }
    else none
  | .stepEnd reason =>
    if state.loop.phase = .stepping ∧
        (reason = none ∨ reason = some .completed ∨ reason = some .maxTokens) then
      some ({ state with loop := state.loop.stepEnd reason }.publish [.stepEnd])
    else none
  | .stopped =>
    if state.loop.phase = .stopping then some { state with loop := state.loop.stopped } else none
  | .idleSeen =>
    if state.bridge = .driving ∧ state.loop.phase = .idle then
      some { state with bridge := .closing, mailboxOpen := false }
    else none
  | .close =>
    if state.bridge = .closing then
      some { state with bridge := .closed, stream := state.stream ++ [state.doneEvent] }
    else none
  | .read =>
    match state.stream with
    | event :: rest =>
      if state.engine ≠ .exited then some ({ state with stream := rest }.read event) else none
    | [] => none
  | .streamEnd =>
    if state.bridge = .closed ∧ state.stream = [] ∧ state.engine ≠ .exited then
      some state.exitDrain
    else none

/-- The steers the agent entered as user messages. -/
def consumed (state : BridgeRun M) : List M := steersOf state.loop.entered

/-- Each accepted steer is entered exactly once over the run and the
re-dispatches: a consumed one was confirmed by a boundary and is not
re-dispatched, another one is. -/
def EnteredOnce (state : BridgeRun M) : Prop :=
  ∀ message ∈ state.accepted,
    (state.consumed ++ state.redispatched).count message = 1 ∧
    (message ∈ state.consumed → message ∈ state.retired ∧ message ∉ state.redispatched) ∧
    (message ∉ state.consumed → message ∈ state.redispatched)

/-- What every run keeps. Without boundaries in the stream the ledger holds all
accepted steers until the exit drain takes them, and the loop has been given
exactly the steers taken from the mailbox. -/
structure Unconfirmed (state : BridgeRun M) : Prop where
  tidy : state.loop.Tidy
  carried : state.loop.carried = state.received
  accepted : state.received ++ state.mailbox = state.accepted
  nodup : state.accepted.Nodup
  boundaries : ∀ event ∈ state.stream, event.isControl = true → state.bridge = .closed ∧
    ∃ status result error sessionId, event = .done status result error sessionId
  stopped : state.bridge ≠ .driving → state.loop.phase = .idle ∧ state.mailboxOpen = false
  ended : state.engine ≠ .running → state.bridge = .closed
  live : state.engine ≠ .exited → state.ledger = state.accepted ∧ state.redispatched = []
  drained : state.engine = .exited → state.redispatched = state.accepted

namespace Unconfirmed

variable {state : BridgeRun M}

omit [DecidableEq M] [JsonParser] in
theorem withLoop (hstate : Unconfirmed state) (hbusy : state.loop.phase ≠ .idle)
    {loop : AgentLoop M} (htidy : loop.Tidy) (hcarried : loop.carried = state.loop.carried) :
    Unconfirmed { state with loop } where
  tidy := htidy
  carried := hcarried.trans hstate.carried
  accepted := hstate.accepted
  nodup := hstate.nodup
  boundaries := hstate.boundaries
  stopped hbridge := absurd (hstate.stopped hbridge).1 hbusy
  ended := hstate.ended
  live := hstate.live
  drained := hstate.drained

omit [DecidableEq M] in
theorem publish (hstate : Unconfirmed state) (events : List SessionEvent) :
    Unconfirmed (state.publish events) := by
  refine ⟨hstate.tidy, hstate.carried, hstate.accepted, hstate.nodup, ?_, hstate.stopped,
    hstate.ended, hstate.live, hstate.drained⟩
  intro event hevent hcontrol
  rcases mem_append.mp hevent with hevent | hevent
  · exact hstate.boundaries event hevent hcontrol
  · obtain ⟨source, -, htranslated⟩ := mem_flatMap.mp hevent
    rw [translate_not_isControl source event htranslated] at hcontrol
    cases hcontrol

omit [DecidableEq M] [JsonParser] in
theorem exitDrain (hstate : Unconfirmed state) (hrunning : state.engine ≠ .exited)
    (hclosed : state.bridge = .closed) : Unconfirmed state.exitDrain := by
  obtain ⟨hledger, hnone⟩ := hstate.live hrunning
  refine ⟨hstate.tidy, hstate.carried, hstate.accepted, hstate.nodup, hstate.boundaries,
    hstate.stopped, fun _ => hclosed, fun hne => absurd rfl hne, ?_⟩
  intro _
  simp [BridgeRun.exitDrain, hnone, hledger]

omit [DecidableEq M] [JsonParser] in
theorem read {event : AgentEvent} {rest : List AgentEvent} (hstate : Unconfirmed state)
    (hstream : state.stream = event :: rest) (hrunning : state.engine ≠ .exited) :
    Unconfirmed ({ state with stream := rest }.read event) := by
  have hmem : event ∈ state.stream := by simp [hstream]
  have hrest : Unconfirmed { state with stream := rest } := by
    refine ⟨hstate.tidy, hstate.carried, hstate.accepted, hstate.nodup, ?_, hstate.stopped,
      hstate.ended, hstate.live, hstate.drained⟩
    intro other hother
    exact hstate.boundaries other (by simp [hstream, hother])
  cases event with
  | steered assistantMessageId nextAssistantMessageId =>
    -- No boundary is ever in the stream: terminal events are its only controls.
    obtain ⟨-, status, result, error, sessionId, hdone⟩ := hstate.boundaries _ hmem rfl
    cases hdone
  | done status result error sessionId =>
    obtain ⟨hclosed, -⟩ := hstate.boundaries _ hmem rfl
    cases status with
    | completed =>
      exact ⟨hrest.tidy, hrest.carried, hrest.accepted, hrest.nodup, hrest.boundaries,
        hrest.stopped, fun _ => hclosed, fun _ => hstate.live hrunning, nofun⟩
    | interrupted | errored => exact hrest.exitDrain hrunning hclosed
  | _ => exact hrest

theorem step {next : BridgeRun M} {action : BridgeAction M} (hstate : Unconfirmed state)
    (hstep : state.step action = some next) : Unconfirmed next := by
  cases action with
  | accept message =>
    simp only [BridgeRun.step] at hstep
    split at hstep
    next hroom =>
      cases hstep
      obtain ⟨hopen, -, hrunning, hfresh⟩ := hroom
      obtain ⟨hledger, hnone⟩ := hstate.live hrunning
      refine ⟨hstate.tidy, hstate.carried, ?_, ?_, hstate.boundaries, ?_, hstate.ended, ?_, ?_⟩
      · simp [← hstate.accepted]
      · exact nodup_append.mpr ⟨hstate.nodup, nodup_singleton _, by
          rintro other hother moved hmoved rfl
          exact hfresh (mem_singleton.mp hmoved ▸ hother)⟩
      · intro hbridge
        rw [(hstate.stopped hbridge).2] at hopen
        cases hopen
      · exact fun _ => ⟨by rw [hledger], hnone⟩
      · exact fun hexited => absurd hexited hrunning
    · cases hstep
  | receive =>
    simp only [BridgeRun.step] at hstep
    split at hstep
    next message rest hmailbox =>
      split at hstep
      next hopen =>
        cases hstep
        refine ⟨AgentLoop.tidy_steer hstate.tidy _, ?_, ?_, hstate.nodup, hstate.boundaries, ?_,
          hstate.ended, hstate.live, hstate.drained⟩
        · rw [AgentLoop.carried_steer, hstate.carried]
        · simp [← hstate.accepted, hmailbox]
        · intro hbridge
          rw [(hstate.stopped hbridge).2] at hopen
          cases hopen
      · cases hstep
    · cases hstep
  | claim =>
    simp only [BridgeRun.step] at hstep
    split at hstep
    next target hready =>
      cases hstep
      exact hstate.withLoop (by simp [hready]) (AgentLoop.tidy_claim hstate.tidy target)
        (AgentLoop.carried_claim hstate.tidy hready)
    · cases hstep
  | enter withContext =>
    simp only [BridgeRun.step] at hstep
    split at hstep
    next batch hclaimed =>
      cases hstep
      refine Unconfirmed.publish (hstate.withLoop (by simp [hclaimed])
        (AgentLoop.tidy_enter hstate.tidy _) (AgentLoop.carried_enter hclaimed ?_)) _
      cases withContext <;> simp [steersOf, InboxMessage.steer?]
    · cases hstep
  | emit event =>
    simp only [BridgeRun.step] at hstep
    split at hstep
    · cases hstep
      exact hstate.publish [event]
    · cases hstep
  | inject =>
    simp only [BridgeRun.step] at hstep
    split at hstep
    next hbusy =>
      cases hstep
      have hbusy : state.loop.phase ≠ .idle := by
        rcases hbusy with hphase | hphase <;> simp [hphase]
      exact hstate.withLoop hbusy (AgentLoop.tidy_inject hstate.tidy hbusy _)
        (AgentLoop.carried_inject _)
    · cases hstep
  | stepEnd reason =>
    simp only [BridgeRun.step] at hstep
    split at hstep
    next hguard =>
      cases hstep
      exact Unconfirmed.publish (hstate.withLoop (by simp [hguard.1])
        (AgentLoop.tidy_stepEnd hstate.tidy reason)
        (AgentLoop.carried_stepEnd hguard.1 reason)) _
    · cases hstep
  | stopped =>
    simp only [BridgeRun.step] at hstep
    split at hstep
    next hstopping =>
      cases hstep
      exact hstate.withLoop (by simp [hstopping]) (AgentLoop.tidy_stopped hstate.tidy)
        (AgentLoop.carried_stopped hstopping)
    · cases hstep
  | idleSeen =>
    simp only [BridgeRun.step] at hstep
    split at hstep
    next hguard =>
      cases hstep
      refine ⟨hstate.tidy, hstate.carried, hstate.accepted, hstate.nodup, ?_,
        fun _ => ⟨hguard.2, rfl⟩, ?_, hstate.live, hstate.drained⟩
      · intro event hevent hcontrol
        have hclosed := (hstate.boundaries event hevent hcontrol).1
        rw [hguard.1] at hclosed
        cases hclosed
      · intro hengine
        have hclosed := hstate.ended hengine
        rw [hguard.1] at hclosed
        cases hclosed
    · cases hstep
  | close =>
    simp only [BridgeRun.step] at hstep
    split at hstep
    next hclosing =>
      cases hstep
      have hstopped := hstate.stopped (by simp [hclosing])
      refine ⟨hstate.tidy, hstate.carried, hstate.accepted, hstate.nodup, ?_,
        fun _ => hstopped, fun _ => rfl, hstate.live, hstate.drained⟩
      intro event hevent hcontrol
      refine ⟨rfl, ?_⟩
      rcases mem_append.mp hevent with hevent | hevent
      · exact (hstate.boundaries event hevent hcontrol).2
      · obtain rfl := mem_singleton.mp hevent
        unfold doneEvent
        split
        · exact ⟨_, _, _, _, rfl⟩
        · exact ⟨_, _, _, _, rfl⟩
        · exact ⟨_, _, _, _, rfl⟩
    · cases hstep
  | read =>
    simp only [BridgeRun.step] at hstep
    split at hstep
    next event rest hstream =>
      split at hstep
      next hrunning =>
        cases hstep
        exact hstate.read hstream hrunning
      · cases hstep
    · cases hstep
  | streamEnd =>
    simp only [BridgeRun.step] at hstep
    split at hstep
    next hguard =>
      cases hstep
      exact hstate.exitDrain hguard.2.2 hguard.1
    · cases hstep

end Unconfirmed

omit [DecidableEq M] [JsonParser] in
theorem unconfirmed_init (sessionId : String) : Unconfirmed (init sessionId : BridgeRun M) := by
  have htidy : (AgentLoop.init.followup .prompt : AgentLoop M).Tidy :=
    AgentLoop.tidy_wakeDriver rfl
  refine ⟨htidy, rfl, rfl, .nil, ?_, ?_, ?_, fun _ => ⟨rfl, rfl⟩, nofun⟩
  · simp [init]
  · simp [init]
  · simp [init]

omit [DecidableEq M] [JsonParser] in
theorem received_read (state : BridgeRun M) (event : AgentEvent) :
    (state.read event).received = state.received := by
  unfold read
  split <;> rfl

theorem received_step {state next : BridgeRun M} {action : BridgeAction M}
    (hstep : state.step action = some next) :
    next.received = [] ↔ state.received = [] ∧ action ≠ .receive := by
  cases action with
  | receive =>
    simp only [BridgeRun.step] at hstep
    split at hstep
    · split at hstep
      · cases hstep
        simp
      · cases hstep
    · cases hstep
  | read =>
    simp only [BridgeRun.step] at hstep
    split at hstep
    · split at hstep
      · cases hstep
        simp [received_read]
      · cases hstep
    · cases hstep
  | _ =>
    -- The other actions keep the list; each is decided by one guard or phase.
    simp only [BridgeRun.step] at hstep
    split at hstep
    · cases hstep
      simp [publish, exitDrain]
    · cases hstep

theorem received_run {state final : BridgeRun M} {trace : List (BridgeAction M)}
    (hrun : Trace.run BridgeRun.step state trace = some final) :
    final.received = [] ↔ state.received = [] ∧ .receive ∉ trace := by
  induction trace generalizing state with
  | nil =>
    simp only [Trace.run_nil, Option.some.injEq] at hrun
    simp [hrun]
  | cons action rest ih =>
    obtain ⟨next, hstep, hrest⟩ := Trace.run_cons_eq_some.1 hrun
    rw [ih hrest, received_step hstep, mem_cons, not_or, and_assoc]
    exact and_congr_right fun _ => and_congr_left fun _ => ne_comm

omit [DecidableEq M] [JsonParser] in
/-- Over a finished run the agent entered exactly the steers it was given, and
all accepted steers were re-dispatched. -/
theorem consumed_redispatched_of_exited {final : BridgeRun M} (hfinal : Unconfirmed final)
    (hexited : final.engine = .exited) :
    final.consumed = final.received ∧ final.redispatched = final.accepted := by
  have hclosed := hfinal.ended (by simp [hexited])
  obtain ⟨hidle, -⟩ := hfinal.stopped (by simp [hclosed])
  refine ⟨?_, hfinal.drained hexited⟩
  rw [consumed, ← AgentLoop.carried_of_idle hfinal.tidy hidle, hfinal.carried]

/-- A finished run enters every accepted steer exactly once if and only if the
steering task took none: the translation emits no boundary, so whatever the
agent consumed is re-dispatched as well. -/
theorem enteredOnce_iff_noneReceived (sessionId : String) (trace : List (BridgeAction M))
    (final : BridgeRun M)
    (hrun : Trace.run BridgeRun.step (init sessionId) trace = some final)
    (hexited : final.engine = .exited) : final.EnteredOnce ↔ .receive ∉ trace := by
  have hfinal : Unconfirmed final :=
    Trace.run_invariant (fun _ _ _ hstate hstep => Unconfirmed.step hstate hstep)
      (unconfirmed_init sessionId) hrun
  obtain ⟨hconsumed, hredispatched⟩ := consumed_redispatched_of_exited hfinal hexited
  have hreceived : final.received = [] ↔ .receive ∉ trace := by
    rw [received_run hrun]
    simp [init]
  rw [← hreceived]
  constructor
  · intro honce
    by_contra hne
    obtain ⟨message, hmessage⟩ := exists_mem_of_ne_nil _ hne
    have haccepted : message ∈ final.accepted := by
      rw [← hfinal.accepted]
      exact mem_append_left _ hmessage
    apply ((honce message haccepted).2.1 (hconsumed ▸ hmessage)).2
    rwa [hredispatched]
  · intro hnone message haccepted
    rw [hnone] at hconsumed
    refine ⟨?_, ?_, ?_⟩
    · rw [hconsumed, hredispatched, nil_append]
      exact count_eq_one_of_mem hfinal.nodup haccepted
    · simp [hconsumed]
    · intro _
      rwa [hredispatched]

end Runs

section Examples

@[reducible] def noJson : JsonParser where
  value _ := none
  receipt _ := none

local instance : JsonParser := noJson

def promptTurn : List (BridgeAction String) :=
  [.claim, .enter false, .emit (.assistantChunk (.textDelta "hi")), .stepEnd (some .completed)]

/-- The terminal event is read and the stream ends. -/
def windDown : List (BridgeAction String) := [.idleSeen, .close, .read, .read, .streamEnd]

/-- A steer that is still in the mailbox when the wait for idleness returns. -/
def steerTooLate : List (BridgeAction String) :=
  promptTurn ++ [.stopped, .accept "m1"] ++ windDown

theorem enteredOnce_steerTooLate :
    ∃ final : BridgeRun String,
      Trace.run BridgeRun.step (init "session") steerTooLate = some final ∧
      final.accepted = ["m1"] ∧ final.EnteredOnce := by
  have hfields : (Trace.run BridgeRun.step (init "session") steerTooLate).map (fun state =>
      (state.accepted, state.engine)) = some (["m1"], .exited) := by decide
  obtain ⟨final, hrun, hfinal⟩ := Option.map_eq_some_iff.mp hfields
  simp only [Prod.mk.injEq] at hfinal
  exact ⟨final, hrun, hfinal.1,
    (enteredOnce_iff_noneReceived "session" steerTooLate final hrun hfinal.2).mpr (by decide)⟩

/-- A steer that arrives during the prompt's step is entered at the next step. -/
def steerMidStep : List (BridgeAction String) :=
  [.claim, .enter false, .accept "m1", .receive, .emit (.assistantChunk (.textDelta "hi")),
    .stepEnd (some .completed), .claim, .enter false, .stepEnd (some .completed), .stopped] ++
    windDown

theorem steerMidStep_enteredTwice :
    ¬ ∀ (trace : List (BridgeAction String)) (final : BridgeRun String),
      Trace.run BridgeRun.step (init "session") trace = some final →
      final.engine = .exited → final.EnteredOnce := by
  intro honce
  have hfields : (Trace.run BridgeRun.step (init "session") steerMidStep).map (fun state =>
      (state.accepted, state.engine, state.consumed ++ state.redispatched)) =
      some (["m1"], .exited, ["m1", "m1"]) := by decide
  obtain ⟨final, hrun, hfinal⟩ := Option.map_eq_some_iff.mp hfields
  simp only [Prod.mk.injEq] at hfinal
  obtain ⟨haccepted, hexited, hentered⟩ := hfinal
  have hcount := (honce steerMidStep final hrun hexited "m1" (by simp [haccepted])).1
  rw [hentered] at hcount
  exact absurd hcount (by decide)

end Examples

end BridgeRun

end Keel
