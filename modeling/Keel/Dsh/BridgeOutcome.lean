import Keel.Dsh.BridgeRun
import Keel.Foundation.Trace

/-! # What a run of the bridge reports

A run ends with the outcome of the last turn in the log of its session. The log is shared
with the runs before it, and an interrupt or a message of the user may reach the agent at
any of its driver's awaits. An interrupt that arrives before a turn opens leaves no turn of
its own behind, and a message that arrives after one wakes the driver for another turn; in
both cases the last turn is not the interrupted one.

`M` is the type of the user messages. The splices of the inbox are left out of the log: they
are no turn events, and nothing of them is forwarded.
-/

namespace Keel.BridgeOutcome

open List Option Bool

variable {M : Type}

/-! ## The driver of the agent -/

/-- Where a live driver stands: not polled yet, or at one of its awaits. -/
inductive Stage where
  | scheduled
  /-- A turn is open and a batch claimed; the prompt and the hooks are awaited. -/
  | preparing
  | stepping
  | stopping
deriving DecidableEq

/-- A live driver. -/
structure Activity where
  aborted : Bool
  wakeRequested : Bool
  step : Nat
  turnEnds : Option TurnEndReason
  stage : Stage

def Activity.fresh : Activity := ⟨false, false, 0, none, .scheduled⟩

/-- The agent, with the log of its session. It is idle without an activity. -/
structure Agent (M : Type) where
  log : List SessionEvent
  nextTurn : List M
  nextStep : List M
  activity : Option Activity

namespace Agent

def hasPending (agent : Agent M) : Bool := !agent.nextTurn.isEmpty || !agent.nextStep.isEmpty

def append (agent : Agent M) (events : List SessionEvent) : Agent M :=
  { agent with log := agent.log ++ events }

/-- A wake starts a driver, or is latched behind an aborted one. -/
def wakeDriver (agent : Agent M) (wakeAfterAbort : Bool) : Agent M :=
  match agent.activity with
  | none => { agent with activity := some .fresh }
  | some activity =>
    if wakeAfterAbort then
      { agent with activity := some { activity with wakeRequested := true } }
    else agent

/-- Waking input cannot join an aborted activity. -/
def send (agent : Agent M) (target : InboxTarget) (message : M) : Agent M :=
  let wakingAfterAbort := agent.activity.any (·.aborted)
  let filed := match if wakingAfterAbort then .nextTurn else target with
    | .nextTurn => { agent with nextTurn := agent.nextTurn ++ [message] }
    | .nextStep => { agent with nextStep := agent.nextStep ++ [message] }
  filed.wakeDriver wakingAfterAbort

def followup (agent : Agent M) (message : M) : Agent M := agent.send .nextTurn message

def steer (agent : Agent M) (message : M) : Agent M := agent.send .nextStep message

/-- Context that waits for a step without waking the driver. -/
def inject (agent : Agent M) (message : M) : Agent M :=
  { agent with nextStep := agent.nextStep ++ [message] }

/-- A cancel empties the inbox and aborts a live activity. -/
def cancel (agent : Agent M) : Agent M :=
  { agent with
    nextTurn := [], nextStep := []
    activity := agent.activity.map fun activity =>
      { activity with aborted := true, wakeRequested := false } }

/-- The next step claims its input; the prompt and the hooks are awaited. -/
def prepare (agent : Agent M) (activity : Activity) : Agent M :=
  { agent with nextStep := [], activity := some { activity with stage := .preparing } }

/-- A turn opens, and its first step claims its input with the first prompt. -/
def openTurn (agent : Agent M) (activity : Activity) : Agent M :=
  { agent.append [.turnStart] with
    nextStep := [], nextTurn := agent.nextTurn.drop 1
    activity := some { activity with stage := .preparing, turnEnds := none } }

/-- The driver retires; a latched wake with pending work starts another. -/
def settle (agent : Agent M) (activity : Activity) : Agent M :=
  { agent with
    activity := if activity.wakeRequested && agent.hasPending then some .fresh else none }

def failTurn (agent : Agent M) (activity : Activity) (failure : LlmFailure) : Agent M :=
  (agent.append [.turnEnd (if activity.aborted then .aborted else .error failure)]).settle activity

/-- A turn that ended; pending work opens the next one under a fresh controller. -/
def endTurn (agent : Agent M) (activity : Activity) : Agent M :=
  let ended := agent.append [.turnEnd (activity.turnEnds.getD .completed)]
  if agent.hasPending then ended.openTurn .fresh else ended.settle activity

def abortedFailure : LlmFailure := ⟨"aborted", "UNKNOWN"⟩

def poll (agent : Agent M) (activity : Activity) : Agent M :=
  if activity.aborted then agent.settle activity else agent.openTurn activity

/-- The step is prepared: it failed, a hook rejected it, or it enters these messages. -/
def prepared (decision : Except LlmFailure (Option (List M))) (agent : Agent M)
    (activity : Activity) : Agent M :=
  if activity.aborted then agent.failTurn activity abortedFailure
  else match decision with
    | .error failure => agent.failTurn activity failure
    | .ok none => agent.endTurn { activity with turnEnds := some .blocked }
    | .ok (some messages) =>
      if messages.isEmpty ∧ activity.turnEnds.isSome then agent.endTurn activity
      else if messages.isEmpty ∧ activity.step = 0 then
        agent.endTurn { activity with turnEnds := some .completed }
      else
        { agent.append (.stepStart :: messages.map fun _ => .userMessage) with
          activity := some { activity with step := activity.step + 1, stage := .stepping } }

/-- How a model call with its tools may end a step. -/
inductive StepEnd where
  | failed (failure : LlmFailure)
  | owing
  | completed
  | maxTokens

def StepEnd.reason : StepEnd → Option TurnEndReason
  | .completed => some .completed
  | .maxTokens => some .maxTokens
  | .failed _ | .owing => none

/-- The step has ended. The token limit is sticky over the steps of a turn. -/
def stepped (stepEnd : StepEnd) (agent : Agent M) (activity : Activity) : Agent M :=
  let agent := agent.append [.stepEnd]
  match stepEnd with
  | .failed failure => agent.failTurn activity failure
  | stepEnd =>
    let activity := { activity with
      turnEnds := if activity.turnEnds = some .maxTokens then some .maxTokens
        else stepEnd.reason }
    if activity.aborted then agent.failTurn activity abortedFailure
    else if activity.turnEnds.isSome ∧ agent.nextStep.isEmpty then
      { agent with activity := some { activity with stage := .stopping } }
    else agent.prepare activity

/-- The hooks of a stopping turn have run. -/
def stopped (agent : Agent M) (activity : Activity) : Agent M :=
  if activity.aborted then agent.failTurn activity abortedFailure
  else if agent.nextStep.isEmpty then agent.endTurn activity
  else agent.prepare activity

end Agent

/-! ## What the driver leaves in the log -/

def turnEnd? : SessionEvent → Option TurnEndReason
  | .turnEnd reason => some reason
  | _ => none

/-- The reason of the last turn end of a log. -/
def lastTurnEnd (log : List SessionEvent) : Option TurnEndReason := log.reverse.findSome? turnEnd?

theorem lastTurnEnd_append (first second : List SessionEvent) :
    lastTurnEnd (first ++ second) = (lastTurnEnd second).or (lastTurnEnd first) := by
  rw [lastTurnEnd, reverse_append, findSome?_append]
  rfl

def NoTurnEnd (events : List SessionEvent) : Prop := ∀ event ∈ events, turnEnd? event = none

theorem lastTurnEnd_append_of_noTurnEnd {events : List SessionEvent} (hevents : NoTurnEnd events)
    (log : List SessionEvent) : lastTurnEnd (log ++ events) = lastTurnEnd log := by
  have hnone : lastTurnEnd events = none := by
    rw [lastTurnEnd, findSome?_eq_none_iff]
    exact fun event hevent => hevents event (mem_reverse.1 hevent)
  rw [lastTurnEnd_append, hnone, none_or]

/-- What a move of the driver does: it goes on with its turn, it ends the turn, or it retires
without having opened one. -/
inductive Moved (agent : Agent M) (activity : Activity) (next : Agent M) : Prop
  | on (events : List SessionEvent) (later : Activity) (hevents : NoTurnEnd events)
      (hlog : next.log = agent.log ++ events) (hactivity : next.activity = some later)
      (haborted : later.aborted = activity.aborted)
      (hwake : later.wakeRequested = activity.wakeRequested)
      (hactive : activity.aborted = true → activity.stage ≠ .scheduled)
      (hopen : later.stage ≠ .scheduled) (hends : later.turnEnds ≠ some .aborted)
      (hpending : activity.aborted = true → agent.hasPending = true → next.hasPending = true)
  | ended (events rest : List SessionEvent) (reason : TurnEndReason)
      (hlog : next.log = agent.log ++ (events ++ .turnEnd reason :: rest))
      (hevents : NoTurnEnd events) (hrest : NoTurnEnd rest)
      (hactive : activity.aborted = true → activity.stage ≠ .scheduled)
      (hreason : reason = .aborted ↔ activity.aborted = true)
      (hretired : next.activity =
          (if activity.wakeRequested && agent.hasPending then some .fresh else none) ∨
        activity.aborted = false ∧
          ∃ later, next.activity = some later ∧ later.aborted = false ∧
            later.wakeRequested = false ∧ later.turnEnds ≠ some .aborted)
  | unopened (haborted : activity.aborted = true) (hstage : activity.stage = .scheduled)
      (hlog : next.log = agent.log)
      (hretired : next.activity =
        if activity.wakeRequested && agent.hasPending then some .fresh else none)

theorem lastTurnEnd_of_ended {log events rest : List SessionEvent} (reason : TurnEndReason)
    (hrest : NoTurnEnd rest) :
    lastTurnEnd (log ++ (events ++ .turnEnd reason :: rest)) = some reason := by
  have hsplit : log ++ (events ++ .turnEnd reason :: rest) =
      (log ++ events ++ [.turnEnd reason]) ++ rest := by simp
  rw [hsplit, lastTurnEnd_append_of_noTurnEnd hrest, lastTurnEnd_append]
  rfl

section Moves

variable {agent : Agent M} {activity : Activity}

theorem Moved.exists_log {next : Agent M} (hmoved : Moved agent activity next) :
    ∃ events, next.log = agent.log ++ events := by
  cases hmoved with
  | on events _ _ hlog => exact ⟨events, hlog⟩
  | ended events rest reason hlog => exact ⟨_, hlog⟩
  | unopened _ _ hlog => exact ⟨[], by rw [hlog, append_nil]⟩

theorem Moved.later {next : Agent M} (hmoved : Moved agent activity next) {later : Activity}
    (hlater : next.activity = some later) :
    (later.aborted = activity.aborted ∧ later.wakeRequested = activity.wakeRequested ∧
        later.turnEnds ≠ some .aborted ∧
        (activity.aborted = true → agent.hasPending = true → next.hasPending = true)) ∨
      (later.aborted = false ∧ later.wakeRequested = false ∧ later.turnEnds ≠ some .aborted) := by
  cases hmoved with
  | on events moved hevents hlog hactivity haborted hwake hactive hopen hends hpending =>
    obtain rfl := mem_unique hactivity hlater
    exact .inl ⟨haborted, hwake, hends, hpending⟩
  | ended events rest reason hlog hevents hrest hactive hreason hretired =>
    rcases hretired with hretired | ⟨-, fresh, hfresh, hopen⟩
    · rw [hretired, ite_none_right_eq_some, some.injEq] at hlater
      obtain ⟨-, rfl⟩ := hlater
      exact .inr ⟨rfl, rfl, nofun⟩
    · obtain rfl := mem_unique hfresh hlater
      exact .inr hopen
  | unopened haborted hstage hlog hretired =>
    rw [hretired, ite_none_right_eq_some, some.injEq] at hlater
    obtain ⟨-, rfl⟩ := hlater
    exact .inr ⟨rfl, rfl, nofun⟩

theorem moved_failTurn {events : List SessionEvent} (hevents : NoTurnEnd events)
    (hopen : activity.stage ≠ .scheduled) {later : Activity}
    (haborted : later.aborted = activity.aborted)
    (hwake : later.wakeRequested = activity.wakeRequested) (failure : LlmFailure) :
    Moved agent activity ((agent.append events).failTurn later failure) :=
  .ended events [] (if later.aborted then .aborted else .error failure)
    (append_assoc _ _ _) hevents nofun (fun _ => hopen)
    (by rw [haborted]; cases activity.aborted <;> simp) (.inl (by rw [← hwake]; rfl))

theorem moved_endTurn {later : Activity} (haborted : activity.aborted = false)
    (hlater : later.wakeRequested = activity.wakeRequested)
    (hends : later.turnEnds ≠ some .aborted) : Moved agent activity (agent.endTurn later) := by
  have hreason : later.turnEnds.getD .completed ≠ .aborted := by
    cases hturn : later.turnEnds with
    | none => exact nofun
    | some reason => exact fun heq => hends (by rw [hturn, ← heq]; rfl)
  rw [Agent.endTurn]
  split
  next hpending =>
    refine .ended [] [.turnStart] (later.turnEnds.getD .completed) ?_ nofun ?_
      (fun h => absurd h (by simp [haborted])) ?_ (.inr ⟨haborted, _, rfl, rfl, rfl, nofun⟩)
    · exact append_assoc _ _ _
    · simp [NoTurnEnd, turnEnd?]
    · simp [hreason, haborted]
  next hnone =>
    refine .ended [] [] (later.turnEnds.getD .completed) rfl nofun nofun
      (fun h => absurd h (by simp [haborted])) ?_ (.inl ?_)
    · simp [hreason, haborted]
    · rw [← hlater]
      rfl

theorem moved_poll (hstage : activity.stage = .scheduled) :
    Moved agent activity (agent.poll activity) := by
  rw [Agent.poll]
  split
  next haborted => exact .unopened haborted hstage rfl rfl
  next haborted =>
    exact .on [.turnStart] _ (by simp [NoTurnEnd, turnEnd?]) rfl rfl rfl rfl
      (fun h => absurd h haborted) nofun nofun (fun h => absurd h haborted)

theorem moved_prepare {events : List SessionEvent} (hevents : NoTurnEnd events)
    {later : Activity} (haborted : activity.aborted = false)
    (hsame : later.aborted = activity.aborted)
    (hwake : later.wakeRequested = activity.wakeRequested)
    (hends : later.turnEnds ≠ some .aborted) :
    Moved agent activity ((agent.append events).prepare later) :=
  .on events _ hevents rfl rfl hsame hwake (fun h => absurd h (by simp [haborted])) nofun hends
    (fun h => absurd h (by simp [haborted]))

theorem moved_prepared (decision : Except LlmFailure (Option (List M)))
    (hopen : activity.stage ≠ .scheduled) (hends : activity.turnEnds ≠ some .aborted) :
    Moved agent activity (agent.prepared decision activity) := by
  have hfail := @moved_failTurn M agent activity [] nofun hopen activity rfl rfl
  simp only [Agent.append, append_nil] at hfail
  simp only [Agent.prepared]
  split
  · exact hfail _
  next haborted =>
    rw [not_eq_true] at haborted
    split
    next failure => exact hfail failure
    · exact moved_endTurn haborted rfl nofun
    next messages =>
      split
      · exact moved_endTurn haborted rfl hends
      · split
        · exact moved_endTurn haborted rfl nofun
        · refine .on (.stepStart :: messages.map fun _ => .userMessage) _ ?_ rfl rfl rfl rfl
            (fun _ => hopen) nofun hends (fun h => absurd h (by simp [haborted]))
          simp [NoTurnEnd, turnEnd?]

theorem moved_stepped (stepEnd : Agent.StepEnd) (hopen : activity.stage ≠ .scheduled) :
    Moved agent activity (agent.stepped stepEnd activity) := by
  have hevents : NoTurnEnd [.stepEnd] := by simp [NoTurnEnd, turnEnd?]
  have hends : (if activity.turnEnds = some .maxTokens then some .maxTokens
      else stepEnd.reason) ≠ some TurnEndReason.aborted := by
    split
    · exact nofun
    · cases stepEnd <;> exact nofun
  have hgoes : ∀ later : Activity, later.aborted = activity.aborted →
      later.wakeRequested = activity.wakeRequested → later.turnEnds ≠ some .aborted →
      Moved agent activity
        (if later.aborted then (agent.append [.stepEnd]).failTurn later Agent.abortedFailure
        else if later.turnEnds.isSome ∧ (agent.append [.stepEnd]).nextStep.isEmpty then
          { agent.append [.stepEnd] with activity := some { later with stage := .stopping } }
        else (agent.append [.stepEnd]).prepare later) := by
    intro later haborted hwake hlater
    split
    · exact moved_failTurn hevents hopen haborted hwake _
    next h =>
      rw [haborted, not_eq_true] at h
      split
      · exact .on [.stepEnd] _ hevents rfl rfl haborted hwake (fun _ => hopen) nofun hlater
          (fun ha => absurd ha (by simp [h]))
      · exact moved_prepare hevents h haborted hwake hlater
  cases stepEnd with
  | failed failure => exact moved_failTurn hevents hopen rfl rfl failure
  | owing | completed | maxTokens => exact hgoes _ rfl rfl hends

variable (hopen : activity.stage ≠ .scheduled) (hends : activity.turnEnds ≠ some .aborted)
include hopen hends

theorem moved_stopped : Moved agent activity (agent.stopped activity) := by
  have hfail := @moved_failTurn M agent activity [] nofun hopen activity rfl rfl Agent.abortedFailure
  have hprepare := fun haborted =>
    @moved_prepare M agent activity [] nofun activity haborted rfl rfl hends
  simp only [Agent.append, append_nil] at hfail hprepare
  rw [Agent.stopped]
  split
  · exact hfail
  next haborted =>
    rw [not_eq_true] at haborted
    split
    · exact moved_endTurn haborted rfl hends
    · exact hprepare haborted

theorem moved_inject (hactivity : agent.activity = some activity) (message : M) :
    Moved agent activity (agent.inject message) :=
  .on [] activity nofun (append_nil _).symm hactivity rfl rfl (fun _ => hopen) hopen hends
    (fun _ h => by simp_all [Agent.hasPending, Agent.inject])

theorem moved_append (hactivity : agent.activity = some activity) {event : SessionEvent}
    (hevent : turnEnd? event = none) : Moved agent activity (agent.append [event]) :=
  .on [event] activity (by simpa [NoTurnEnd] using hevent) rfl hactivity rfl rfl (fun _ => hopen)
    hopen hends (fun _ h => h)

end Moves

/-! ## The run -/

/-- The parts of a run request the stream shows, and its prompt. -/
structure RunRequest (M : Type) where
  model : Option String
  cwd : String
  prompt : M

inductive Bridge where
  | driving
  /-- The outcome is read; the session is flushed and disposed of. -/
  | closing (done : AgentEvent)
  | closed
deriving DecidableEq

structure Run (M : Type) where
  sessionId : String
  /-- The log the run found. -/
  earlier : List SessionEvent
  agent : Agent M
  bridge : Bridge
  /-- The interrupt has reached the agent. -/
  interrupted : Bool
  /-- It found the agent at work. -/
  cancelled : Bool
  stream : List AgentEvent

inductive Action (M : Type) where
  | interrupt
  /-- The steering task hands a message to the agent. -/
  | receive (message : M)
  | poll
  | prepared (decision : Except LlmFailure (Option (List M)))
  /-- A turn's other work commits an event of the session. -/
  | emit (event : SessionEvent)
  | inject (message : M)
  /-- The live status of a step's selector. -/
  | activity (activity : Option DecisionActivity)
  | stepped (stepEnd : Agent.StepEnd)
  | stopped
  /-- The wait for idleness returns, and the outcome is read. -/
  | idleSeen
  | close

namespace Run

def doneEvent (sessionId : String) : Option TurnEndReason → AgentEvent
  | some .aborted => .done .interrupted none none (some sessionId)
  | some (.error failure) =>
    .done .errored none (some (failure.message ++ " (" ++ failure.code ++ ")")) (some sessionId)
  | _ => .done .completed none none (some sessionId)

def startedEvent (request : RunRequest M) (sessionId assistantMessageId : String) : AgentEvent :=
  .sessionStarted .dsh (request.model.getD "deepseek-chat") [] request.cwd sessionId
    assistantMessageId

/-- A run of a created or resumed agent, with the log and the inbox it found, once it has
sent its prompt. -/
def start (request : RunRequest M) (sessionId assistantMessageId : String)
    (earlier : List SessionEvent) (nextTurn nextStep : List M) : Run M where
  sessionId := sessionId
  earlier := earlier
  agent := Agent.followup ⟨earlier, nextTurn, nextStep, none⟩ request.prompt
  bridge := .driving
  interrupted := false
  cancelled := false
  stream := [startedEvent request sessionId assistantMessageId]

section Steps

variable [JsonParser]

/-- The agent moves; what it commits is forwarded. -/
def advance (run : Run M) (agent : Agent M) : Run M :=
  { run with
    agent
    stream := run.stream ++ (agent.log.drop run.agent.log.length).flatMap translate }

def drive (run : Run M) (stage : Stage) (move : Agent M → Activity → Agent M) : Option (Run M) :=
  match run.agent.activity with
  | some activity => if activity.stage = stage then some (run.advance (move run.agent activity))
      else none
  | none => none

def step (run : Run M) : Action M → Option (Run M)
  | .interrupt =>
    if run.bridge = .driving ∧ run.interrupted = false then
      some { run with
        agent := run.agent.cancel, interrupted := true
        cancelled := run.agent.activity.isSome }
    else none
  | .receive message =>
    if run.bridge = .driving then some { run with agent := run.agent.steer message } else none
  | .poll => run.drive .scheduled Agent.poll
  | .prepared decision => run.drive .preparing (Agent.prepared decision)
  | .emit event =>
    if turnEnd? event = none ∧ run.agent.activity.any (·.stage ≠ .scheduled) then
      some (run.advance (run.agent.append [event]))
    else none
  | .inject message =>
    if run.agent.activity.any (·.stage ≠ .scheduled) then
      some (run.advance (run.agent.inject message))
    else none
  | .activity activity =>
    if run.agent.activity.any (·.stage ≠ .scheduled) then
      some { run with stream := run.stream ++ [.decisionActivity activity] }
    else none
  | .stepped stepEnd => run.drive .stepping (Agent.stepped stepEnd)
  | .stopped => run.drive .stopping Agent.stopped
  | .idleSeen =>
    if run.bridge = .driving ∧ run.agent.activity = none then
      some { run with
        bridge := .closing (doneEvent run.sessionId (lastTurnEnd run.agent.log)) }
    else none
  | .close =>
    match run.bridge with
    | .closing done => some { run with bridge := .closed, stream := run.stream ++ [done] }
    | _ => none

/-! ## What a run should report -/

def own (run : Run M) : List SessionEvent := run.agent.log.drop run.earlier.length

/-- The terminal event of a run whose interrupt cancelled the agent's work, and of one that
ends with its own last turn. -/
def ownDone (run : Run M) : AgentEvent :=
  if run.cancelled then .done .interrupted none none (some run.sessionId)
  else match lastTurnEnd run.own with
    | some (.error failure) =>
      .done .errored none (some (failure.message ++ " (" ++ failure.code ++ ")"))
        (some run.sessionId)
    | _ => .done .completed none none (some run.sessionId)

/-- The events that stand at an end of a stream. -/
def isEnd : AgentEvent → Bool
  | .sessionStarted .. | .done .. => true
  | _ => false

/-- The stream starts with the start of the session and ends with one terminal event, the
run's own. -/
def OwnOutcome (run : Run M) : Prop :=
  ∃ model tools cwd assistantMessageId middle,
    run.stream = .sessionStarted .dsh model tools cwd run.sessionId assistantMessageId ::
      (middle ++ [run.ownDone]) ∧
    ∀ event ∈ middle, isEnd event = false

omit [JsonParser] in
theorem OwnOutcome.getLast? {run : Run M} (hown : OwnOutcome run) :
    run.stream.getLast? = some run.ownDone := by
  obtain ⟨model, tools, cwd, assistantMessageId, middle, hstream, -⟩ := hown
  rw [hstream, ← cons_append, getLast?_concat]

/-- The interrupt does not reach a driver before its turn opens, unless the log ends with an
interrupted turn anyway, and no message reaches the agent once the interrupt has cancelled
its work. -/
def InTime (run : Run M) : Action M → Prop
  | .interrupt => run.agent.activity.any (·.stage = .scheduled) →
      lastTurnEnd run.agent.log = some .aborted
  | .receive _ => run.cancelled = false
  | _ => True

instance (run : Run M) : ∀ action, Decidable (InTime run action)
  | .interrupt => inferInstanceAs (Decidable (_ → _))
  | .receive _ => inferInstanceAs (Decidable (_ = _))
  | .poll | .prepared _ | .emit _ | .inject _ | .activity _ | .stepped _ | .stopped | .idleSeen
  | .close => inferInstanceAs (Decidable True)

/-! ## What every run keeps -/

/-- An abort comes from the interrupt, a latched wake has work behind it, and an agent that
was left alone has ended a turn of its own before it is idle. -/
structure Sound (run : Run M) : Prop where
  log : run.earlier <+: run.agent.log
  cancelled : run.cancelled = true → run.interrupted = true
  aborted : ∀ activity, run.agent.activity = some activity → activity.aborted = true →
    run.cancelled = true
  wake : ∀ activity, run.agent.activity = some activity → activity.wakeRequested = true →
    activity.aborted = true ∧ run.agent.hasPending = true
  ends : ∀ activity, run.agent.activity = some activity → activity.turnEnds ≠ some .aborted
  ended : run.cancelled = false → run.agent.activity = none → lastTurnEnd run.own ≠ none
  own : run.cancelled = false → lastTurnEnd run.own ≠ some .aborted
  driving : run.agent.activity ≠ none → run.bridge = .driving
  closing : ∀ done, run.bridge = .closing done →
    done = doneEvent run.sessionId (lastTurnEnd run.agent.log)

/-- The agent ends with an interrupted turn: the log ends with one, or the aborted activity is
about to end one, and no wake is latched behind it. -/
def Ending : Option Activity → Option TurnEndReason → Prop
  | none, last => last = some .aborted
  | some activity, last => activity.aborted = true ∧ activity.wakeRequested = false ∧
      (activity.stage = .scheduled → last = some .aborted)

/-- An agent whose work was cancelled ends with an interrupted turn. -/
def Course (run : Run M) : Prop :=
  run.cancelled = true → Ending run.agent.activity (lastTurnEnd run.agent.log)

variable {run : Run M} {activity : Activity} {agent : Agent M}

omit [JsonParser] in
theorem own_append (hlog : run.earlier <+: run.agent.log) (events : List SessionEvent) :
    (run.agent.log ++ events).drop run.earlier.length = run.own ++ events :=
  drop_append_of_le_length hlog.length_le

omit [JsonParser] in
theorem lastTurnEnd_own_moved (hsound : Sound run) (hactivity : run.agent.activity = some activity)
    (hmoved : Moved run.agent activity agent) (hcancelled : run.cancelled = false) :
    lastTurnEnd (agent.log.drop run.earlier.length) ≠ some .aborted ∧
      (agent.activity = none → lastTurnEnd (agent.log.drop run.earlier.length) ≠ none) := by
  have hlive : ¬ activity.aborted = true := fun haborted => by
    rw [hsound.aborted activity hactivity haborted] at hcancelled
    cases hcancelled
  cases hmoved with
  | on events later hevents hlog hlater =>
    rw [hlog, own_append hsound.log, lastTurnEnd_append_of_noTurnEnd hevents]
    exact ⟨hsound.own hcancelled, fun hnone => absurd (hlater.symm.trans hnone) nofun⟩
  | ended events rest reason hlog hevents hrest hactive hreason =>
    rw [hlog, own_append hsound.log, lastTurnEnd_of_ended reason hrest]
    exact ⟨fun heq => hlive (hreason.1 (Option.some.inj heq)), fun _ => nofun⟩
  | unopened haborted => exact absurd haborted hlive

theorem Sound.advance (hsound : Sound run) (hactivity : run.agent.activity = some activity)
    (hmoved : Moved run.agent activity agent) : Sound (run.advance agent) := by
  have hdriving : run.bridge = .driving := hsound.driving (by simp [hactivity])
  refine ⟨?_, hsound.cancelled, ?_, ?_, ?_, ?_, ?_, fun _ => hdriving, ?_⟩
  · obtain ⟨events, hlog⟩ := hmoved.exists_log
    exact hsound.log.trans (hlog ▸ prefix_append _ _)
  · intro later hlater haborted
    rcases hmoved.later hlater with ⟨hsame, -⟩ | ⟨hlive, -⟩
    · exact hsound.aborted activity hactivity (hsame ▸ haborted)
    · rw [hlive] at haborted
      cases haborted
  · intro later hlater hwake
    rcases hmoved.later hlater with ⟨hsame, hlatched, -, hpending⟩ | ⟨-, hunlatched, -⟩
    · obtain ⟨haborted, hwaiting⟩ := hsound.wake activity hactivity (hlatched ▸ hwake)
      exact ⟨hsame.trans haborted, hpending haborted hwaiting⟩
    · rw [hunlatched] at hwake
      cases hwake
  · intro later hlater
    rcases hmoved.later hlater with ⟨-, -, hends, -⟩ | ⟨-, -, hends⟩
    · exact hends
    · exact hends
  · exact fun hcancelled => (lastTurnEnd_own_moved hsound hactivity hmoved hcancelled).2
  · exact fun hcancelled => (lastTurnEnd_own_moved hsound hactivity hmoved hcancelled).1
  · intro done hdone
    cases hdriving.symm.trans hdone

omit [JsonParser] in
/-- A driver that retires behind an abort leaves the agent idle, or wakes another one. -/
theorem Sound.ending_retired (hsound : Sound run) (hactivity : run.agent.activity = some activity)
    (last : Option TurnEndReason) :
    Ending (if activity.wakeRequested && run.agent.hasPending then some .fresh else none) last ↔
      activity.wakeRequested = false ∧ last = some .aborted := by
  cases hwake : activity.wakeRequested with
  | true =>
    rw [(hsound.wake activity hactivity hwake).2]
    exact iff_of_false (fun h => by cases h.1) (fun h => by cases h.1)
  | false => exact (and_iff_right rfl).symm

theorem Sound.course_advance (hsound : Sound run) (hactivity : run.agent.activity = some activity)
    (hmoved : Moved run.agent activity agent) : Course (run.advance agent) ↔ Course run := by
  simp only [Course, hactivity, Run.advance]
  refine imp_congr_right fun hcancelled => ?_
  cases hmoved with
  | on events later hevents hlog hlater haborted hwake hactive hopen =>
    rw [hlater, Ending, Ending, haborted, hwake]
    refine and_congr_right fun h => and_congr_right fun _ => ?_
    exact ⟨fun _ hstage => absurd hstage (hactive h), fun _ hstage => absurd hstage hopen⟩
  | ended events rest reason hlog hevents hrest hactive hreason hretired =>
    rw [hlog, lastTurnEnd_of_ended reason hrest]
    cases haborted : activity.aborted with
    | true =>
      rcases hretired with hretired | ⟨hlive, -⟩
      · rw [hretired, hsound.ending_retired hactivity, hreason.2 haborted]
        exact ⟨fun h => ⟨haborted, h.1, fun hstage => absurd hstage (hactive haborted)⟩,
          fun h => ⟨h.2.1, rfl⟩⟩
      · rw [haborted] at hlive
        cases hlive
    | false =>
      -- The turn ended on its own, so neither it nor what follows is interrupted.
      have hother : reason ≠ .aborted := fun heq => by
        rw [hreason.1 heq] at haborted
        cases haborted
      refine iff_of_false (fun h => ?_) (fun h => absurd (haborted.symm.trans h.1) nofun)
      rcases hretired with hretired | ⟨-, later, hlater, hlive, -⟩
      · rw [hretired, hsound.ending_retired hactivity] at h
        exact hother (Option.some.inj h.2)
      · rw [hlater, Ending, hlive] at h
        cases h.1
  | unopened haborted hstage hlog hretired =>
    rw [hlog, hretired, hsound.ending_retired hactivity, Ending]
    exact ⟨fun h => ⟨haborted, h.1, fun _ => h.2⟩, fun h => ⟨h.2.1, h.2.2 hstage⟩⟩

section
omit [JsonParser]

theorem Sound.not_cancelled (hsound : Sound run) (hfirst : run.interrupted = false) :
    run.cancelled = false := by
  cases hcancelled : run.cancelled with
  | true => exact absurd ((hsound.cancelled hcancelled).symm.trans hfirst) nofun
  | false => rfl

theorem Sound.interrupt (hsound : Sound run) (hdriving : run.bridge = .driving)
    (hfirst : run.interrupted = false) :
    Sound { run with
      agent := run.agent.cancel, interrupted := true
      cancelled := run.agent.activity.isSome } := by
  refine ⟨hsound.log, fun _ => rfl, ?_, ?_, ?_, ?_, fun _ => hsound.own (hsound.not_cancelled hfirst),
    fun _ => hdriving, fun done hdone => absurd (hdriving.symm.trans hdone) nofun⟩
  · intro activity hactivity _
    obtain ⟨before, hbefore, -⟩ := map_eq_some_iff.1 hactivity
    exact isSome_of_mem hbefore
  · intro activity hactivity hwake
    obtain ⟨before, -, rfl⟩ := map_eq_some_iff.1 hactivity
    cases hwake
  · intro activity hactivity
    obtain ⟨before, hbefore, rfl⟩ := map_eq_some_iff.1 hactivity
    exact hsound.ends before hbefore
  · intro _ hidle
    exact hsound.ended (hsound.not_cancelled hfirst) (map_eq_none_iff.1 hidle)

theorem Sound.course_interrupt (hsound : Sound run) (hfirst : run.interrupted = false) :
    Course { run with
      agent := run.agent.cancel, interrupted := true
      cancelled := run.agent.activity.isSome } ↔ Course run ∧ InTime run .interrupt := by
  have hcourse : Course run := fun hcancelled =>
    absurd (hcancelled.symm.trans (hsound.not_cancelled hfirst)) nofun
  rw [and_iff_right hcourse, Course, InTime, Agent.cancel]
  cases run.agent.activity with
  | none => simp
  | some activity => simp [Ending]

end

/-- The activity behind a message of the user: a fresh one, or the live one, with a wake
latched if it was aborted. -/
def woken : Option Activity → Activity
  | none => .fresh
  | some activity => { activity with
      wakeRequested := activity.aborted || activity.wakeRequested }

section
omit [JsonParser]

theorem steer_spec (agent : Agent M) (message : M) :
    (agent.steer message).log = agent.log ∧ (agent.steer message).hasPending = true ∧
      (agent.steer message).activity = some (woken agent.activity) := by
  simp only [Agent.steer, Agent.send, Agent.wakeDriver]
  cases agent.activity with
  | none => simp [Agent.hasPending, woken]
  | some activity =>
    obtain ⟨aborted, wakeRequested, step, turnEnds, stage⟩ := activity
    cases aborted with
    | true | false => simp [Agent.hasPending, woken]

theorem Sound.receive (hsound : Sound run) (hdriving : run.bridge = .driving) (message : M) :
    Sound { run with agent := run.agent.steer message } := by
  obtain ⟨hlog, hpending, hactivity⟩ := steer_spec run.agent message
  have hown : Run.own { run with agent := run.agent.steer message } = run.own := by
    rw [Run.own, hlog]
    rfl
  refine ⟨hlog ▸ hsound.log, hsound.cancelled, ?_, ?_, ?_,
    fun _ hidle => absurd (hactivity.symm.trans hidle) nofun, hown ▸ hsound.own,
    fun _ => hdriving, fun done hdone => absurd (hdriving.symm.trans hdone) nofun⟩
  all_goals
    intro activity hsome
    obtain rfl := mem_unique hactivity hsome
    cases hbefore : run.agent.activity with
    | none => exact nofun
    | some before => _
  · exact hsound.aborted before hbefore
  · intro hwake
    rcases or_eq_true_iff.1 hwake with haborted | hlatched
    · exact ⟨haborted, hpending⟩
    · exact ⟨(hsound.wake before hbefore hlatched).1, hpending⟩
  · exact hsound.ends before hbefore

theorem course_receive (message : M) :
    Course { run with agent := run.agent.steer message } ↔
      Course run ∧ InTime run (.receive message) := by
  obtain ⟨hlog, -, hactivity⟩ := steer_spec run.agent message
  rw [Course, InTime]
  cases hcancelled : run.cancelled with
  | false => exact iff_of_true nofun ⟨fun h => absurd (hcancelled.symm.trans h) nofun, rfl⟩
  | true =>
    refine iff_of_false (fun hending => ?_) (fun h => nomatch h.2)
    have hending := hending rfl
    rw [hactivity] at hending
    cases hbefore : run.agent.activity with
    | none =>
      rw [hbefore] at hending
      cases hending.1
    | some activity =>
      rw [hbefore] at hending
      obtain ⟨(haborted : activity.aborted = true),
        (hlatched : (activity.aborted || activity.wakeRequested) = false), -⟩ := hending
      rw [haborted] at hlatched
      cases hlatched

end

theorem drive_eq_some {stage : Stage} {move : Agent M → Activity → Agent M} {next : Run M}
    (hdrive : run.drive stage move = some next) :
    ∃ activity, run.agent.activity = some activity ∧ activity.stage = stage ∧
      next = run.advance (move run.agent activity) := by
  rw [Run.drive] at hdrive
  split at hdrive
  next activity hactivity =>
    rw [ite_none_right_eq_some] at hdrive
    exact ⟨activity, hactivity, hdrive.1, (Option.some.inj hdrive.2).symm⟩
  · cases hdrive

/-- What an action does to a run: the driver moves, or the bridge works. -/
inductive Acted (run : Run M) : Action M → Run M → Prop
  | moved {action : Action M} {activity : Activity} {agent : Agent M}
      (haction : ∀ before, InTime before action) (hactivity : run.agent.activity = some activity)
      (hmoved : Moved run.agent activity agent) : Acted run action (run.advance agent)
  | interrupt (hdriving : run.bridge = .driving) (hfirst : run.interrupted = false) :
      Acted run .interrupt { run with
        agent := run.agent.cancel, interrupted := true, cancelled := run.agent.activity.isSome }
  | receive (hdriving : run.bridge = .driving) (message : M) :
      Acted run (.receive message) { run with agent := run.agent.steer message }
  | activity (hlive : run.agent.activity ≠ none) (activity : Option DecisionActivity) :
      Acted run (.activity activity) { run with stream := run.stream ++ [.decisionActivity activity] }
  | idleSeen (hdriving : run.bridge = .driving) (hidle : run.agent.activity = none) :
      Acted run .idleSeen { run with
        bridge := .closing (doneEvent run.sessionId (lastTurnEnd run.agent.log)) }
  | close {done : AgentEvent} (hclosing : run.bridge = .closing done) :
      Acted run .close { run with bridge := .closed, stream := run.stream ++ [done] }

theorem acted_of_step {next : Run M} {action : Action M} (hsound : Sound run)
    (hstep : run.step action = some next) : Acted run action next := by
  cases action with
  | poll =>
    obtain ⟨activity, hactivity, hstage, rfl⟩ := drive_eq_some hstep
    exact .moved (fun _ => trivial) hactivity (moved_poll hstage)
  | prepared decision =>
    obtain ⟨activity, hactivity, hstage, rfl⟩ := drive_eq_some hstep
    exact .moved (fun _ => trivial) hactivity
      (moved_prepared decision (by simp [hstage]) (hsound.ends activity hactivity))
  | stepped stepEnd =>
    obtain ⟨activity, hactivity, hstage, rfl⟩ := drive_eq_some hstep
    exact .moved (fun _ => trivial) hactivity (moved_stepped stepEnd (by simp [hstage]))
  | stopped =>
    obtain ⟨activity, hactivity, hstage, rfl⟩ := drive_eq_some hstep
    exact .moved (fun _ => trivial) hactivity
      (moved_stopped (by simp [hstage]) (hsound.ends activity hactivity))
  | emit event =>
    obtain ⟨⟨hevent, hlive⟩, hnext⟩ := ite_none_right_eq_some.mp hstep
    obtain ⟨activity, hactivity, hopen⟩ := (any_eq_true _ _).1 hlive
    cases hnext
    exact .moved (fun _ => trivial) hactivity (moved_append (of_decide_eq_true hopen)
      (hsound.ends activity hactivity) hactivity hevent)
  | inject message =>
    obtain ⟨hlive, hnext⟩ := ite_none_right_eq_some.mp hstep
    obtain ⟨activity, hactivity, hopen⟩ := (any_eq_true _ _).1 hlive
    cases hnext
    exact .moved (fun _ => trivial) hactivity (moved_inject (of_decide_eq_true hopen)
      (hsound.ends activity hactivity) hactivity message)
  | interrupt =>
    obtain ⟨⟨hdriving, hfirst⟩, hnext⟩ := ite_none_right_eq_some.mp hstep
    cases hnext
    exact .interrupt hdriving hfirst
  | receive message =>
    obtain ⟨hdriving, hnext⟩ := ite_none_right_eq_some.mp hstep
    cases hnext
    exact .receive hdriving message
  | activity activity =>
    obtain ⟨hlive, hnext⟩ := ite_none_right_eq_some.mp hstep
    cases hnext
    exact .activity (fun hidle => by simp [hidle] at hlive) activity
  | idleSeen =>
    obtain ⟨⟨hdriving, hidle⟩, hnext⟩ := ite_none_right_eq_some.mp hstep
    cases hnext
    exact .idleSeen hdriving hidle
  | close =>
    rw [Run.step] at hstep
    split at hstep
    next done hclosing =>
      cases hstep
      exact .close hclosing
    · cases hstep

section
omit [JsonParser]

theorem Sound.withBridge (hsound : Sound run) {bridge : Bridge}
    (hdriving : run.agent.activity ≠ none → bridge = .driving)
    (hclosing : ∀ done, bridge = .closing done →
      done = doneEvent run.sessionId (lastTurnEnd run.agent.log)) (stream : List AgentEvent) :
    Sound { run with bridge, stream } :=
  ⟨hsound.log, hsound.cancelled, hsound.aborted, hsound.wake, hsound.ends, hsound.ended,
    hsound.own, hdriving, hclosing⟩

theorem course_withBridge (bridge : Bridge) (stream : List AgentEvent) :
    Course { run with bridge, stream } ↔ Course run := Iff.rfl

theorem Sound.idle (hsound : Sound run) (hbridge : run.bridge ≠ .driving) :
    run.agent.activity = none := by
  by_contra hlive
  exact hbridge (hsound.driving hlive)

end

theorem Sound.step {next : Run M} {action : Action M} (hsound : Sound run)
    (hstep : run.step action = some next) :
    Sound next ∧ (Course next ↔ Course run ∧ InTime run action) := by
  cases acted_of_step hsound hstep with
  | moved haction hactivity hmoved =>
    exact ⟨hsound.advance hactivity hmoved,
      (hsound.course_advance hactivity hmoved).trans (and_iff_left (haction run)).symm⟩
  | interrupt hdriving hfirst =>
    exact ⟨hsound.interrupt hdriving hfirst, hsound.course_interrupt hfirst⟩
  | receive hdriving message => exact ⟨hsound.receive hdriving message, course_receive message⟩
  | activity =>
    exact ⟨hsound.withBridge hsound.driving hsound.closing _,
      (course_withBridge run.bridge _).trans (and_iff_left trivial).symm⟩
  | idleSeen hdriving hidle =>
    exact ⟨hsound.withBridge (fun hlive => absurd hidle hlive)
      (fun done hdone => (Bridge.closing.inj hdone).symm) _,
      (course_withBridge _ run.stream).trans (and_iff_left trivial).symm⟩
  | close hclosing =>
    have hidle := hsound.idle (by simp [hclosing])
    exact ⟨hsound.withBridge (fun hlive => absurd hidle hlive) (fun _ h => by cases h) _,
      (course_withBridge .closed _).trans (and_iff_left trivial).symm⟩

/-! ## The stream -/

theorem isEnd_translate (event : SessionEvent) :
    ∀ agentEvent ∈ translate event, isEnd agentEvent = false := by
  intro agentEvent hmem
  cases event with
  | extension eventType data =>
    simp only [translate] at hmem
    split at hmem
    · simp only [mem_toList, map_eq_some_iff] at hmem
      obtain ⟨receipt, -, rfl⟩ := hmem
      rfl
    · simp at hmem
  | assistantChunk chunk => cases chunk <;> simp_all [translate, isEnd]
  | toolResult block => cases block <;> simp_all [translate, isEnd]
  | turnEnd reason => cases reason <;> simp_all [translate, isEnd]
  | _ => simp_all [translate, isEnd]

omit [JsonParser] in
/-- The terminal event of a closed stream. -/
def terminal (run : Run M) : List AgentEvent :=
  match run.bridge with
  | .closed => [doneEvent run.sessionId (lastTurnEnd run.agent.log)]
  | _ => []

/-- The stream starts with the start of the session and has no other end yet, or its terminal
one. -/
def Streamed (run : Run M) : Prop :=
  ∃ model tools cwd assistantMessageId middle,
    run.stream = .sessionStarted .dsh model tools cwd run.sessionId assistantMessageId ::
      (middle ++ run.terminal) ∧
    ∀ event ∈ middle, isEnd event = false

omit [JsonParser] in
theorem Streamed.extend {next : Run M} {events : List AgentEvent} (h : Streamed run)
    (hopen : run.bridge = .driving) (hbridge : next.bridge = run.bridge)
    (hsession : next.sessionId = run.sessionId) (hstream : next.stream = run.stream ++ events)
    (hevents : ∀ event ∈ events, isEnd event = false) : Streamed next := by
  obtain ⟨model, tools, cwd, assistantMessageId, middle, hbefore, hmiddle⟩ := h
  refine ⟨model, tools, cwd, assistantMessageId, middle ++ events, ?_, ?_⟩
  · rw [hstream, hbefore, hsession, terminal, terminal, hbridge, hopen]
    simp
  · intro event hevent
    rcases mem_append.1 hevent with hevent | hevent
    · exact hmiddle event hevent
    · exact hevents event hevent

omit [JsonParser] in
theorem Streamed.keep {agent : Agent M} {interrupted cancelled : Bool} (h : Streamed run)
    (hopen : run.bridge = .driving) :
    Streamed { run with agent, interrupted, cancelled } := by
  simpa only [Streamed, terminal, hopen] using h

theorem Streamed.step {next : Run M} {action : Action M} (h : Streamed run) (hsound : Sound run)
    (hstep : run.step action = some next) : Streamed next := by
  cases acted_of_step hsound hstep with
  | moved _ hactivity =>
    refine h.extend (hsound.driving (by simp [hactivity])) rfl rfl rfl fun event hevent => ?_
    obtain ⟨source, -, hsource⟩ := mem_flatMap.1 hevent
    exact isEnd_translate source event hsource
  | interrupt hdriving | receive hdriving => exact h.keep hdriving
  | activity hlive activity =>
    exact h.extend (hsound.driving hlive) rfl rfl rfl
      (forall_mem_singleton.2 (rfl : isEnd (.decisionActivity activity) = false))
  | idleSeen hdriving => simpa only [Streamed, terminal, hdriving] using h
  | @close done hclosing =>
    obtain ⟨model, tools, cwd, assistantMessageId, middle, hbefore, hmiddle⟩ := h
    refine ⟨model, tools, cwd, assistantMessageId, middle, ?_, hmiddle⟩
    simp only [terminal, hclosing] at hbefore
    simp only [terminal, hbefore, hsound.closing done hclosing]
    simp

section
omit [JsonParser]

/-- A closed run has reported its own outcome exactly when it is on course. -/
theorem ownDone_eq_iff_course (hsound : Sound run) (hclosed : run.bridge = .closed) :
    doneEvent run.sessionId (lastTurnEnd run.agent.log) = run.ownDone ↔ Course run := by
  have hidle := hsound.idle (by simp [hclosed])
  cases hcancelled : run.cancelled with
  | true =>
    simp only [Course, hidle, ownDone, hcancelled, Ending, if_true, forall_const]
    cases lastTurnEnd run.agent.log with
    | none => simp [doneEvent]
    | some reason => cases reason <;> simp [doneEvent]
  | false =>
    refine iff_of_true ?_ fun h => absurd (hcancelled.symm.trans h) nofun
    obtain ⟨events, hlog⟩ := hsound.log
    have hown : run.own = events := by rw [own, ← hlog, drop_left]
    have hended := hsound.ended hcancelled hidle
    have hother := hsound.own hcancelled
    rw [ownDone, hcancelled, hown, ← hlog, lastTurnEnd_append]
    rw [hown] at hended hother
    cases hlast : lastTurnEnd events with
    | none => exact absurd hlast hended
    | some reason =>
      cases reason with
      | aborted => exact absurd hlast hother
      | _ => rfl

theorem sound_start (request : RunRequest M) (sessionId assistantMessageId : String)
    (earlier : List SessionEvent) (nextTurn nextStep : List M) :
    Sound (start request sessionId assistantMessageId earlier nextTurn nextStep) where
  log := prefix_rfl
  cancelled := nofun
  aborted := by
    rintro activity ⟨⟩ ⟨⟩
  wake := by
    rintro activity ⟨⟩ ⟨⟩
  ends := by
    rintro activity ⟨⟩
    exact nofun
  ended _ hidle := by cases hidle
  own _ := by
    rw [own, start, Agent.followup, Agent.send]
    simp [lastTurnEnd, Agent.wakeDriver]
  driving _ := rfl
  closing _ hclosing := by cases hclosing

theorem streamed_start (request : RunRequest M) (sessionId assistantMessageId : String)
    (earlier : List SessionEvent) (nextTurn nextStep : List M) :
    Streamed (start request sessionId assistantMessageId earlier nextTurn nextStep) :=
  ⟨request.model.getD "deepseek-chat", [], request.cwd, assistantMessageId, [], rfl,
    fun _ h => absurd h not_mem_nil⟩

theorem ownOutcome_iff (hstreamed : Streamed run) (hclosed : run.bridge = .closed) :
    OwnOutcome run ↔ doneEvent run.sessionId (lastTurnEnd run.agent.log) = run.ownDone := by
  obtain ⟨model, tools, cwd, assistantMessageId, middle, hstream, hmiddle⟩ := hstreamed
  rw [terminal, hclosed] at hstream
  constructor
  · intro hown
    have hlast := hown.getLast?
    rw [hstream, ← cons_append, getLast?_concat] at hlast
    exact Option.some.inj hlast
  · intro hdone
    exact ⟨model, tools, cwd, assistantMessageId, middle, hdone ▸ hstream, hmiddle⟩

end

/-- A run that was told to end by its interrupt reports so, and another one reports its own
last turn, exactly when the interrupt and the messages of the user came in time. -/
theorem own_outcome_iff_inTime (request : RunRequest M) (sessionId assistantMessageId : String)
    (earlier : List SessionEvent) (nextTurn nextStep : List M) (trace : List (Action M))
    (final : Run M)
    (hrun : Trace.run Run.step (start request sessionId assistantMessageId earlier nextTurn
      nextStep) trace = some final) (hclosed : final.bridge = .closed) :
    OwnOutcome final ↔ Trace.Guarded Run.step InTime
      (start request sessionId assistantMessageId earlier nextTurn nextStep) trace := by
  have hsound : Sound final ∧ Streamed final :=
    @Trace.run_invariant _ _ Run.step (fun run => Sound run ∧ Streamed run)
      (fun _ _ _ h hstep => ⟨(h.1.step hstep).1, h.2.step h.1 hstep⟩) _ _ _
      ⟨sound_start request sessionId assistantMessageId earlier nextTurn nextStep,
        streamed_start request sessionId assistantMessageId earlier nextTurn nextStep⟩ hrun
  have hcourse := @Trace.final_iff_guarded_of_invariant _ _ Run.step InTime Sound Course
    (fun _ _ _ hsound hstep => (hsound.step hstep).1)
    (fun _ _ _ hsound hstep => (hsound.step hstep).2) _ _ _
    (sound_start request sessionId assistantMessageId earlier nextTurn nextStep) hrun
  rw [ownOutcome_iff hsound.2 hclosed, ownDone_eq_iff_course hsound.1 hclosed, hcourse]
  exact and_iff_right nofun

/-- The stream of a run is one session start, then events that end nothing, then its only end. -/
theorem stream_always (request : RunRequest M) (sessionId assistantMessageId : String)
    (earlier : List SessionEvent) (nextTurn nextStep : List M) (trace : List (Action M)) :
    Trace.Always Run.step Streamed
      (start request sessionId assistantMessageId earlier nextTurn nextStep) trace :=
  Trace.always_of_invariant (fun run (h : Sound run ∧ Streamed run) => h.2)
    (fun _ _ _ h hstep => ⟨(h.1.step hstep).1, h.2.step h.1 hstep⟩)
    ⟨sound_start .., streamed_start ..⟩

end Steps

section Examples

local instance : JsonParser := BridgeRun.noJson

def fresh : Run String := start ⟨none, "/home", "fix it"⟩ "session" "message" [] [] []

/-- A run of an agent whose last turn failed. -/
def afterFailure : Run String :=
  start ⟨none, "/home", "fix it"⟩ "session" "message"
    [.turnStart, .turnEnd (.error ⟨"no credit", "QUOTA"⟩)] [] []

/-- The interrupt reaches the agent in its first step. -/
def interruptedInStep : List (Action String) :=
  [.poll, .prepared (.ok (some ["fix it"])), .interrupt, .stepped (.failed Agent.abortedFailure),
    .idleSeen, .close]

theorem own_outcome_interruptedInStep :
    ∃ final, Trace.run Run.step afterFailure interruptedInStep = some final ∧
      OwnOutcome final := by
  have hclosed : (Trace.run Run.step afterFailure interruptedInStep).map (·.bridge) =
      some .closed := by decide
  obtain ⟨final, hrun, hfinal⟩ := map_eq_some_iff.mp hclosed
  exact ⟨final, hrun, (own_outcome_iff_inTime _ _ _ _ _ _ _ final hrun hfinal).mpr (by decide)⟩

/-- The interrupt reaches the agent before its turn opens. -/
def interruptedFirst : List (Action String) := [.interrupt, .poll, .idleSeen, .close]

theorem exists_not_ownOutcome {run : Run String} {trace : List (Action String)}
    {reported expected : AgentEvent} (hother : reported ≠ expected)
    (hfields : (Trace.run Run.step run trace).map (fun run =>
      (run.cancelled, run.stream.getLast?, run.ownDone)) = some (true, some reported, expected)) :
    ∃ final, Trace.run Run.step run trace = some final ∧ final.cancelled = true ∧
      final.stream.getLast? = some reported ∧ ¬ OwnOutcome final := by
  obtain ⟨final, hrun, hfinal⟩ := map_eq_some_iff.mp hfields
  simp only [Prod.mk.injEq] at hfinal
  refine ⟨final, hrun, hfinal.1, hfinal.2.1, fun hown => hother ?_⟩
  have hlast := hown.getLast?
  rw [hfinal.2.1, hfinal.2.2] at hlast
  exact Option.some.inj hlast

/-- A fresh run reports that it completed, and a resumed one the failure of a turn before it. -/
theorem not_own_outcome_interruptedFirst :
    (∃ final, Trace.run Run.step fresh interruptedFirst = some final ∧ final.cancelled = true ∧
      final.stream.getLast? = some (.done .completed none none (some "session")) ∧
      ¬ OwnOutcome final) ∧
    ∃ final, Trace.run Run.step afterFailure interruptedFirst = some final ∧
      final.cancelled = true ∧
      final.stream.getLast? =
        some (.done .errored none (some "no credit (QUOTA)") (some "session")) ∧
      ¬ OwnOutcome final :=
  ⟨@exists_not_ownOutcome _ _ _ (.done .interrupted none none (some "session")) (by decide)
    (by decide),
    @exists_not_ownOutcome _ _ _ (.done .interrupted none none (some "session")) (by decide)
    (by decide)⟩

end Examples

end Run

end Keel.BridgeOutcome
