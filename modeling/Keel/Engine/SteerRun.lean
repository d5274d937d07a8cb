import Mathlib.Data.List.Nodup
import Mathlib.Logic.Function.Basic
import Keel.Foundation.Trace

/-! # Steering one live run

One run task of a chat and any number of senders. A sender finds the run in the
run table, puts its message into the mailbox, appends it to the run's ledger,
writes the user entry, checks that the run is still in the table, and otherwise
takes its message back from the ledger. The run task takes messages from the
mailbox, retires the oldest ledger entry at each boundary, and leaves by one of
several paths, of which only the regular exit claims the ledger.

A message is a prompt under an id of its own; `M` is the type of messages. The
three structures are updated under separate locks, so every step of a sender and
of the run task is an action. The run's harness steers, and it emits one
boundary per received message, in order.
-/

namespace Keel

/-- How many messages the mailbox holds. -/
def steerMailboxCapacity : Nat := 32

/-- The two entry points that route a message into a live run. -/
inductive SenderKind where
  | steer
  | dispatch
deriving DecidableEq

inductive SenderResult where
  /-- The mailbox took nothing. -/
  | refused
  /-- The run or its exit drain owns the message. -/
  | accepted
  /-- The sender owns the message again and starts a fresh run with it. -/
  | reclaimed
  /-- The user entry could not be written. -/
  | failed
deriving DecidableEq

inductive SenderPhase where
  | idle
  | looked (kind : SenderKind)
  | sent (kind : SenderKind)
  | pushed (kind : SenderKind)
  | written (kind : SenderKind)
  | dead (kind : SenderKind)
  | returned (result : SenderResult)
deriving DecidableEq

/-- The sender has not tried the mailbox yet. -/
def SenderPhase.before : SenderPhase → Bool
  | .idle | .looked _ => true
  | _ => false

/-- The message is in the mailbox and not yet in the ledger. -/
def SenderPhase.isSent : SenderPhase → Bool
  | .sent _ => true
  | _ => false

/-- The sender has still to learn whether the run is live. -/
def SenderPhase.undecided : SenderPhase → Bool
  | .pushed _ | .written _ | .dead _ => true
  | _ => false

inductive RunPhase where
  | starting
  | streaming
  | leaving
  | taken
  | exited
deriving DecidableEq

/-- The exit drain has claimed the ledger, or was never going to. -/
def RunPhase.past : RunPhase → Bool
  | .taken | .exited => true
  | _ => false

structure SteerRun (M : Type) where
  /-- The engine injected the resume id and this is not the retry. -/
  retryable : Bool
  inTable : Bool
  phase : RunPhase
  sessionStarted : Bool
  /-- The cancel signal was sent. -/
  cancelled : Bool
  /-- The run task has seen the cancel signal. -/
  interrupted : Bool
  mailboxOpen : Bool
  mailbox : List M
  /-- Taken from the mailbox, no boundary yet. -/
  received : List M
  ledger : List M
  senders : M → SenderPhase
  /-- Claimed by the exit drain, not yet re-dispatched. -/
  orphans : List M
  /-- Messages the mailbox took, in order. -/
  sent : List M
  /-- Messages confirmed by their boundary, in order. -/
  confirmed : List M
  redispatched : List M
  reclaimed : List M
  /-- Each boundary's message with the ledger entry it retired. -/
  retired : List (M × Option M)

inductive SteerAction (M : Type) where
  | look (message : M) (kind : SenderKind)
  | trySend (message : M)
  | push (message : M)
  | writeDoc (message : M) (written : Bool)
  | checkLive (message : M)
  | reclaim (message : M)
  /-- A user interrupt. -/
  | interrupt
  /-- Another dispatch puts its run into this one's table slot. -/
  | replace
  | closeMailbox
  | startStream
  | spawnFail
  | sessionStarted
  | receive
  | steered
  | observeCancel
  | startupRetry
  /-- The event loop ends: terminal event, stream end, child death or reaping. -/
  | leave
  | take
  | removeRun
  | redispatch (ok : Bool)
deriving DecidableEq

namespace SteerRun

variable {M : Type} [DecidableEq M]

def init (retryable : Bool) : SteerRun M :=
  { retryable, inTable := true, phase := .starting, sessionStarted := false, cancelled := false
    interrupted := false, mailboxOpen := true, mailbox := [], received := [], ledger := []
    senders := fun _ => .idle, orphans := [], sent := [], confirmed := [], redispatched := []
    reclaimed := [], retired := [] }

def setSender (state : SteerRun M) (message : M) (phase : SenderPhase) : SteerRun M :=
  { state with senders := Function.update state.senders message phase }

/-- A dispatch that cannot route its message replaces the run it found. -/
def cancelFor (state : SteerRun M) (kind : SenderKind) : Bool :=
  state.cancelled || (decide (kind = .dispatch) && state.inTable)

def trySend (state : SteerRun M) (message : M) (kind : SenderKind) : SteerRun M :=
  if state.mailboxOpen && decide (state.mailbox.length < steerMailboxCapacity) then
    { state.setSender message (.sent kind) with
      mailbox := state.mailbox ++ [message], sent := state.sent ++ [message] }
  else { state.setSender message (.returned .refused) with cancelled := state.cancelFor kind }

/-- Take the message back unless the exit drain claimed it. -/
def reclaim (state : SteerRun M) (message : M) (kind : SenderKind) : SteerRun M :=
  if message ∈ state.ledger then
    { state.setSender message (.returned .reclaimed) with
      ledger := state.ledger.filter fun entry => entry ≠ message
      reclaimed := message :: state.reclaimed
      cancelled := state.cancelFor kind }
  else state.setSender message (.returned .accepted)

/-- The boundary of one message. The oldest ledger entry is retired while the
run is in the table. -/
def boundary (state : SteerRun M) (message : M) : SteerRun M :=
  { state with
    received := state.received.tail
    confirmed := state.confirmed ++ [message]
    ledger := if state.inTable then state.ledger.tail else state.ledger
    retired := state.retired ++
      [(message, if state.inTable then state.ledger.head? else none)] }

def abandon (state : SteerRun M) : SteerRun M :=
  { state with phase := .exited, inTable := false }

def take (state : SteerRun M) : SteerRun M :=
  if state.inTable then { state with phase := .taken, orphans := state.ledger, ledger := [] }
  else { state with phase := .taken }

/-- An interrupted run drops what it claimed. -/
def removeRun (state : SteerRun M) : SteerRun M :=
  { state with
    phase := .exited, inTable := false
    orphans := if state.interrupted then [] else state.orphans }

def step (state : SteerRun M) : SteerAction M → Option (SteerRun M)
  | .look message kind =>
    if state.senders message = .idle ∧ state.inTable then
      some (state.setSender message (.looked kind))
    else none
  | .trySend message =>
    match state.senders message with
    | .looked kind => some (state.trySend message kind)
    | _ => none
  | .push message =>
    match state.senders message with
    | .sent kind => some
        { state.setSender message (.pushed kind) with ledger := state.ledger ++ [message] }
    | _ => none
  | .writeDoc message written =>
    match state.senders message with
    | .pushed kind => some (state.setSender message
        (if written then .written kind else .returned .failed))
    | _ => none
  | .checkLive message =>
    match state.senders message with
    | .written kind => some (state.setSender message
        (if state.inTable then .returned .accepted else .dead kind))
    | _ => none
  | .reclaim message =>
    match state.senders message with
    | .dead kind => some (state.reclaim message kind)
    | _ => none
  | .interrupt => some { state with cancelled := state.cancelled || state.inTable }
  | .replace => if state.inTable then some { state with inTable := false } else none
  | .closeMailbox => some { state with mailboxOpen := false }
  | .startStream =>
    if state.phase = .starting then some { state with phase := .streaming } else none
  | .spawnFail => if state.phase = .starting then some state.abandon else none
  | .sessionStarted =>
    if state.phase = .streaming then some { state with sessionStarted := true } else none
  | .receive =>
    match state.mailbox with
    | message :: rest =>
      if state.mailboxOpen then
        some { state with mailbox := rest, received := state.received ++ [message] }
      else none
    | [] => none
  | .steered =>
    match state.received with
    | message :: _ =>
      if state.phase = .streaming then some (state.boundary message) else none
    | [] => none
  | .observeCancel =>
    if state.phase = .streaming ∧ state.cancelled ∧ !state.interrupted then
      some { state with interrupted := true }
    else none
  | .startupRetry =>
    if state.phase = .streaming ∧ state.retryable ∧ !state.sessionStarted ∧
        !state.interrupted then some state.abandon
    else none
  | .leave => if state.phase = .streaming then some { state with phase := .leaving } else none
  | .take => if state.phase = .leaving then some state.take else none
  | .removeRun => if state.phase = .taken then some state.removeRun else none
  | .redispatch ok =>
    match state.orphans with
    | message :: rest =>
      if state.phase = .exited then
        some { state with
          orphans := if ok then rest else []
          redispatched := if ok then state.redispatched ++ [message] else state.redispatched }
      else none
    | [] => none

/-- What each action requires and what it does. -/
inductive Moves (state : SteerRun M) : SteerAction M → SteerRun M → Prop
  | look {message : M} {kind : SenderKind} (hidle : state.senders message = .idle)
      (htable : state.inTable = true) :
      Moves state (.look message kind) (state.setSender message (.looked kind))
  | accept {message : M} {kind : SenderKind} (hlooked : state.senders message = .looked kind) :
      Moves state (.trySend message) { state.setSender message (.sent kind) with
        mailbox := state.mailbox ++ [message], sent := state.sent ++ [message] }
  | refuse {message : M} {kind : SenderKind} (hlooked : state.senders message = .looked kind) :
      Moves state (.trySend message) { state.setSender message (.returned .refused) with
        cancelled := state.cancelFor kind }
  | push {message : M} {kind : SenderKind} (hsent : state.senders message = .sent kind) :
      Moves state (.push message)
        { state.setSender message (.pushed kind) with ledger := state.ledger ++ [message] }
  | writeDoc {message : M} {kind : SenderKind} {written : Bool}
      (hpushed : state.senders message = .pushed kind) :
      Moves state (.writeDoc message written)
        (state.setSender message (if written then .written kind else .returned .failed))
  | checkLive {message : M} {kind : SenderKind} (hwritten : state.senders message = .written kind) :
      Moves state (.checkLive message)
        (state.setSender message (if state.inTable then .returned .accepted else .dead kind))
  | reclaim {message : M} {kind : SenderKind} (hdead : state.senders message = .dead kind)
      (hpresent : message ∈ state.ledger) :
      Moves state (.reclaim message) { state.setSender message (.returned .reclaimed) with
        ledger := state.ledger.filter fun entry => entry ≠ message
        reclaimed := message :: state.reclaimed
        cancelled := state.cancelFor kind }
  | letGo {message : M} {kind : SenderKind} (hdead : state.senders message = .dead kind)
      (habsent : message ∉ state.ledger) :
      Moves state (.reclaim message) (state.setSender message (.returned .accepted))
  | interrupt : Moves state .interrupt { state with cancelled := state.cancelled || state.inTable }
  | replace (htable : state.inTable = true) : Moves state .replace { state with inTable := false }
  | closeMailbox : Moves state .closeMailbox { state with mailboxOpen := false }
  | startStream (hphase : state.phase = .starting) :
      Moves state .startStream { state with phase := .streaming }
  | spawnFail (hphase : state.phase = .starting) : Moves state .spawnFail state.abandon
  | sessionStarted (hphase : state.phase = .streaming) :
      Moves state .sessionStarted { state with sessionStarted := true }
  | receive {message : M} {rest : List M} (hmailbox : state.mailbox = message :: rest) :
      Moves state .receive { state with mailbox := rest, received := state.received ++ [message] }
  | steered {message : M} {rest : List M} (hphase : state.phase = .streaming)
      (hreceived : state.received = message :: rest) :
      Moves state .steered (state.boundary message)
  | observeCancel (hphase : state.phase = .streaming) :
      Moves state .observeCancel { state with interrupted := true }
  | startupRetry (hphase : state.phase = .streaming) : Moves state .startupRetry state.abandon
  | leave (hphase : state.phase = .streaming) : Moves state .leave { state with phase := .leaving }
  | take (hphase : state.phase = .leaving) (htable : state.inTable = true) :
      Moves state .take { state with phase := .taken, orphans := state.ledger, ledger := [] }
  | takeNothing (hphase : state.phase = .leaving) (hreplaced : state.inTable = false) :
      Moves state .take { state with phase := .taken }
  | removeRun (hphase : state.phase = .taken) : Moves state .removeRun state.removeRun
  | redispatch {message : M} {rest : List M} {ok : Bool} (hphase : state.phase = .exited)
      (horphans : state.orphans = message :: rest) :
      Moves state (.redispatch ok)
        { state with
          orphans := if ok then rest else []
          redispatched := if ok then state.redispatched ++ [message] else state.redispatched }

theorem moves_of_step {state next : SteerRun M} {action : SteerAction M}
    (hstep : state.step action = some next) : Moves state action next := by
  cases action with
  | interrupt =>
    cases hstep
    exact .interrupt
  | closeMailbox =>
    cases hstep
    exact .closeMailbox
  | trySend message =>
    simp only [step, trySend] at hstep
    split at hstep
    next kind hlooked =>
      cases hstep
      split
      · exact .accept hlooked
      · exact .refuse hlooked
    · cases hstep
  | reclaim message =>
    simp only [step, reclaim] at hstep
    split at hstep
    next kind hdead =>
      cases hstep
      split
      next hpresent => exact .reclaim hdead hpresent
      next habsent => exact .letGo hdead habsent
    · cases hstep
  | take =>
    simp only [step, take] at hstep
    split at hstep
    next hphase =>
      cases hstep
      split
      next htable => exact .take hphase htable
      next hreplaced => exact .takeNothing hphase (by simpa using hreplaced)
    · cases hstep
  | receive =>
    simp only [step] at hstep
    split at hstep
    next message rest hmailbox =>
      split at hstep
      · cases hstep
        exact .receive hmailbox
      · cases hstep
    · cases hstep
  | steered =>
    simp only [step] at hstep
    split at hstep
    next message rest hreceived =>
      split at hstep
      next hphase =>
        cases hstep
        exact .steered hphase hreceived
      · cases hstep
    · cases hstep
  | redispatch ok =>
    simp only [step] at hstep
    split at hstep
    next message rest horphans =>
      split at hstep
      next hphase =>
        cases hstep
        exact .redispatch hphase horphans
      · cases hstep
    · cases hstep
  | _ =>
    -- One guard or one sender phase decides each of the remaining actions.
    simp only [step] at hstep
    split at hstep
    · cases hstep
      constructor <;> simp_all
    · cases hstep

/-- The run is over, its re-dispatches are done and every sender has returned. -/
structure Quiescent (state : SteerRun M) : Prop where
  exited : state.phase = .exited
  drained : state.orphans = []
  returned : ∀ message ∈ state.sent, ∃ result, state.senders message = .returned result

end SteerRun

end Keel
