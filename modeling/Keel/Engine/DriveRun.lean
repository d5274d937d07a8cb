import Keel.Foundation.Trace
import Keel.Doc.SegmentWriter

/-! # The event loop of one run task

A run task selects between the harness stream, engine events and its timers,
folds what it receives and writes the folded segment into the session doc. A
segment ends at a steer boundary, at a terminal event or when the watchdog finds
the turn quiesced; on a steerable harness a completed turn parks instead of
ending the run, and a parked run resumes at a boundary, a terminal event or
fresh output.

Every ready branch of the selection may be taken, whatever its priority. Time is
in milliseconds. Other writers append entries to the doc and change the pending
inputs of the chat's run table slot between the steps of the loop. The journal
is the list of published events; session rows other than the status, the
workspace preview, titles and the steer ledger are left out.
-/

namespace Keel

/-- The run's view of the session doc: the streaming writer and the indices of
the entries begun so far. -/
structure Transcript where
  doc : SessionDoc
  writer : Option SegmentWriter
  begun : List Nat

def renderPart : MessagePart → MessagePart
  | .tool fields => .tool { fields with call := sanitizeToolCall fields.call }
  | part => part

def renderParts (parts : List MessagePart) : List MessagePart := parts.map renderPart

namespace Transcript

/-- Begin the streaming entry unless there is one. -/
def ensureWriter (transcript : Transcript) (entryId deviceId : String) (startedAt : Int) :
    Transcript × SegmentWriter :=
  match transcript.writer with
  | some writer => (transcript, writer)
  | none =>
    let (doc, writer) := SegmentWriter.begin transcript.doc entryId deviceId startedAt
    ({ doc, writer := some writer,
       begun := transcript.begun ++ [writer.entryIndex] }, writer)

/-- Sync the folded parts; nothing is begun for an empty fold. A failed sync is
logged and leaves the entry as it was. -/
def syncSegment (transcript : Transcript) (entryId deviceId : String) (startedAt : Int)
    (folded : List MessagePart) : Transcript :=
  if folded = [] then transcript
  else
    let (opened, writer) := transcript.ensureWriter entryId deviceId startedAt
    match SegmentWriter.sync opened.doc writer (renderParts folded) with
    | .ok (doc, writer) => { opened with doc, writer := some writer }
    | .error _ => opened

/-- Write the folded parts for the last time and give up the writer. -/
def finishSegment (transcript : Transcript) (entryId deviceId : String) (startedAt : Int)
    (folded : List MessagePart) (status : MessageStatus) : Transcript :=
  if transcript.writer = none ∧ folded = [] then transcript
  else
    let (opened, writer) := transcript.ensureWriter entryId deviceId startedAt
    match SegmentWriter.finish opened.doc writer (renderParts folded) status with
    | .ok doc => { opened with doc, writer := none }
    | .error _ => { opened with writer := none }

end Transcript

/-- What is fixed when a run task starts. -/
structure RunSetup where
  deviceId : String
  steerable : Bool
  /-- The engine injected the resume id. -/
  resumeInjected : Bool
  /-- This run is the startup-crash retry. -/
  startupRetry : Bool
  quiesceAfter : Option Nat
  selfQuiesceAfter : Option Nat
  /-- Fresh entry ids, in the order they are minted. -/
  newId : Nat → String

inductive DrivePhase where
  | starting
  | running
  | exited
deriving DecidableEq

structure DriveRun where
  phase : DrivePhase
  transcript : Transcript
  folded : List MessagePart
  /-- Every tool id this run has folded, across segments. -/
  seenTools : List String
  entryId : String
  /-- Entry ids minted so far. -/
  minted : Nat
  segmentStarted : Nat
  dirty : Bool
  flushAt : Nat
  interruptDeadline : Option Nat
  interrupted : Bool
  sawSessionStarted : Bool
  /-- When the run was parked, if it is. -/
  idleSince : Option Nat
  lastStreamActivity : Nat
  selfContinuedTurn : Bool
  status : SessionStatus
  published : List AgentEvent
  /-- Requests with a parked resolver in the chat's run table slot. -/
  pendingInputs : List String
  /-- The slot holds this run. -/
  ownsSlot : Bool
  /-- Texts of the text deltas that were not dropped. -/
  heard : List String

inductive DriveAction where
  | spawned (now : Nat)
  | spawnFailed (message : String)
  | cancel (now : Nat)
  | deadline (now : Nat)
  | heartbeat
  | reap (now : Nat)
  /-- An engine event, or an event of the harness stream. -/
  | event (now : Nat) (event : AgentEvent)
  | streamError (now : Nat) (message : String)
  | streamEnd (now : Nat)
  | flush (now : Nat)
  | quiesce (now : Nat)
  /-- Another writer appends an entry. -/
  | append (entry : EntryMap)
  /-- The run table slot changes. -/
  | slot (pendingInputs : List String) (ownsSlot : Bool)

/-- Grace an interrupted harness gets to end its own stream. -/
def interruptGrace : Nat := 3000

/-- How long a parked session waits for somebody to come back. -/
def sessionIdle : Nat := 30 * 60 * 1000

/-- Output that arrives earlier after a park is the finished turn's tail. -/
def resumeGate : Nat := 1000

def streamCommitMs : Nat := 120

/-- A terminal event that the loop makes up itself. -/
def AgentEvent.synthesized (status : DoneStatus) (error : Option String) : AgentEvent :=
  .done status none error none

/-- A tool part with the given id is in the current segment. -/
def inSegment (folded : List MessagePart) (id : String) : Bool :=
  folded.any fun part => part.toolId? == some id

/-- A part that keeps the quiesce watchdog from tripping. -/
def MessagePart.inFlight : MessagePart → Bool
  | .tool fields => !fields.resolved && fields.id != livePlanToolId
  | .input _ _ _ resolved => !resolved
  | _ => false

/-- The end of the run resolves its questions. -/
def MessagePart.settleInput : MessagePart → MessagePart
  | .input id requestId questions _ => .input id requestId questions true
  | part => part

namespace DriveRun

def start (setup : RunSetup) (doc : SessionDoc) : DriveRun :=
  { phase := .starting, transcript := { doc, writer := none, begun := [] }, folded := []
    seenTools := [], entryId := setup.newId 0, minted := 1, segmentStarted := 0, dirty := false
    flushAt := 0, interruptDeadline := none, interrupted := false, sawSessionStarted := false
    idleSince := none, lastStreamActivity := 0, selfContinuedTurn := false, status := .working
    published := [], pendingInputs := [], ownsSlot := true, heard := [] }

variable (setup : RunSetup)

def rotate (run : DriveRun) (now : Nat) : DriveRun :=
  { run with entryId := setup.newId run.minted, minted := run.minted + 1, segmentStarted := now }

def finish (run : DriveRun) (status : MessageStatus) : DriveRun :=
  { run with
    transcript := run.transcript.finishSegment run.entryId setup.deviceId run.segmentStarted
      run.folded status }

/-- Reset the per-turn state and wait for the next turn. -/
def park (run : DriveRun) (now : Nat) : DriveRun :=
  { run.rotate setup now with
    folded := [], dirty := false, idleSince := some now, selfContinuedTurn := false
    status := .idle }

def exit (run : DriveRun) (status : SessionStatus) : DriveRun :=
  { run with phase := .exited, status }

/-- Fresh text or a new tool call, late enough after the park. -/
def selfContinues (run : DriveRun) (parkedAt now : Nat) : AgentEvent → Bool
  | .textDelta text => decide (resumeGate ≤ now - parkedAt) && text != ""
  | .toolCall id _ => decide (resumeGate ≤ now - parkedAt) &&
      (id == livePlanToolId || !run.seenTools.contains id)
  | _ => false

/-- The text of a text delta, unless it is dropped: received while parked and
not self-continued. -/
def hears (run : DriveRun) (now : Nat) : AgentEvent → List String
  | .textDelta text =>
    match run.idleSince with
    | none => [text]
    | some parkedAt => if run.selfContinues parkedAt now (.textDelta text) then [text] else []
  | _ => []

/-- An input request that no parked resolver knows. -/
def unknownInput (run : DriveRun) : AgentEvent → Bool
  | .inputRequested requestId _ => !run.pendingInputs.contains requestId
  | _ => false

/-- The gate of a parked run: a boundary, a terminal event or self-continued
output re-opens it. The flag says whether the event is let through. -/
def parkedGate (run : DriveRun) (now : Nat) (event : AgentEvent) : DriveRun × Bool :=
  match run.idleSince with
  | none => (run, true)
  | some parkedAt =>
    if run.selfContinues parkedAt now event then
      ({ run.rotate setup now with
         idleSince := none, selfContinuedTurn := true, status := .working }, true)
    else
      match event with
      | .steered .. => ({ run with idleSince := none, status := .working }, true)
      | .done .. => ({ run with idleSince := none }, true)
      | .inputRequested requestId _ =>
        ({ run with
           pendingInputs := run.pendingInputs.filter fun id => id ≠ requestId }, false)
      | _ => (run, false)

/-- A tool event whose id was folded in a prior segment. The live plan is a
singleton and never stale. -/
def staleEcho (run : DriveRun) : AgentEvent → Bool
  | .toolCall id _ | .toolResult id _ _ _ =>
    id != livePlanToolId && !inSegment run.folded id && run.seenTools.contains id
  | _ => false

def noteTool (run : DriveRun) : AgentEvent → DriveRun
  | .toolCall id _ =>
    if id = livePlanToolId then run else { run with seenTools := run.seenTools.insert id }
  | _ => run

/-- The run died before it ever started, and may be retried. -/
def startupCrash (run : DriveRun) : AgentEvent → Bool
  | .done .errored _ _ _ => setup.resumeInjected && !setup.startupRetry &&
      !run.sawSessionStarted && run.folded.isEmpty && !run.interrupted
  | _ => false

/-- A steer boundary ends the segment where the fold resets. -/
def steerBoundary (run : DriveRun) (now : Nat) (event : AgentEvent)
    (nextAssistantMessageId : Option String) : DriveRun :=
  let named := match nextAssistantMessageId with
    | some entryId => { run.finish setup .complete with entryId, segmentStarted := now }
    | none => (run.finish setup .complete).rotate setup now
  { named with
    published := run.published ++ [event], selfContinuedTurn := false, folded := []
    dirty := false, status := .working }

def noteEvent (run : DriveRun) : AgentEvent → DriveRun
  | .sessionStarted .. => { run with sawSessionStarted := true }
  | .inputRequested .. => { run with status := .awaitingInput }
  | .inputResolved _ => { run with status := .working }
  | _ => run

/-- A session start in the middle of a segment does not wipe it. -/
def skipsFold (run : DriveRun) : AgentEvent → Bool
  | .sessionStarted .. => !run.folded.isEmpty
  | _ => false

/-- The message status a terminal event stamps. -/
def messageStatus : DoneStatus → MessageStatus
  | .interrupted => .aborted
  | .completed | .errored => .complete

/-- The end of a turn: questions are resolved, the segment is finished, and the
run parks or exits. -/
def turnDone (run : DriveRun) (now : Nat) (status : DoneStatus) : DriveRun :=
  let resolved := { run with
    pendingInputs := if run.ownsSlot then [] else run.pendingInputs
    folded := run.folded.map MessagePart.settleInput }
  let finished :=
    if resolved.transcript.writer = none ∧ resolved.folded = [] then resolved
    else resolved.finish setup (messageStatus status)
  if status = .completed ∧ setup.steerable = true ∧ run.interrupted = false then
    -- The startup retry is a concern of the first turn only.
    { finished.park setup now with sawSessionStarted := true }
  else
    match status with
    | .errored => finished.exit .errored
    | .completed | .interrupted => finished.exit .idle

/-- Arm the flush timer if there is something to flush. -/
def markDirty (run : DriveRun) (now : Nat) : DriveRun :=
  if run.folded ≠ [] ∧ run.dirty = false then
    { run with dirty := true, flushAt := now + streamCommitMs }
  else run

/-- Fold an event into the current segment. -/
def foldEvent [LineDiff] (run : DriveRun) (event : AgentEvent) : DriveRun :=
  if run.skipsFold event then run
  else { run with folded := foldEventIntoParts run.folded event }

/-- An event past the gate and the stale echoes. -/
def accept [LineDiff] (run : DriveRun) (now : Nat) (event : AgentEvent) : DriveRun :=
  if run.startupCrash setup event then { run with phase := .exited }
  else
    match event with
    | .steered _ next => run.steerBoundary setup now event next
    | _ =>
      let noted := run.noteEvent event
      let folded := { noted with published := run.published ++ [event] }.foldEvent event
      match event with
      | .done status _ _ _ => folded.turnDone setup now status
      | _ => folded.markDirty now

def receive [LineDiff] (run : DriveRun) (now : Nat) (event : AgentEvent) : DriveRun :=
  let active := { run with
    lastStreamActivity := now, heard := run.heard ++ run.hears now event }
  match event with
  -- Consumed before any journal or doc work.
  | .decisionActivity _ => active
  | _ =>
    -- Dropped before the gate, so that it cannot re-open a parked run.
    if active.unknownInput event then active
    else
      let (gated, passes) := active.parkedGate setup now event
      if !passes || event == .reasoningDelta "" || gated.staleEcho event then gated
      else (gated.noteTool event).accept setup now event

/-- The watchdog's window; a self-continued turn has a shorter one. -/
def quiesceWindow (run : DriveRun) : Nat :=
  match run.selfContinuedTurn, setup.selfQuiesceAfter with
  | true, some short => min (setup.quiesceAfter.getD 0) short
  | _, _ => setup.quiesceAfter.getD 0

/-- The watchdog may trip: the turn is silent and nothing is in flight. -/
def quiescent (run : DriveRun) (now : Nat) : Bool :=
  setup.quiesceAfter.isSome && run.idleSince.isNone && !run.interrupted && setup.steerable &&
    !run.folded.any MessagePart.inFlight &&
    decide (run.lastStreamActivity + run.quiesceWindow setup ≤ now)

/-- A silent turn parks as a completed one would. -/
def quiesce (run : DriveRun) (now : Nat) : DriveRun :=
  let finished :=
    if run.folded ≠ [] ∨ run.transcript.writer ≠ none then run.finish setup .complete else run
  finished.park setup now

def flush (run : DriveRun) : DriveRun :=
  { run with
    transcript := run.transcript.syncSegment run.entryId setup.deviceId run.segmentStarted
      run.folded
    dirty := false }

def select [LineDiff] (run : DriveRun) : DriveAction → Option DriveRun
  | .cancel now =>
    if run.interrupted then none
    else some { run with interrupted := true, interruptDeadline := some (now + interruptGrace) }
  | .deadline now =>
    match run.interruptDeadline with
    | some deadline =>
      if deadline ≤ now then some (run.receive setup now (.synthesized .interrupted none))
      else none
    | none => none
  | .heartbeat => some run
  | .reap now =>
    match run.idleSince with
    | some parkedAt => if parkedAt + sessionIdle ≤ now then some (run.exit .idle) else none
    | none => none
  | .event now event => some (run.receive setup now event)
  | .streamError now message =>
    -- The death of a parked child ends a turn that was finished already.
    if run.idleSince.isSome then some (run.exit .idle)
    else some (run.receive setup now (.synthesized .errored (some message)))
  | .streamEnd now =>
    if run.interrupted then some (run.receive setup now (.synthesized .interrupted none))
    else if run.idleSince.isSome then some (run.exit .idle)
    else some (run.receive setup now
      (.synthesized .errored (some "harness stream ended without Done")))
  | .flush now => if run.dirty ∧ run.flushAt ≤ now then some (run.flush setup) else none
  | .quiesce now => if run.quiescent setup now then some (run.quiesce setup now) else none
  | _ => none

def step [LineDiff] (run : DriveRun) : DriveAction → Option DriveRun
  | .append entry => some { run with transcript.doc.messages :=
      run.transcript.doc.messages ++ [entry] }
  | .slot pendingInputs ownsSlot => some { run with pendingInputs, ownsSlot }
  | action =>
    match run.phase with
    | .exited => none
    | .starting =>
      match action with
      | .spawned now => some { run with
          phase := .running, segmentStarted := now, flushAt := now, lastStreamActivity := now }
      | .spawnFailed message => some { run with
          phase := .exited, status := .errored
          published := run.published ++
            [.error message, .synthesized .errored (some message)] }
      | _ => none
    | .running => run.select setup action

end DriveRun

end Keel
