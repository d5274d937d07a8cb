import Mathlib.Data.List.Destutter
import Mathlib.Data.List.Sort
import Keel.Dsh.SessionLog

/-! # Batched session writes

Events are queued, and a timer or a drain takes the queue and writes it to the
backend. Everything runs on one thread; tasks interleave where they wait: for the
timer, for a write, for the flush a drain joins. A write reaches the backend when it
completes, and the backend takes a batch only if it continues the log.
-/

namespace Keel.Session

inductive FlushPhase where
  | sleeping
  | writing
  | finished
  /-- The task that awaits the flush has emptied the slot. -/
  | cleared

inductive DrainPhase where
  /-- Waiting for the flush found in the slot, if any. -/
  | joining (flush : Option Nat)
  | writing
  | returned (ok : Bool)

inductive WriteTask where
  | flush (phase : FlushPhase)
  /-- A drain, with the events that were enqueued before it. -/
  | drain (before : List Event) (phase : DrainPhase)

/-- The end of a write: a flush only logs a failure, a drain returns it. -/
def WriteTask.ended (ok : Bool) : WriteTask → WriteTask
  | .flush _ => .flush .finished
  | .drain before _ => .drain before (.returned ok)

structure SessionWriteBehind where
  pending : List Event := []
  /-- The flush registered as the active write. -/
  writing : Option Nat := none
  timerArmed : Bool := false
  durableNext : Nat := 0
  tasks : List WriteTask := []
  /-- The writes that have not completed, in the order they were started. -/
  inFlight : List (Nat × List Event) := []
  /-- The log of the backend. -/
  durable : List Event := []
  enqueued : List Event := []

inductive WriteAction where
  | enqueue (seq : Nat)
  | timerFires (flush : Nat)
  | written (task : Nat) (succeeds : Bool)
  | clearSlot (flush : Nat)
  | drain
  | drainJoined (drain : Nat)
  | setDurableNext (seq : Nat)

/-- A batch in order, without repetitions and what is durable already. -/
def readyBatch (durableNext : Nat) (batch : List Event) : List Event :=
  ((batch.insertionSort fun a b => a.seq ≤ b.seq).destutter fun a b => a.seq ≠ b.seq).filter
    fun event => event.seq ≥ durableNext

/-- The new watermark, and the batch to write. A batch behind a gap is refused. -/
def prepareBatch (durableNext : Nat) (batch : List Event) : Nat × Option (List Event) :=
  let batch := readyBatch durableNext batch
  match batch.head?, batch.getLast? with
  | some first, some last =>
    if first.seq > durableNext then (durableNext, none) else (last.seq + 1, some batch)
  | _, _ => (durableNext, none)

/-- The backend takes exactly the batches that continue its log. -/
def backendAppend (durable batch : List Event) (succeeds : Bool) : List Event × Bool :=
  if succeeds && decide (Contiguous durable.length batch) then (durable ++ batch, true)
  else (durable, false)

namespace SessionWriteBehind

def setDurableNext (state : SessionWriteBehind) (seq : Nat) : SessionWriteBehind :=
  if seq > state.durableNext then { state with durableNext := seq } else state

/-- Queue an event, and start a flush unless the timer is armed. -/
def enqueue (state : SessionWriteBehind) (event : Event) : SessionWriteBehind :=
  let state :=
    { state with pending := state.pending ++ [event], enqueued := state.enqueued ++ [event] }
  if state.timerArmed then state
  else
    { state with
      timerArmed := true
      tasks := state.tasks ++ [.flush .sleeping]
      writing := some state.tasks.length }

/-- A task takes the queue and starts to write it, or finds nothing to write. -/
def startWrite (state : SessionWriteBehind) (task : Nat) (idle busy : WriteTask) :
    SessionWriteBehind :=
  let (durableNext, batch) := prepareBatch state.durableNext state.pending
  let state := { state with pending := [], timerArmed := false, durableNext }
  match batch with
  | none => { state with tasks := state.tasks.set task idle }
  | some batch =>
    { state with
      tasks := state.tasks.set task busy
      inFlight := state.inFlight ++ [(task, batch)] }

/-- A drain goes on once nothing is left to join. -/
def drainBatch (state : SessionWriteBehind) (task : Nat) (before : List Event) :
    SessionWriteBehind :=
  state.startWrite task (.drain before (.returned true)) (.drain before .writing)

def isFlushed (state : SessionWriteBehind) (flush : Nat) : Bool :=
  match state.tasks[flush]? with
  | some (.flush .finished) | some (.flush .cleared) => true
  | _ => false

def step (source : Nat → Event) (state : SessionWriteBehind) :
    WriteAction → Option SessionWriteBehind
  | .enqueue seq => some (state.enqueue (source seq))
  | .timerFires flush =>
    match state.tasks[flush]? with
    | some (.flush .sleeping) => some (state.startWrite flush (.flush .finished) (.flush .writing))
    | _ => none
  | .written task succeeds =>
    match state.inFlight.lookup task with
    | none => none
    | some batch =>
      let (durable, ok) := backendAppend state.durable batch succeeds
      some
        { state with
          durable
          inFlight := state.inFlight.filter fun write => write.1 ≠ task
          tasks := state.tasks.modify task (WriteTask.ended ok) }
  | .clearSlot flush =>
    match state.tasks[flush]? with
    | some (.flush .finished) =>
      -- Whatever the slot holds now is dropped.
      some { state with writing := none, tasks := state.tasks.set flush (.flush .cleared) }
    | _ => none
  | .drain =>
    let started :=
      { state with tasks := state.tasks ++ [.drain state.enqueued (.joining state.writing)] }
    match state.writing with
    | some _ => some started
    | none => some (started.drainBatch state.tasks.length state.enqueued)
  | .drainJoined drain =>
    match state.tasks[drain]? with
    | some (.drain before (.joining (some flush))) =>
      if state.isFlushed flush then some (state.drainBatch drain before) else none
    | _ => none
  | .setDurableNext seq => some (state.setDurableNext seq)

end SessionWriteBehind

end Keel.Session
