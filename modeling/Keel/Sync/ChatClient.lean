import Mathlib.Tactic.Common
import Keel.Foundation.Trace

/-! # Synchronising a chat document

A room keeps a log of update rows with consecutive numbers and at most one
checkpoint. A client names its cursor, learns the head and the checkpoint, fetches
the checkpoint if its document lacks it and asks for the rows behind that. From then
on it gets every row, and an acknowledgement for its own.

The server scans its log once for each connection, in order: a row is sent, or it is
one of the client's own and is acknowledged or left out. A connection can drop at any
moment; pushes on their way may still arrive. A reset of the room starts a new log.
-/

namespace Keel.Chat2

/-- The document library: the operations in an update or a snapshot, and those a
version vector covers. -/
structure Crdt (Op : Type) where
  parse : List UInt8 → Option (List Op)
  version : List UInt8 → Option (List Op)

structure StateHeader where
  headSeq : Nat
  checkpointSeq : Nat
  checkpointSize : Nat
deriving DecidableEq

inductive CatchUpPlan where
  | rowsOnly (after : Nat)
  | checkpointThenRows (after : Nat)

def planCatchUp (cursor : Nat) (state : StateHeader) (frontierContained : Bool) : CatchUpPlan :=
  -- A cursor ahead of the server is from a room that was reset.
  let cursor := if cursor > state.headSeq then 0 else cursor
  if state.checkpointSize = 0 then .rowsOnly cursor
  else if frontierContained then .rowsOnly (max cursor state.checkpointSeq)
  else .checkpointThenRows state.checkpointSeq

section Sink

variable {Op : Type}

/-- The engine's side of a client: the document, unless it was evicted, and the last
snapshot saved with its cursor. -/
structure ChatSink (Op : Type) where
  doc : Option (List Op)
  saved : Option (List Op × Nat) := none

namespace ChatSink

def persistWithCursor (sink : ChatSink Op) (cursor : Nat) : ChatSink Op :=
  match sink.doc with
  | none => sink
  | some ops => { sink with saved := some (ops, cursor) }

/-- A row that does not import is skipped, and its cursor is kept. -/
def applyRow (crdt : Crdt Op) (sink : ChatSink Op) (bytes : List UInt8) (cursor : Nat) :
    ChatSink Op :=
  match sink.doc with
  | none => sink
  | some ops =>
    match crdt.parse bytes with
    | none => sink.persistWithCursor cursor
    | some added => { sink with doc := some (ops ++ added) }.persistWithCursor cursor

/-- No sink when the document is gone or the checkpoint does not import. -/
def applyCheckpoint (crdt : Crdt Op) (sink : ChatSink Op) (bytes : List UInt8) (cursor : Nat) :
    Option (ChatSink Op) :=
  match sink.doc, crdt.parse bytes with
  | some ops, some added => some ({ sink with doc := some (ops ++ added) }.persistWithCursor cursor)
  | _, _ => none

def containsFrontier [DecidableEq Op] (crdt : Crdt Op) (sink : ChatSink Op)
    (frontier : List UInt8) : Bool :=
  match sink.doc with
  | none => true
  | some ops =>
    if frontier.isEmpty then true
    else
      match crdt.version frontier with
      | none => false
      | some covered => covered.all fun op => ops.contains op

def advanceCursor (sink : ChatSink Op) (cursor : Nat) : ChatSink Op :=
  sink.persistWithCursor cursor

end ChatSink

end Sink

structure PendingPush where
  batchId : String
  bytes : List UInt8

/-- What the client sends. -/
inductive ClientFrame where
  | hello (cursor : Nat)
  | rowsReq (after : Nat) (excludeOwn : Bool)
  | push (push : PendingPush)

inductive ServerFrame where
  | state (header : StateHeader) (frontier : List UInt8)
  | row (seq : Nat) (payload : List UInt8)
  | rowsDone (headSeq : Nat)
  | ack (batchId : String) (seq : Nat)
  | error (code batchId : String)
  /-- Presence, probe answers and frames the client does not know. -/
  | other

def maxPushBytes : Nat := 1024 * 1024 - 4096

structure ChatClient (Op : Type) where
  sink : ChatSink Op
  cursor : Nat
  pending : List PendingPush := []
  quotaBlocked : Bool := false
  /-- A retry of the first pending batch is due. -/
  retryArmed : Bool := false
  /-- A backfill of this client has completed. -/
  resumed : Bool := false

namespace ChatClient

variable {Op : Type}

/-- Queue a batch, unless no server would take it. -/
def enqueueUpdate (client : ChatClient Op) (push : PendingPush) : ChatClient Op :=
  if push.bytes.length > maxPushBytes then client
  else { client with pending := client.pending ++ [push] }

def pushPending (client : ChatClient Op) : List ClientFrame := client.pending.map .push

def pushHead (client : ChatClient Op) : List ClientFrame := (client.pending.head?.map .push).toList

def handleFrame (crdt : Crdt Op) (client : ChatClient Op) : ServerFrame → ChatClient Op
  | .row seq payload =>
    { client with
      sink := client.sink.applyRow crdt payload seq
      cursor := max client.cursor seq }
  | .ack batchId seq =>
    let pending := client.pending.filter fun push => push.batchId ≠ batchId
    let cursor := max client.cursor seq
    { client with
      pending
      cursor
      quotaBlocked := client.quotaBlocked && !pending.isEmpty
      retryArmed := client.retryArmed || (client.quotaBlocked && !pending.isEmpty)
      sink := client.sink.advanceCursor cursor }
  | .error code batchId =>
    if (code = "too_large" ∨ code = "empty" ∨ code = "bad_push") ∧ batchId ≠ "" then
      { client with pending := client.pending.filter fun push => push.batchId ≠ batchId }
    else if code = "quota" then { client with quotaBlocked := true, retryArmed := true }
    else client
  | .state _ _ | .rowsDone _ | .other => client

end ChatClient

/-- Who pushed a row: this client, the same device before this client was started, or
another device. -/
inductive RowOrigin where
  | thisClient
  | earlierProcess
  | otherDevice (device : String)
deriving DecidableEq

def RowOrigin.isOwn : RowOrigin → Bool
  | .thisClient | .earlierProcess => true
  | .otherDevice _ => false

structure ChatRow where
  origin : RowOrigin
  batchId : String
  payload : List UInt8
deriving DecidableEq

structure Checkpoint where
  seq : Nat
  blob : List UInt8
  frontier : List UInt8

/-- A room. The row at index `i` has number `i + 1`. -/
structure ChatRoom where
  rows : List ChatRow := []
  checkpoint : Option Checkpoint := none

def ChatRoom.header (room : ChatRoom) : StateHeader where
  headSeq := room.rows.length
  checkpointSeq := (room.checkpoint.map Checkpoint.seq).getD 0
  checkpointSize := (room.checkpoint.map fun checkpoint => checkpoint.blob.length).getD 0

def ChatRoom.frontier (room : ChatRoom) : List UInt8 :=
  (room.checkpoint.map Checkpoint.frontier).getD []

def ChatRoom.commit (room : ChatRoom) (push : PendingPush) : ChatRoom :=
  { room with rows := room.rows ++ [⟨.thisClient, push.batchId, push.bytes⟩] }

/-- The index of a batch of the client that is committed already. -/
def ChatRoom.committed (room : ChatRoom) (push : PendingPush) : Option Nat :=
  room.rows.findIdx? fun row => row.origin = .thisClient && row.batchId = push.batchId

inductive SessionPhase where
  | hello
  | fetching (state : StateHeader)
  | backfill
  | steady
deriving DecidableEq

/-- One connection: the client's part, the frames on their way, and the server's
scan of its log. -/
structure Session where
  phase : SessionPhase := .hello
  helloCursor : Nat
  outbound : List ClientFrame
  inbound : List ServerFrame := []
  /-- The room was not reset since the connection was made. -/
  live : Bool := true
  /-- How far the server has scanned the log, once rows were asked for, and whether
  it leaves out the client's own. -/
  scan : Option (Nat × Bool) := none
  /-- The backfill is complete and rows are relayed as they come. -/
  done : Bool := false

/-- What the server does with the next row of its scan. -/
inductive Relay where
  | row
  | ack
  | skip

structure ChatSystem (Op : Type) where
  client : ChatClient Op
  session : Option Session := none
  room : ChatRoom
  /-- Pushes of dropped connections. -/
  strays : List PendingPush := []
  /-- The cursor is one of the room as it is: it was at the start, or a session has
  based it on the room since. -/
  based : Bool
  /-- The head of the last backfill that was completed since. -/
  caughtUp : Option Nat := none

inductive ChatAction (Op : Type) where
  | connect
  | disconnect
  | receive
  | fetched
  | edit (ops : List Op)
  | enqueue (push : PendingPush)
  | nudge
  | retryTick
  | evict
  | serve
  | refuse (code : String)
  | gossip
  | relay (choice : Relay)
  | finishRows
  | strayPush
  | otherPush (device batchId : String) (payload : List UInt8)
  | postCheckpoint (checkpoint : Checkpoint)
  | reset

/-- The request bases the cursor on the room: it lowers the cursor, or the cursor is
zero or covered by the checkpoint. -/
def Session.rebases (session : Session) (header : StateHeader) (after : Nat) : Bool :=
  session.live &&
    (after < session.helloCursor || session.helloCursor = 0 ||
      (header.checkpointSize ≠ 0 && session.helloCursor ≤ header.checkpointSeq))

namespace ChatSystem

variable {Op : Type}

/-- Ask for the rows behind `after`, with the cursor clamped to it. -/
def startBackfill (system : ChatSystem Op) (session : Session) (header : StateHeader)
    (after : Nat) : ChatSystem Op :=
  let cursor := if after < session.helloCursor then after else system.client.cursor
  let based := system.based || session.rebases header after
  { system with
    client := { system.client with cursor }
    session := some
      { session with
        phase := .backfill
        outbound := session.outbound ++ [.rowsReq after system.client.resumed] }
    based
    caughtUp := if based && !system.based then none else system.caughtUp }

/-- The answer to the hello decides how to catch up. -/
def receiveState [DecidableEq Op] (crdt : Crdt Op) (system : ChatSystem Op) (session : Session)
    (header : StateHeader) (frontier : List UInt8) : ChatSystem Op :=
  let contained := header.checkpointSize = 0 || system.client.sink.containsFrontier crdt frontier
  match planCatchUp session.helloCursor header contained with
  | .rowsOnly after => system.startBackfill session header after
  | .checkpointThenRows _ => { system with session := some { session with phase := .fetching header } }

/-- The end of a backfill: what is pending goes out. -/
def receiveRowsDone (system : ChatSystem Op) (session : Session) (headSeq : Nat) : ChatSystem Op :=
  { system with
    client := { system.client with resumed := true }
    session := some
      { session with
        phase := .steady
        outbound := session.outbound ++ system.client.pushPending }
    caughtUp := if session.live then some headSeq else system.caughtUp }

def receive [DecidableEq Op] (crdt : Crdt Op) (system : ChatSystem Op) (session : Session) :
    Option (ChatSystem Op) :=
  match session.phase, session.inbound with
  | _, [] => none
  | .fetching _, _ => none
  | .hello, frame :: rest =>
    let session := { session with inbound := rest }
    match frame with
    | .state header frontier => some (system.receiveState crdt session header frontier)
    | _ => some { system with session := some session }
  | .backfill, frame :: rest =>
    let session := { session with inbound := rest }
    match frame with
    | .rowsDone headSeq => some (system.receiveRowsDone session headSeq)
    | frame =>
      some
        { system with
          client := system.client.handleFrame crdt frame
          session := some session }
  | .steady, frame :: rest =>
    some
      { system with
        client := system.client.handleFrame crdt frame
        session := some { session with inbound := rest } }

/-- The checkpoint the room has now arrives. A failed import ends the session. -/
def fetched (crdt : Crdt Op) (system : ChatSystem Op) (session : Session) :
    Option (ChatSystem Op) :=
  match session.phase, system.room.checkpoint with
  | .fetching header, some checkpoint =>
    match system.client.sink.applyCheckpoint crdt checkpoint.blob header.checkpointSeq with
    | none => some { system with session := none }
    | some sink =>
      let client :=
        { system.client with sink, cursor := max system.client.cursor header.checkpointSeq }
      some ({ system with client }.startBackfill session header header.checkpointSeq)
  | _, _ => none

/-- The server takes the next frame. A batch that is committed already is answered
once the scan has passed its row. -/
def serve (system : ChatSystem Op) (session : Session) : Option (ChatSystem Op) :=
  match session.outbound with
  | [] => none
  | frame :: rest =>
    let session := { session with outbound := rest }
    match frame with
    | .hello _ =>
      let answer := ServerFrame.state system.room.header system.room.frontier
      some { system with session := some { session with inbound := session.inbound ++ [answer] } }
    | .rowsReq after excludeOwn =>
      some { system with session := some { session with scan := some (after, excludeOwn) } }
    | .push push =>
      match system.room.committed push, session.scan with
      | none, _ =>
        some { system with room := system.room.commit push, session := some session }
      | some index, some (sent, _) =>
        if session.done && index < sent then
          let answer := ServerFrame.ack push.batchId (index + 1)
          some
            { system with
              session := some { session with inbound := session.inbound ++ [answer] } }
        else none
      | some _, none => none

def refuse (system : ChatSystem Op) (session : Session) (code : String) : Option (ChatSystem Op) :=
  match session.outbound with
  | .push push :: rest =>
    let answer := ServerFrame.error code push.batchId
    some
      { system with
        session := some { session with outbound := rest, inbound := session.inbound ++ [answer] } }
  | _ => none

/-- The next row of the scan. Own rows may be left out of a backfill on request, and
later be acknowledged or left out. -/
def relay (system : ChatSystem Op) (session : Session) (choice : Relay) : Option (ChatSystem Op) :=
  match session.scan with
  | none => none
  | some (sent, excludeOwn) =>
    match system.room.rows[sent]? with
    | none => none
    | some row =>
      let session := { session with scan := some (sent + 1, excludeOwn) }
      match choice with
      | .row =>
        let frame := ServerFrame.row (sent + 1) row.payload
        some
          { system with
            session := some { session with inbound := session.inbound ++ [frame] } }
      | .ack =>
        if session.done && row.origin = .thisClient then
          let frame := ServerFrame.ack row.batchId (sent + 1)
          some
            { system with
              session := some { session with inbound := session.inbound ++ [frame] } }
        else none
      | .skip =>
        if (row.origin.isOwn && excludeOwn) || (session.done && row.origin = .thisClient) then
          some { system with session := some session }
        else none

def finishRows (system : ChatSystem Op) (session : Session) : Option (ChatSystem Op) :=
  match session.scan with
  | none => none
  | some (sent, _) =>
    if system.room.rows.length ≤ sent && !session.done then
      let frame := ServerFrame.rowsDone system.room.rows.length
      some
        { system with
          session := some { session with inbound := session.inbound ++ [frame], done := true } }
    else none

/-- A step of the server on a connection that a reset has not cut off. -/
def onLive (system : ChatSystem Op) (act : Session → Option (ChatSystem Op)) :
    Option (ChatSystem Op) :=
  match system.session with
  | some session => if session.live then act session else none
  | none => none

def step [DecidableEq Op] (crdt : Crdt Op) (system : ChatSystem Op) :
    ChatAction Op → Option (ChatSystem Op)
  | .connect =>
    match system.session with
    | some _ => none
    | none =>
      let cursor := system.client.cursor
      some { system with session := some { helloCursor := cursor, outbound := [.hello cursor] } }
  | .disconnect =>
    system.session.map fun session =>
      let strays := session.outbound.filterMap fun frame =>
        match frame with
        | .push push => some push
        | _ => none
      { system with session := none, strays := system.strays ++ strays }
  | .receive => system.session.bind (system.receive crdt)
  | .fetched => system.session.bind (system.fetched crdt)
  | .edit ops =>
    let sink := { system.client.sink with doc := system.client.sink.doc.map (· ++ ops) }
    some { system with client := { system.client with sink } }
  | .enqueue push => some { system with client := system.client.enqueueUpdate push }
  | .nudge =>
    match system.session with
    | some session =>
      if session.phase = .steady then
        let outbound := session.outbound ++ system.client.pushPending
        some { system with session := some { session with outbound } }
      else none
    | none => none
  | .retryTick =>
    match system.session with
    | some session =>
      if session.phase = .steady && system.client.retryArmed then
        let outbound := session.outbound ++ system.client.pushHead
        some
          { system with
            client := { system.client with retryArmed := false }
            session := some { session with outbound } }
      else none
    | none => none
  | .evict =>
    let sink := { system.client.sink with doc := none }
    some { system with client := { system.client with sink } }
  | .serve => system.onLive system.serve
  | .refuse code => system.onLive fun session => system.refuse session code
  | .gossip => system.onLive fun session =>
    some { system with session := some { session with inbound := session.inbound ++ [.other] } }
  | .relay choice => system.onLive fun session => system.relay session choice
  | .finishRows => system.onLive system.finishRows
  | .strayPush =>
    match system.strays with
    | [] => none
    | push :: rest =>
      match system.room.committed push with
      | none => some { system with room := system.room.commit push, strays := rest }
      | some _ => some { system with strays := rest }
  | .otherPush device batchId payload =>
    let row : ChatRow := ⟨.otherDevice device, batchId, payload⟩
    some { system with room := { system.room with rows := system.room.rows ++ [row] } }
  | .postCheckpoint checkpoint =>
    if system.room.checkpoint.all fun old => old.seq ≤ checkpoint.seq then
      some { system with room := { system.room with checkpoint := some checkpoint } }
    else none
  | .reset =>
    some
      { system with
        room := {}
        session := system.session.map fun session => { session with live := false }
        based := false
        caughtUp := none }

end ChatSystem

end Keel.Chat2
