import Mathlib.Logic.Function.Basic
import Keel.Foundation.Trace
import Keel.Doc.RegistryDoc

/-! # Synchronising registry replicas

Any number of replicas talk to one server. A connection is one queue in each
direction. The server merges a pushed batch as a whole, sends the merged rows to
every connection and then acknowledges the batch to the connection it came on. A
replica that connects names its cursor and gets the rows it has not seen.

A connection can drop at any moment. The frames on their way to the replica are
lost with it; of those on their way to the server any number may still arrive.
-/

namespace Keel

open Function

structure RegistryServer where
  rows : Rows := ∅
  seq : Nat := 0
  gcFloor : Nat := 0

inductive ClientFrame where
  | hello (cursor : Option Nat)
  | push (batch : String) (ops : List RowOp)

inductive ServerFrame where
  | state (seq : Nat) (full : Bool) (gcFloor : Nat) (rows : List RegistryRow)
  | rows (seq : Nat) (rows : List RegistryRow)
  | ack (batch : String) (seq applied : Nat)
  | error

namespace RegistryServer

/-- The rows a batch has touched so far and the number of ops that took effect. -/
def touch (server : RegistryServer) (state : List RegistryRow × Nat) (op : RowOp) :
    List RegistryRow × Nat :=
  let (touched, applied) := state
  let before := (touched.find? fun row => row.kind = op.kind && row.id = op.id).or
    (rowAt server.rows op.kind op.id)
  match applyOp before op with
  | (none, _) => (touched, applied)
  | (some next, changed) =>
    if changed = false then (touched, applied)
    else
      let next := { next with seq := server.seq + 1 }
      (touched.filter (fun row => !(row.kind = next.kind && row.id = next.id)) ++ [next], applied + 1)

/-- A batch that changes something takes the next sequence number. -/
def push (server : RegistryServer) (ops : List RowOp) : RegistryServer × List RegistryRow × Nat :=
  let (touched, applied) := ops.foldl server.touch ([], 0)
  if applied > 0 then
    ({ server with rows := putRows server.rows touched, seq := server.seq + 1 }, touched, applied)
  else (server, touched, applied)

/-- The answer to a hello: all rows, or those after the cursor. -/
def hello (server : RegistryServer) (cursor : Option Nat) : ServerFrame :=
  let full :=
    match cursor with
    | none => true
    | some cursor => cursor < server.gcFloor || cursor > server.seq
  .state server.seq full server.gcFloor
    ((allRows server.rows).filter fun row => full || row.seq > cursor.getD 0)

end RegistryServer

/-- The connection of a replica, with the frames in flight. -/
structure RegistrySession where
  toServer : List ClientFrame
  toClient : List ServerFrame := []
  /-- The server has processed the hello. -/
  ready : Bool := false
  /-- The replica has applied the answer. -/
  joined : Bool := false

/-- What is left of a dropped connection. -/
structure SeveredSession where
  toServer : List ClientFrame
  ready : Bool

inductive LocalWrite where
  | enqueueOps (ops : List RowOp) (now : Nat → Int)
  | write (kind id : String) (op : OpKind) (set : Fields) (now : Nat → Int)
  | deleteRowOps (keys : List (String × String)) (now : Nat → Int)

def LocalWrite.run (doc : RegistryDoc) : LocalWrite → RegistryDoc
  | .enqueueOps ops now => doc.enqueueOps ops now
  | .write kind id op set now => doc.write kind id op set now
  | .deleteRowOps keys now => doc.deleteRowOps keys now

structure RegistrySystem (Client : Type) where
  server : RegistryServer
  docs : Client → RegistryDoc
  sessions : Client → Option RegistrySession
  severed : List SeveredSession

inductive SyncAction (Client : Type) where
  | localWrite (client : Client) (write : LocalWrite)
  /-- Dial and send the hello. -/
  | connect (client : Client)
  /-- The server processes a frame. -/
  | serve (client : Client)
  /-- The server processes a frame of a dropped connection. -/
  | serveSevered (index : Nat)
  /-- The replica processes a frame, walking its rows in the given order if it has to. -/
  | receive (client : Client) (visit : List RegistryRow) (now : Nat → Int)
  | pushPending (client : Client)
  /-- The connection drops; the server still gets the first few frames sent. -/
  | disconnect (client : Client) (delivered : Nat)
  | setGcFloor (floor : Nat)

/-- A replica that never changed asks for everything. -/
def RegistryDoc.helloCursor (doc : RegistryDoc) : Option Nat :=
  if doc.cursor = 0 ∧ doc.pendingLen = 0 ∧ doc.generation = 0 then none else some doc.cursor

/-- One inbound frame. During the handshake everything but the state is skipped. -/
def RegistryDoc.receive (doc : RegistryDoc) (joined : Bool) (visit : List RegistryRow)
    (now : Nat → Int) : ServerFrame → RegistryDoc × Bool
  | .state seq full gcFloor rows => ((doc.applyState seq full gcFloor rows visit now).1, true)
  | .rows seq rows => (if joined then doc.applyRows seq rows else doc, joined)
  | .ack batch seq _ => (if joined then (doc.ackBatch batch seq).1 else doc, joined)
  | .error => (doc, joined)

namespace RegistrySystem

variable {Client : Type} [DecidableEq Client]

def start (devices : Client → String) : RegistrySystem Client :=
  { server := {}, docs := fun client => .new (devices client), sessions := fun _ => none,
    severed := [] }

def broadcast (sessions : Client → Option RegistrySession) (frame : ServerFrame) :
    Client → Option RegistrySession := fun client =>
  (sessions client).map fun session => { session with toClient := session.toClient ++ [frame] }

/-- Merge a pushed batch and send the rows it touched to everyone. -/
def merge (system : RegistrySystem Client) (ops : List RowOp) : RegistrySystem Client :=
  let (server, touched, applied) := system.server.push ops
  { system with
    server
    sessions :=
      if applied > 0 then broadcast system.sessions (.rows server.seq touched) else system.sessions }

def setSession (system : RegistrySystem Client) (client : Client) (session : Option RegistrySession) :
    RegistrySystem Client :=
  { system with sessions := update system.sessions client session }

def setDoc (system : RegistrySystem Client) (client : Client) (doc : RegistryDoc) :
    RegistrySystem Client :=
  { system with docs := update system.docs client doc }

def reply (system : RegistrySystem Client) (client : Client) (frame : ServerFrame) :
    RegistrySystem Client :=
  { system with
    sessions := update system.sessions client <|
      (system.sessions client).map fun session =>
        { session with toClient := session.toClient ++ [frame] } }

def step (system : RegistrySystem Client) : SyncAction Client → Option (RegistrySystem Client)
  | .localWrite client write => some (system.setDoc client (write.run (system.docs client)))
  | .connect client =>
    match system.sessions client with
    | some _ => none
    | none => some (system.setSession client
        (some { toServer := [.hello (system.docs client).helloCursor] }))
  | .serve client =>
    match system.sessions client with
    | none => none
    | some session =>
      match session.toServer with
      | [] => none
      | .hello cursor :: rest =>
        some ((system.setSession client (some { session with toServer := rest, ready := true })).reply
          client (system.server.hello cursor))
      | .push batch ops :: rest =>
        let system := system.setSession client (some { session with toServer := rest })
        if session.ready then
          let merged := system.merge ops
          some (merged.reply client (.ack batch merged.server.seq (system.server.push ops).2.2))
        else some (system.reply client .error)
  | .serveSevered index =>
    match system.severed[index]? with
    | none => none
    | some session =>
      match session.toServer with
      | [] => none
      | .hello _ :: rest =>
        some { system with severed := system.severed.set index { toServer := rest, ready := true } }
      | .push _ ops :: rest =>
        let system :=
          { system with severed := system.severed.set index { session with toServer := rest } }
        if session.ready then some (system.merge ops) else some system
  | .receive client visit now =>
    match system.sessions client with
    | none => none
    | some session =>
      match session.toClient with
      | [] => none
      | frame :: rest =>
        if visit.Perm (allRows (system.docs client).authoritative) then
          let (doc, joined) := (system.docs client).receive session.joined visit now frame
          some ((system.setDoc client doc).setSession client
            (some { session with toClient := rest, joined }))
        else none
  | .pushPending client =>
    match system.sessions client with
    | none => none
    | some session =>
      if session.joined then
        let (doc, batches) := (system.docs client).takePushable
        some ((system.setDoc client doc).setSession client
          (some { session with
            toServer := session.toServer ++ batches.map fun entry => .push entry.batch entry.ops }))
      else none
  | .disconnect client delivered =>
    match system.sessions client with
    | none => none
    | some session =>
      some { (system.setDoc client (system.docs client).markDisconnected).setSession client none with
        severed := system.severed ++
          [{ toServer := session.toServer.take delivered, ready := session.ready }] }
  | .setGcFloor floor => some { system with server := { system.server with gcFloor := floor } }

end RegistrySystem

end Keel
