import Keel.Foundation.Trace
import Mathlib.Data.Finset.Basic
import Mathlib.Data.List.Nodup

/-! # A room session

A session keeps a document and a room's copy of it in sync over one socket. It joins
with the version of the document, and the room answers with its own. From then on local
commits go out in batches as they come, and every join answer brings out what the room
still lacks. A batch that the room rejects is not sent again: the session rejoins, and
the answer decides what to send. A version vector is the set of operations it covers.

The model has the `%LOR` side of the session. A batch is one message whether or not it
is cut into fragments, since its frames leave one after the other.
-/

namespace Keel.RoomSync

/-- Payload bytes per outbound fragment. -/
def FRAGMENT_BYTES : Nat := 200000

/-- Rejoins after a rejected update, in one session. -/
def MAX_INVALID_REJOINS : Nat := 3

/-- Requests for a full snapshot, in one session. -/
def MAX_FULL_RESYNCS : Nat := 3

inductive UpdateStatus where
  | ok
  | invalidUpdate
  | fragmentTimeout
  | permissionDenied
  | payloadTooLarge
  | other

variable {Op : Type} [DecidableEq Op]

/-- An encoded update. An encoding has a header, so it is never empty. -/
structure Update (Op : Type) where
  ops : Finset Op
  size : Nat
  size_pos : 0 < size
deriving DecidableEq

/-- `export(ExportMode::updates(&vv))` of the document library. -/
structure Export (Op : Type) [DecidableEq Op] where
  updates : Finset Op → Finset Op → Update Op
  ops_updates : ∀ doc version, (updates doc version).ops = doc \ version

inductive ClientMessage (Op : Type) where
  | joinRequest
  | docUpdate (id : Nat) (updates : List (Update Op))

inductive ServerMessage (Op : Type) where
  | joinResponseOk (version : Finset Op)
  | ack (id : Nat) (status : UpdateStatus)
  | docUpdate (ops : Finset Op)
  | rejoinSuggested

structure Room (Op : Type) where
  doc : Finset Op
  /-- The updates of local commits that the session has not taken. -/
  localUpdates : List (Update Op) := []
  alive : Bool := true
  joined : Bool := false
  /-- A join awaits its answer. -/
  joinSent : Bool := false
  /-- Batches sent and not acknowledged. -/
  pending : Nat → Option (List (Update Op)) := fun _ => none
  nextBatch : Nat := 0
  invalidRejoins : Nat := 0
  fullResyncs : Nat := 0
  toServer : List (ClientMessage Op) := []
  toClient : List (ServerMessage Op) := []
  /-- What the room has. -/
  server : Finset Op

inductive Action (Op : Type) where
  | commit (update : Update Op)
  | takeLocal
  | probe
  /-- The room answers the next message, a batch with the status. -/
  | answer (status : UpdateStatus)
  /-- The room gets operations from another client. -/
  | peer (ops : Finset Op)
  /-- The room pushes operations it has. -/
  | push (ops : Finset Op)
  | suggestRejoin
  /-- The session handles the next frame; a pushed update may fail to import. -/
  | handle (imports : Bool)
  | lose

namespace Room

def sendJoin (room : Room Op) : Room Op :=
  { room with joinSent := true, toServer := room.toServer ++ [.joinRequest] }

/-- `run_session` up to its loop: updates queued before are dropped. -/
def connect (doc server : Finset Op) : Room Op := sendJoin { doc, server }

def flushBatch (room : Room Op) (updates : List (Update Op)) : Room Op :=
  { room with
    pending := Function.update room.pending room.nextBatch (some updates)
    nextBatch := room.nextBatch + 1
    toServer := room.toServer ++ [.docUpdate room.nextBatch updates] }

/-- The batches of some updates: a large one by itself, small ones together. -/
def batches : List (Update Op) → List (Update Op) → Nat → List (List (Update Op))
  | [], small, _ => if small = [] then [] else [small]
  | update :: rest, small, bytes =>
    if update.size = 0 then batches rest small bytes
    else if update.size > FRAGMENT_BYTES then [update] :: batches rest small bytes
    else if bytes + update.size > FRAGMENT_BYTES then small :: batches rest [update] update.size
    else batches rest (small ++ [update]) (bytes + update.size)

def sendLoroUpdates (room : Room Op) (updates : List (Update Op)) : Room Op :=
  (batches updates [] 0).foldl flushBatch room

def forget (room : Room Op) (id : Nat) : Room Op :=
  { room with pending := Function.update room.pending id none }

def onJoinOk (library : Export Op) (room : Room Op) (version : Finset Op) : Room Op :=
  let room := { room with joinSent := false, joined := true }
  if room.doc ≠ ∅ ∧ room.invalidRejoins < MAX_INVALID_REJOINS ∧ ¬ room.doc ⊆ version then
    room.sendLoroUpdates [library.updates room.doc version]
  else room

def onAck (room : Room Op) (id : Nat) : UpdateStatus → Room Op
  | .ok => room.forget id
  | .fragmentTimeout =>
    match room.pending id with
    | some batch => (room.forget id).sendLoroUpdates batch
    | none => room
  | .invalidUpdate | .permissionDenied =>
    let room := room.forget id
    if room.invalidRejoins ≥ MAX_INVALID_REJOINS then { room with alive := false }
    else { room with invalidRejoins := room.invalidRejoins + 1 }.sendJoin
  | .payloadTooLarge | .other => room.forget id

def applyRemote (room : Room Op) (ops : Finset Op) (imports : Bool) : Room Op :=
  if imports then { room with doc := room.doc ∪ ops }
  else if room.joinSent = false ∧ room.fullResyncs < MAX_FULL_RESYNCS then
    { room with fullResyncs := room.fullResyncs + 1 }.sendJoin
  else room

def handleFrame (library : Export Op) (room : Room Op) (imports : Bool) :
    ServerMessage Op → Room Op
  | .joinResponseOk version => room.onJoinOk library version
  | .ack id status => room.onAck id status
  | .docUpdate ops => room.applyRemote ops imports
  | .rejoinSuggested => room.sendJoin

def answerMessage (room : Room Op) (status : UpdateStatus) : ClientMessage Op → Option (Room Op)
  | .joinRequest =>
    some { room with toClient := room.toClient ++ [.joinResponseOk room.server] }
  | .docUpdate id updates =>
    match status with
    | .ok => some { room with
        server := room.server ∪ updates.foldr (fun update ops => update.ops ∪ ops) ∅
        toClient := room.toClient ++ [.ack id .ok] }
    | .invalidUpdate | .fragmentTimeout =>
      some { room with toClient := room.toClient ++ [.ack id status] }
    | _ => none

end Room

def step (library : Export Op) (room : Room Op) (action : Action Op) : Option (Room Op) :=
  if room.alive = false then none
  else match action with
    | .commit update => some { room with
        doc := room.doc ∪ update.ops, localUpdates := room.localUpdates ++ [update] }
    | .takeLocal =>
      match room.localUpdates with
      | update :: rest =>
        let room := { room with localUpdates := rest }
        -- before the first join the update is part of what its answer brings out
        some (if room.joined then room.sendLoroUpdates [update] else room)
      | [] => none
    | .probe => if room.joinSent then none else some room.sendJoin
    | .answer status =>
      match room.toServer with
      | message :: rest => { room with toServer := rest }.answerMessage status message
      | [] => none
    | .peer ops => some { room with server := room.server ∪ ops }
    | .push ops =>
      if ops ⊆ room.server then some { room with toClient := room.toClient ++ [.docUpdate ops] }
      else none
    | .suggestRejoin => some { room with toClient := room.toClient ++ [.rejoinSuggested] }
    | .handle imports =>
      match room.toClient with
      | message :: rest =>
        some ({ room with toClient := rest }.handleFrame library imports message)
      | [] => none
    | .lose => some { room with alive := false }

end Keel.RoomSync
