import Keel.Sync.Room

/-! # What a room session makes of the frames it receives

Updates come whole or cut into fragments under a batch id, and are imported into the
document. An import that fails asks the room for everything it has, unless a join is on its
way already. A join carries a version, and its answer brings what the room has beyond it.
A version is the set of operations it covers, as in the outbound half.

Presence (`%EPH`) is handed over and not followed further.
-/

namespace Keel

namespace RoomInbound

open RoomSync (UpdateStatus MAX_INVALID_REJOINS MAX_FULL_RESYNCS FRAGMENT_BYTES)

abbrev Bytes := List UInt8

def MAX_REASSEMBLED_BYTES : Nat := 256 * 1024 * 1024

def MAX_FRAGMENT_COUNT : Nat := 16 * 1024

inductive CrdtType where
  | loro
  | loroEphemeralStore
  | other
deriving DecidableEq

inductive Message (BatchId Op : Type) where
  | joinResponseOk (crdt : CrdtType) (version : Finset Op)
  | joinError (crdt : CrdtType) (versionUnknown : Bool)
  | docUpdate (crdt : CrdtType) (updates : List Bytes)
  | docUpdateFragmentHeader (crdt : CrdtType) (batchId : BatchId)
      (fragmentCount totalSizeBytes : Nat)
  | docUpdateFragment (batchId : BatchId) (index : Nat) (fragment : Bytes)
  | ack (crdt : CrdtType) (status : UpdateStatus)
  | roomError (evicted : Bool)

structure FragmentBuffer where
  crdt : CrdtType
  parts : List (Option Bytes)
  received : Nat
  totalSize : Nat

/-- The document library. An import that leaves operations of the update out, since something
before them is missing, either fails or reports them as pending. -/
structure Library (Op : Type) [DecidableEq Op] where
  /-- The operations that an encoded update carries. -/
  ops : Bytes → Finset Op
  /-- What the document has afterwards, and what is pending. -/
  importBytes : Finset Op → Bytes → Finset Op × Except String (Finset Op)
  grows : ∀ doc update, doc ⊆ (importBytes doc update).1
  reports : ∀ doc update, ¬ ops update ⊆ (importBytes doc update).1 →
    (∃ error, (importBytes doc update).2 = .error error) ∨
      ∃ pending, pending ≠ ∅ ∧ (importBytes doc update).2 = .ok pending

inductive RoomEvent where
  | connected
  | remoteUpdate

structure Session (BatchId Op : Type) where
  doc : Finset Op
  fragments : BatchId → Option FragmentBuffer := fun _ => none
  alive : Bool := true
  joinedLor : Bool := false
  invalidRejoins : Nat := 0
  fullResyncs : Nat := 0
  /-- The version of the join that is not answered yet. -/
  joinSent : Option (Finset Op) := none
  joinIsProbe : Bool := false
  events : List RoomEvent := []
  /-- The batches whose bytes were put together and handed to `apply_remote`. -/
  handed : List (BatchId × CrdtType × Bytes) := []

inductive Action (BatchId Op : Type) where
  | handle (message : Message BatchId Op)
  /-- A local commit. -/
  | commit (ops : Finset Op)
  | probe

variable {BatchId Op : Type} [DecidableEq BatchId] [DecidableEq Op]

namespace Session

omit [DecidableEq BatchId] [DecidableEq Op] in
def sendJoinLoro (session : Session BatchId Op) (version : Finset Op) : Session BatchId Op :=
  { session with joinSent := some version, joinIsProbe := false }

/-- `run_session` up to its loop. -/
def connect (doc : Finset Op) : Session BatchId Op := sendJoinLoro { doc } doc

/-- One update in the loop of `apply_remote`, and whether one was imported. -/
def importUpdate (library : Library Op) (session : Session BatchId Op × Bool) (update : Bytes) :
    Session BatchId Op × Bool :=
  if update = [] then session
  else
    let result := library.importBytes session.1.doc update
    let imported := { session.1 with doc := result.1 }
    match result.2 with
    | .ok _ => (imported, true)
    | .error _ =>
      -- a full snapshot, behind an outstanding join and up to a cap
      if imported.joinSent.isNone ∧ imported.fullResyncs < MAX_FULL_RESYNCS then
        ({ imported with fullResyncs := imported.fullResyncs + 1 }.sendJoinLoro ∅, session.2)
      else (imported, session.2)

def applyRemote (library : Library Op) (session : Session BatchId Op) (crdt : CrdtType)
    (updates : List Bytes) : Session BatchId Op :=
  match crdt with
  | .loro =>
    let result := updates.foldl (importUpdate library) (session, false)
    if result.2 then { result.1 with events := result.1.events ++ [.remoteUpdate] } else result.1
  | .loroEphemeralStore | .other => session

def removeFragments (session : Session BatchId Op) (batchId : BatchId) : Session BatchId Op :=
  { session with fragments := Function.update session.fragments batchId none }

def onFragment (library : Library Op) (session : Session BatchId Op) (batchId : BatchId)
    (index : Nat) (fragment : Bytes) : Session BatchId Op :=
  match session.fragments batchId with
  | none => session
  | some buffer =>
    match buffer.parts[index]? with
    | none => session.removeFragments batchId
    | some part =>
      let received := if part.isNone then buffer.received + 1 else buffer.received
      let parts := buffer.parts.set index (some fragment)
      if received < parts.length then
        { session with fragments :=
            Function.update session.fragments batchId (some { buffer with parts, received }) }
      else
        let total := (parts.filterMap id).flatten
        { session.removeFragments batchId with
            handed := session.handed ++ [(batchId, buffer.crdt, total)] }.applyRemote library
          buffer.crdt [total]

def onJoinOk (session : Session BatchId Op) : CrdtType → Session BatchId Op
  | .loro =>
    let joined := { session with joinSent := none, joinIsProbe := false, joinedLor := true }
    if session.joinIsProbe then joined else { joined with events := joined.events ++ [.connected] }
  | .loroEphemeralStore | .other => session

def onAck (session : Session BatchId Op) (crdt : CrdtType) : UpdateStatus → Session BatchId Op
  | .invalidUpdate | .permissionDenied =>
    if crdt = .loro then
      if session.invalidRejoins ≥ MAX_INVALID_REJOINS then { session with alive := false }
      else { session with invalidRejoins := session.invalidRejoins + 1 }.sendJoinLoro session.doc
    else session
  | .ok | .fragmentTimeout | .payloadTooLarge | .other => session

def handleFrame (library : Library Op) (session : Session BatchId Op) :
    Message BatchId Op → Session BatchId Op
  | .joinResponseOk crdt _ => session.onJoinOk crdt
  | .joinError crdt versionUnknown =>
    if crdt = .loro then
      if versionUnknown then session.sendJoinLoro ∅ else { session with alive := false }
    else session
  | .docUpdate crdt updates => session.applyRemote library crdt updates
  | .docUpdateFragmentHeader crdt batchId fragmentCount totalSizeBytes =>
    if fragmentCount = 0 ∨ MAX_FRAGMENT_COUNT < fragmentCount ∨
        MAX_REASSEMBLED_BYTES < totalSizeBytes then session
    else { session with fragments := Function.update session.fragments batchId (some
      { crdt, parts := List.replicate fragmentCount none, received := 0,
        totalSize := totalSizeBytes }) }
  | .docUpdateFragment batchId index fragment => session.onFragment library batchId index fragment
  | .ack crdt status => session.onAck crdt status
  | .roomError evicted =>
    if evicted then { session with alive := false } else session.sendJoinLoro session.doc

end Session

def step (library : Library Op) (session : Session BatchId Op) (action : Action BatchId Op) :
    Option (Session BatchId Op) :=
  if session.alive = false then none
  else match action with
    | .handle message => some (session.handleFrame library message)
    | .commit ops => some { session with doc := session.doc ∪ ops }
    | .probe =>
      if session.joinSent.isNone then
        some { session.sendJoinLoro session.doc with joinIsProbe := true }
      else none

section Lemmas

variable {library : Library Op} {session next : Session BatchId Op}

namespace Session

/-- The batch that a fragment completes, with the bytes put together. -/
def completes (session : Session BatchId Op) (batchId : BatchId) (index : Nat)
    (fragment : Bytes) : Option (CrdtType × Bytes) :=
  match session.fragments batchId with
  | none => none
  | some buffer =>
    match buffer.parts[index]? with
    | none => none
    | some part =>
      if (if part.isNone then buffer.received + 1 else buffer.received) < buffer.parts.length then
        none
      else some (buffer.crdt, ((buffer.parts.set index (some fragment)).filterMap id).flatten)

/-- A fragment that completes no batch touches the table only, and only its own entry. -/
theorem onFragment_of_none {batchId : BatchId} {index : Nat} {fragment : Bytes}
    (hcompletes : session.completes batchId index fragment = none) :
    ∃ buffer, session.onFragment library batchId index fragment =
      { session with fragments := Function.update session.fragments batchId buffer } := by
  unfold completes at hcompletes
  unfold onFragment
  split
  next hnone => exact ⟨none, by rw [← hnone, Function.update_eq_self]⟩
  next buffer hbuffer =>
    simp only [hbuffer] at hcompletes
    split
    · exact ⟨none, rfl⟩
    next part hpart =>
      simp only [hpart] at hcompletes
      simp only [List.length_set] at hcompletes ⊢
      generalize (if part.isNone then buffer.received + 1 else buffer.received) = received
        at hcompletes ⊢
      split at hcompletes
      next hmore =>
        rw [if_pos hmore]
        exact ⟨_, rfl⟩
      · cases hcompletes

theorem onFragment_of_some {batchId : BatchId} {index : Nat} {fragment total : Bytes}
    {crdt : CrdtType} (hcompletes : session.completes batchId index fragment = some (crdt, total)) :
    session.onFragment library batchId index fragment =
      { session.removeFragments batchId with
        handed := session.handed ++ [(batchId, crdt, total)] }.applyRemote library crdt [total] := by
  unfold completes at hcompletes
  unfold onFragment
  split at hcompletes
  · cases hcompletes
  next buffer hbuffer =>
    split at hcompletes
    · cases hcompletes
    next part hpart =>
      simp only [List.length_set]
      generalize (if part.isNone then buffer.received + 1 else buffer.received) = received
        at hcompletes ⊢
      split at hcompletes
      · cases hcompletes
      next hlast =>
        cases hcompletes
        rw [if_neg hlast]

end Session

end Lemmas

end RoomInbound

end Keel
