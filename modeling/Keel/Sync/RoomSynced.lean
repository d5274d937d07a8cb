import Keel.Sync.Room

/-! # A live session is synced at rest

Every operation of the document is in the room, or on its way there: in the queue of
local updates, in a batch that the room has not answered, or in a batch that it lost and
that is sent again. A rejected batch is none of these; what stands for it is the rejoin
that follows, whose answer brings out what the room lacks, unless the session has used
up its rejoins.
-/

namespace Keel.RoomSync

open List Function

variable {Op : Type}

def ClientMessage.batchId : ClientMessage Op → Option Nat
  | .docUpdate id _ => some id
  | .joinRequest => none

def ServerMessage.ackId : ServerMessage Op → Option Nat
  | .ack id _ => some id
  | _ => none

/-- The version that a join answer carries. -/
def ServerMessage.version : ServerMessage Op → Option (Finset Op)
  | .joinResponseOk version => some version
  | _ => none

def Contains (updates : List (Update Op)) (op : Op) : Prop :=
  ∃ update ∈ updates, op ∈ update.ops

namespace Room

/-- The batches whose acknowledgement the session has not seen. -/
def awaited (room : Room Op) : List Nat :=
  room.toServer.filterMap ClientMessage.batchId ++ room.toClient.filterMap ServerMessage.ackId

/-- A rejoin will bring out what the room lacks. -/
def Resyncing (room : Room Op) : Prop :=
  (∃ id status, .ack id status ∈ room.toClient ∧
      (status = .invalidUpdate ∨ status = .permissionDenied)) ∨
    .joinRequest ∈ room.toServer ∨ ∃ version, .joinResponseOk version ∈ room.toClient

/-- The operation is in the room or on its way there. -/
inductive Covers (room : Room Op) (op : Op) : Prop
  | server (hop : op ∈ room.server)
  | queued (hop : Contains room.localUpdates op)
  | sent (id : Nat) (updates : List (Update Op))
      (hsent : .docUpdate id updates ∈ room.toServer) (hop : Contains updates op)
  | timedOut (id : Nat) (updates : List (Update Op))
      (hack : .ack id .fragmentTimeout ∈ room.toClient)
      (hpending : room.pending id = some updates) (hop : Contains updates op)

/-- What is on its way has been accounted for. -/
structure Books (room : Room Op) : Prop where
  versions : ∀ version, .joinResponseOk version ∈ room.toClient → version ⊆ room.server
  pushes : ∀ ops, .docUpdate ops ∈ room.toClient → ops ⊆ room.server
  nodup : room.awaited.Nodup
  fresh : ∀ id ∈ room.awaited, id < room.nextBatch
  batches : ∀ id updates, .docUpdate id updates ∈ room.toServer → room.pending id = some updates
  statuses : ∀ id status, .ack id status ∈ room.toClient →
    status = .ok ∨ status = .invalidUpdate ∨ status = .fragmentTimeout

/-- The invariant of a session. -/
structure Tracks (room : Room Op) : Prop extends Books room where
  unjoined : room.joined = false → room.Resyncing
  covered : room.Resyncing ∨ ∀ op ∈ room.doc, room.Covers op

end Room

section Sending

variable {room : Room Op}

theorem contains_append {first second : List (Update Op)} {op : Op} :
    Contains (first ++ second) op ↔ Contains first op ∨ Contains second op := by
  simp only [Contains, mem_append, or_and_right, exists_or]

theorem mem_batches (updates small : List (Update Op)) (bytes : Nat) {update : Update Op}
    (hmem : update ∈ small ∨ update ∈ updates) :
    ∃ batch ∈ Room.batches updates small bytes, update ∈ batch := by
  induction updates generalizing small bytes with
  | nil =>
    have hsmall : update ∈ small := hmem.resolve_right not_mem_nil
    refine ⟨small, ?_, hsmall⟩
    rw [Room.batches, if_neg (ne_nil_of_mem hsmall)]
    exact mem_singleton_self _
  | cons first rest ih =>
    rw [Room.batches, if_neg (Nat.ne_of_gt first.size_pos)]
    rw [mem_cons] at hmem
    split
    · by_cases hfirst : update = first
      · exact ⟨[first], mem_cons_self, mem_singleton.mpr hfirst⟩
      · obtain ⟨batch, hbatch, hupdate⟩ := ih small bytes (hmem.imp_right (·.resolve_left hfirst))
        exact ⟨batch, mem_cons_of_mem _ hbatch, hupdate⟩
    · split
      · by_cases hsmall : update ∈ small
        · exact ⟨small, mem_cons_self, hsmall⟩
        · obtain ⟨batch, hbatch, hupdate⟩ := ih [first] first.size
            ((hmem.resolve_left hsmall).imp_left mem_singleton.mpr)
          exact ⟨batch, mem_cons_of_mem _ hbatch, hupdate⟩
      · refine ih (small ++ [first]) (bytes + first.size) ?_
        rw [mem_append, mem_singleton, or_assoc]
        exact hmem

/-- What sending some updates does to a session. -/
structure Sends (room room' : Room Op) (updates : List (Update Op)) : Prop where
  doc : room'.doc = room.doc
  localUpdates : room'.localUpdates = room.localUpdates
  joined : room'.joined = room.joined
  toClient : room'.toClient = room.toClient
  server : room'.server = room.server
  nextBatch : room.nextBatch ≤ room'.nextBatch
  pending : ∀ id, id < room.nextBatch → room'.pending id = room.pending id
  toServer : ∃ added, room'.toServer = room.toServer ++ added ∧
    (added.filterMap ClientMessage.batchId).Nodup ∧
    (∀ id ∈ added.filterMap ClientMessage.batchId, room.nextBatch ≤ id ∧ id < room'.nextBatch) ∧
    (∀ id updates, .docUpdate id updates ∈ added → room'.pending id = some updates) ∧
    ∀ update ∈ updates, ∃ id batch, .docUpdate id batch ∈ added ∧ update ∈ batch

theorem foldl_flushBatch (batches : List (List (Update Op))) (room : Room Op) :
    Sends room (batches.foldl Room.flushBatch room) batches.flatten := by
  induction batches generalizing room with
  | nil =>
    exact ⟨rfl, rfl, rfl, rfl, rfl, Nat.le_refl _, fun _ _ => rfl, [], by simp⟩
  | cons batch batches ih =>
    obtain ⟨hdoc, hlocal, hjoined, hclient, hserver, hnext, hpending, added, hadded, hnodup,
      hids, hbatches, hupdates⟩ := ih (room.flushBatch batch)
    have hlt : room.nextBatch < (room.flushBatch batch).nextBatch := Nat.lt_succ_self _
    have hown : (batches.foldl Room.flushBatch (room.flushBatch batch)).pending room.nextBatch =
        some batch := (hpending _ hlt).trans (update_self _ _ _)
    refine ⟨hdoc, hlocal, hjoined, hclient, hserver, Nat.le_trans (Nat.le_of_lt hlt) hnext, ?_,
      .docUpdate room.nextBatch batch :: added, ?_, ?_, ?_, ?_, ?_⟩
    · intro id hid
      refine (hpending id (Nat.lt_trans hid hlt)).trans ?_
      exact update_of_ne (Nat.ne_of_lt hid) _ _
    · rw [foldl_cons, hadded, Room.flushBatch, append_assoc]
      rfl
    · refine nodup_cons.mpr ⟨fun hmem => ?_, hnodup⟩
      exact absurd (hids _ hmem).1 (Nat.not_le_of_lt hlt)
    · intro id hid
      rcases mem_cons.mp hid with rfl | hid
      · exact ⟨Nat.le_refl _, Nat.lt_of_lt_of_le hlt hnext⟩
      · exact ⟨Nat.le_trans (Nat.le_of_lt hlt) (hids id hid).1, (hids id hid).2⟩
    · intro id updates hsent
      rcases mem_cons.mp hsent with heq | hsent
      · cases heq
        exact hown
      · exact hbatches id updates hsent
    · intro update hupdate
      rcases mem_append.mp hupdate with hfirst | hrest
      · exact ⟨_, batch, mem_cons_self, hfirst⟩
      · obtain ⟨id, other, hsent, hmem⟩ := hupdates update hrest
        exact ⟨id, other, mem_cons_of_mem _ hsent, hmem⟩

theorem sendLoroUpdates_spec (room : Room Op) (updates : List (Update Op)) :
    Sends room (room.sendLoroUpdates updates) updates := by
  have hsends := foldl_flushBatch (Room.batches updates [] 0) room
  obtain ⟨added, hadded, hnodup, hids, hbatches, hupdates⟩ := hsends.toServer
  refine { hsends with toServer := ⟨added, hadded, hnodup, hids, hbatches, fun update hupdate => ?_⟩ }
  obtain ⟨batch, hbatch, hmem⟩ := mem_batches updates [] 0 (Or.inr hupdate)
  exact hupdates update (mem_flatten.mpr ⟨batch, hbatch, hmem⟩)

end Sending

namespace Room

section Steps

variable {room room' : Room Op} {updates : List (Update Op)}

theorem Tracks.connect (doc server : Finset Op) : (connect doc server).Tracks where
  versions _ h := by cases h
  pushes _ h := by cases h
  nodup := nodup_nil
  fresh _ h := by cases h
  batches _ _ h := by simp [Room.connect, sendJoin] at h
  statuses _ _ h := by cases h
  unjoined _ := Or.inr (Or.inl (by simp [Room.connect, sendJoin]))
  covered := Or.inl (Or.inr (Or.inl (by simp [Room.connect, sendJoin])))

theorem Resyncing.send (hresyncing : room.Resyncing) (hsends : Sends room room' updates) :
    room'.Resyncing := by
  obtain ⟨added, hadded, -⟩ := hsends.toServer
  rw [Resyncing, hsends.toClient, hadded]
  exact hresyncing.imp_right (Or.imp_left (mem_append_left _))

theorem Covers.send {op : Op} (hfresh : ∀ id ∈ room.awaited, id < room.nextBatch)
    (hsends : Sends room room' updates)
    (hop : room.Covers op ∨ Contains updates op) : room'.Covers op := by
  obtain ⟨added, hadded, -, -, -, hupdates⟩ := hsends.toServer
  rcases hop with hcovers | ⟨update, hupdate, hop⟩
  · cases hcovers with
    | server hop => exact .server (hsends.server ▸ hop)
    | queued hop => exact .queued (hsends.localUpdates ▸ hop)
    | sent id batch hsent hop =>
      exact .sent id batch (hadded ▸ mem_append_left _ hsent) hop
    | timedOut id batch hack hpending hop =>
      have hid : id < room.nextBatch := hfresh id
        (mem_append_right _ (mem_filterMap.mpr ⟨_, hack, rfl⟩))
      exact .timedOut id batch (hsends.toClient ▸ hack) ((hsends.pending id hid).trans hpending) hop
  · obtain ⟨id, batch, hsent, hmem⟩ := hupdates update hupdate
    exact .sent id batch (hadded ▸ mem_append_right _ hsent) ⟨update, hmem, hop⟩

theorem Books.send (hbooks : room.Books) (hsends : Sends room room' updates) : room'.Books := by
  obtain ⟨added, hadded, hnodup, hids, hbatches, -⟩ := hsends.toServer
  have hperm : room'.awaited.Perm (added.filterMap ClientMessage.batchId ++ room.awaited) := by
    rw [awaited, awaited, hadded, hsends.toClient, filterMap_append, append_assoc]
    exact (perm_append_comm_assoc _ _ _)
  refine ⟨?_, ?_, ?_, ?_, ?_, ?_⟩
  · rw [hsends.toClient, hsends.server]
    exact hbooks.versions
  · rw [hsends.toClient, hsends.server]
    exact hbooks.pushes
  · refine hperm.nodup_iff.mpr (nodup_append.mpr ⟨hnodup, hbooks.nodup, ?_⟩)
    rintro id hid other hother rfl
    exact absurd (hids id hid).1 (Nat.not_le_of_lt (hbooks.fresh id hother))
  · intro id hid
    rcases mem_append.mp (hperm.mem_iff.mp hid) with hnew | hold
    · exact (hids id hnew).2
    · exact Nat.lt_of_lt_of_le (hbooks.fresh id hold) hsends.nextBatch
  · intro id batch hsent
    rw [hadded] at hsent
    rcases mem_append.mp hsent with hold | hnew
    · have hid : id < room.nextBatch := hbooks.fresh id
        (mem_append_left _ (mem_filterMap.mpr ⟨_, hold, rfl⟩))
      exact (hsends.pending id hid).trans (hbooks.batches id batch hold)
    · exact hbatches id batch hnew
  · rw [hsends.toClient]
    exact hbooks.statuses

variable {op : Op} {message : ServerMessage Op} {rest : List (ServerMessage Op)} {id : Nat}
  {status : UpdateStatus}

theorem Covers.mono (hcovers : room.Covers op) (hserver : room.server ⊆ room'.server)
    (hlocal : room.localUpdates ⊆ room'.localUpdates) (hsent : room.toServer ⊆ room'.toServer)
    (hclient : room.toClient ⊆ room'.toClient) (hpending : room'.pending = room.pending) :
    room'.Covers op := by
  cases hcovers with
  | server hop => exact .server (hserver hop)
  | queued hop =>
    obtain ⟨update, hupdate, hop⟩ := hop
    exact .queued ⟨update, hlocal hupdate, hop⟩
  | sent id batch hbatch hop => exact .sent id batch (hsent hbatch) hop
  | timedOut id batch hack hheld hop =>
    exact .timedOut id batch (hclient hack) (hpending ▸ hheld) hop

theorem Resyncing.mono (hresyncing : room.Resyncing) (hsent : room.toServer ⊆ room'.toServer)
    (hclient : room.toClient ⊆ room'.toClient) : room'.Resyncing := by
  rcases hresyncing with ⟨id, status, hack, hstatus⟩ | hjoin | ⟨version, hversion⟩
  · exact Or.inl ⟨id, status, hclient hack, hstatus⟩
  · exact Or.inr (Or.inl (hsent hjoin))
  · exact Or.inr (Or.inr ⟨version, hclient hversion⟩)

section
variable (hbooks : room.Books)
include hbooks

theorem Books.sendJoin : room.sendJoin.Tracks := by
  have hresyncing : room.sendJoin.Resyncing :=
    Or.inr (Or.inl (mem_append_right _ (mem_singleton_self _)))
  have hawaited : room.sendJoin.awaited = room.awaited := by
    simp [awaited, Room.sendJoin, ClientMessage.batchId]
  refine ⟨⟨hbooks.versions, hbooks.pushes, hawaited ▸ hbooks.nodup, hawaited ▸ hbooks.fresh,
    fun id updates hsent => ?_, hbooks.statuses⟩, fun _ => hresyncing, Or.inl hresyncing⟩
  rcases mem_append.mp hsent with hold | hnew
  · exact hbooks.batches id updates hold
  · cases mem_singleton.mp hnew

theorem Books.pop (hclient : room.toClient = message :: rest) :
    ({ room with toClient := rest } : Room Op).Books := by
  have hrest : ∀ frame ∈ rest, frame ∈ room.toClient :=
    fun frame hframe => hclient ▸ mem_cons_of_mem _ hframe
  have hsublist : ({ room with toClient := rest } : Room Op).awaited.Sublist room.awaited := by
    rw [awaited, awaited, hclient]
    exact List.Sublist.append (List.Sublist.refl _) ((sublist_cons_self _ _).filterMap _)
  exact ⟨fun version h => hbooks.versions version (hrest _ h),
    fun ops h => hbooks.pushes ops (hrest _ h), hbooks.nodup.sublist hsublist,
    fun id h => hbooks.fresh id (hsublist.subset h), hbooks.batches,
    fun id status h => hbooks.statuses id status (hrest _ h)⟩

theorem Books.ack_unique (hclient : room.toClient = .ack id status :: rest) :
    (∀ updates, .docUpdate id updates ∉ room.toServer) ∧ ∀ status, .ack id status ∉ rest := by
  have hnodup := hbooks.nodup
  rw [awaited, hclient, filterMap_cons] at hnodup
  obtain ⟨-, hrest, hdisjoint⟩ := nodup_append.mp hnodup
  refine ⟨fun updates hsent => ?_, fun status hack => ?_⟩
  · exact hdisjoint id (mem_filterMap.mpr ⟨_, hsent, rfl⟩) id mem_cons_self rfl
  · exact (nodup_cons.mp hrest).1 (mem_filterMap.mpr ⟨_, hack, rfl⟩)

theorem Books.popAck (hclient : room.toClient = .ack id status :: rest) :
    ({ room with toClient := rest }.forget id).Books := by
  have hpopped := hbooks.pop hclient
  refine { hpopped with batches := fun sent updates hsent => ?_ }
  have hne : sent ≠ id := by
    rintro rfl
    exact (hbooks.ack_unique hclient).1 updates hsent
  exact (update_of_ne hne _ _).trans (hbooks.batches sent updates hsent)

end

theorem Covers.pop (hcovers : room.Covers op) (hclient : room.toClient = message :: rest)
    (hmessage : message.ackId = none) : ({ room with toClient := rest } : Room Op).Covers op := by
  cases hcovers with
  | server hop => exact .server hop
  | queued hop => exact .queued hop
  | sent id batch hsent hop => exact .sent id batch hsent hop
  | timedOut id batch hack hpending hop =>
    refine .timedOut id batch ?_ hpending hop
    rw [hclient] at hack
    rcases mem_cons.mp hack with rfl | hack
    · cases hmessage
    · exact hack

/-- After an acknowledgement, what was covered still is, or its batch timed out. -/
theorem Covers.popAck (hbooks : room.Books) (hcovers : room.Covers op)
    (hclient : room.toClient = .ack id status :: rest) :
    ({ room with toClient := rest }.forget id).Covers op ∨
      status = .fragmentTimeout ∧ ∃ batch, room.pending id = some batch ∧ Contains batch op := by
  cases hcovers with
  | server hop => exact Or.inl (.server hop)
  | queued hop => exact Or.inl (.queued hop)
  | sent sent batch hsent hop => exact Or.inl (.sent sent batch hsent hop)
  | timedOut sent batch hack hpending hop =>
    rw [hclient] at hack
    rcases mem_cons.mp hack with heq | hrest
    · cases heq
      exact Or.inr ⟨rfl, batch, hpending, hop⟩
    · have hne : sent ≠ id := by
        rintro rfl
        exact (hbooks.ack_unique hclient).2 _ hrest
      exact Or.inl (.timedOut sent batch hrest
        ((update_of_ne hne _ _).trans hpending) hop)

theorem Resyncing.pop (hresyncing : room.Resyncing) (hclient : room.toClient = message :: rest)
    (hack : ∀ id, message ≠ .ack id .invalidUpdate ∧ message ≠ .ack id .permissionDenied)
    (hjoin : ∀ version, message ≠ .joinResponseOk version) :
    ({ room with toClient := rest } : Room Op).Resyncing := by
  rcases hresyncing with ⟨id, status, hmem, hstatus⟩ | hsent | ⟨version, hmem⟩
  · rw [hclient] at hmem
    rcases mem_cons.mp hmem with rfl | hmem
    · rcases hstatus with rfl | rfl
      · exact absurd rfl (hack id).1
      · exact absurd rfl (hack id).2
    · exact Or.inl ⟨id, status, hmem, hstatus⟩
  · exact Or.inr (Or.inl hsent)
  · rw [hclient] at hmem
    rcases mem_cons.mp hmem with rfl | hmem
    · exact absurd rfl (hjoin version)
    · exact Or.inr (Or.inr ⟨version, hmem⟩)

theorem Tracks.onAck (htracks : room.Tracks) (hclient : room.toClient = .ack id status :: rest)
    (halive : ({ room with toClient := rest }.onAck id status).alive = true) :
    ({ room with toClient := rest }.onAck id status).Tracks := by
  have hbooks := htracks.toBooks.popAck hclient
  rcases htracks.statuses id status (hclient ▸ mem_cons_self) with rfl | rfl | rfl
  · have hresyncing : room.Resyncing → ({ room with toClient := rest }.forget id).Resyncing :=
      fun h => h.pop hclient (fun _ => ⟨by simp, by simp⟩) (by simp)
    refine ⟨hbooks, fun h => hresyncing (htracks.unjoined h), htracks.covered.imp hresyncing ?_⟩
    intro hall op hop
    exact ((hall op hop).popAck htracks.toBooks hclient).resolve_right (by simp)
  · -- the rejoin stands for the batch, unless it was one too many
    rw [Room.onAck] at halive ⊢
    split at halive
    · cases halive
    next hcap =>
      rw [if_neg hcap]
      exact Books.sendJoin { hbooks with }
  · have hresyncing : room.Resyncing → ({ room with toClient := rest }.forget id).Resyncing :=
      fun h => h.pop hclient (fun _ => ⟨by simp, by simp⟩) (by simp)
    rw [Room.onAck]
    split
    next batch hpending =>
      have hsends := sendLoroUpdates_spec ({ room with toClient := rest }.forget id) batch
      have hagain : room.Resyncing → _ := fun h => (hresyncing h).send hsends
      refine ⟨hbooks.send hsends, fun h => hagain (htracks.unjoined (hsends.joined ▸ h)),
        htracks.covered.imp hagain ?_⟩
      intro hall op hop
      rw [hsends.doc] at hop
      refine .send hbooks.fresh hsends (((hall op hop).popAck htracks.toBooks hclient).imp_right ?_)
      rintro ⟨-, other, hother, hop⟩
      obtain rfl := Option.mem_unique hpending hother
      exact hop
    next hpending =>
      have hpending : room.pending id = none := hpending
      have hsame : ({ room with toClient := rest } : Room Op).forget id =
          { room with toClient := rest } := by
        rw [forget, ← hpending, update_eq_self]
      rw [hsame] at hbooks hresyncing
      refine ⟨hbooks, fun h => hresyncing (htracks.unjoined h), htracks.covered.imp hresyncing ?_⟩
      intro hall op hop
      rcases (hall op hop).popAck htracks.toBooks hclient with hcovers | ⟨-, batch, hbatch, -⟩
      · rwa [hsame] at hcovers
      · rw [hpending] at hbatch
        cases hbatch

section Library

variable [DecidableEq Op]

/-- A join is answered, and the answer brings out what it lacks, unless it lacks nothing or
the session has used up its rejoins. -/
theorem Tracks.onJoinOk (library : Export Op) (htracks : room.Tracks) {version : Finset Op}
    {rest : List (ServerMessage Op)} (hclient : room.toClient = .joinResponseOk version :: rest)
    (hanswer : room.invalidRejoins < MAX_INVALID_REJOINS ∨ room.doc ⊆ version) :
    ({ room with toClient := rest }.onJoinOk library version).Tracks := by
  have hversion : version ⊆ room.server := htracks.versions version (hclient ▸ mem_cons_self)
  have hpopped : ({ room with toClient := rest, joinSent := false, joined := true } :
      Room Op).Books := { htracks.toBooks.pop hclient with }
  rw [Room.onJoinOk]
  split
  · have hsends := sendLoroUpdates_spec
      ({ room with toClient := rest, joinSent := false, joined := true } : Room Op)
      [library.updates room.doc version]
    refine ⟨hpopped.send hsends, fun h => ?_, Or.inr fun op hop => ?_⟩
    · rw [hsends.joined] at h
      cases h
    · rw [hsends.doc] at hop
      refine .send hpopped.fresh hsends ?_
      by_cases hknown : op ∈ version
      · exact Or.inl (.server (hversion hknown))
      · refine Or.inr ⟨_, mem_singleton_self _, ?_⟩
        rw [library.ops_updates]
        exact Finset.mem_sdiff.mpr ⟨hop, hknown⟩
  next hnone =>
    refine ⟨hpopped, (fun h => by cases h), Or.inr fun op hop => .server (hversion ?_)⟩
    by_cases hdoc : room.doc ⊆ version
    · exact hdoc hop
    · exact absurd ⟨Finset.ne_empty_of_mem hop, hanswer.resolve_right hdoc, hdoc⟩ hnone

theorem Tracks.applyRemote (htracks : room.Tracks) {ops : Finset Op} (imports : Bool)
    {rest : List (ServerMessage Op)} (hclient : room.toClient = .docUpdate ops :: rest) :
    ({ room with toClient := rest }.applyRemote ops imports).Tracks := by
  have hops : ops ⊆ room.server := htracks.pushes ops (hclient ▸ mem_cons_self)
  have hbooks := htracks.toBooks.pop hclient
  have hresyncing : room.Resyncing → ({ room with toClient := rest } : Room Op).Resyncing :=
    fun h => h.pop hclient (fun _ => ⟨by simp, by simp⟩) (by simp)
  have hcovered : ∀ op, room.Covers op → ({ room with toClient := rest } : Room Op).Covers op :=
    fun op h => h.pop hclient rfl
  rw [Room.applyRemote]
  split
  · refine ⟨{ hbooks with }, fun h => hresyncing (htracks.unjoined h),
      htracks.covered.imp hresyncing fun hall op hop => ?_⟩
    have hcovers : ({ room with toClient := rest } : Room Op).Covers op := by
      rcases Finset.mem_union.mp hop with hold | hnew
      · exact hcovered op (hall op hold)
      · exact .server (hops hnew)
    exact hcovers.mono (Finset.Subset.refl _) (List.Subset.refl _) (List.Subset.refl _)
      (List.Subset.refl _) rfl
  · split
    · exact Books.sendJoin { hbooks with }
    · exact ⟨hbooks, fun h => hresyncing (htracks.unjoined h),
        htracks.covered.imp hresyncing fun hall op hop => hcovered op (hall op hop)⟩

section
omit [DecidableEq Op]

theorem Books.acknowledge (hbooks : room.Books) {id : Nat} {batch : List (Update Op)}
    {rest : List (ClientMessage Op)} (hserver : room.toServer = .docUpdate id batch :: rest)
    {status : UpdateStatus}
    (hstatus : status = .ok ∨ status = .invalidUpdate ∨ status = .fragmentTimeout)
    {server : Finset Op} (hgrows : room.server ⊆ server) :
    ({ room with toServer := rest, server, toClient := room.toClient ++ [.ack id status] } :
      Room Op).Books := by
  have hperm : (({ room with toServer := rest, server, toClient :=
    room.toClient ++ [.ack id status] } :
      Room Op).awaited).Perm room.awaited := by
    rw [awaited, awaited, hserver, filterMap_append, ← append_assoc]
    exact perm_append_singleton id _
  refine ⟨fun version h => ?_, fun ops h => ?_, hperm.nodup_iff.mpr hbooks.nodup,
    fun sent h => hbooks.fresh sent (hperm.mem_iff.mp h),
    fun sent updates h => hbooks.batches sent updates (hserver ▸ mem_cons_of_mem _ h),
    fun sent answer h => ?_⟩
  · rcases mem_append.mp h with hold | hnew
    · exact (hbooks.versions version hold).trans hgrows
    · cases mem_singleton.mp hnew
  · rcases mem_append.mp h with hold | hnew
    · exact (hbooks.pushes ops hold).trans hgrows
    · cases mem_singleton.mp hnew
  · rcases mem_append.mp h with hold | hnew
    · exact hbooks.statuses sent answer hold
    · cases mem_singleton.mp hnew
      exact hstatus

theorem Covers.serve {op : Op} {id : Nat} {batch : List (Update Op)}
    {rest : List (ClientMessage Op)} {server : Finset Op} {toClient : List (ServerMessage Op)}
    (hcovers : room.Covers op) (hserver : room.toServer = .docUpdate id batch :: rest)
    (hgrows : room.server ⊆ server) (hclient : room.toClient ⊆ toClient) :
    ({ room with toServer := rest, server, toClient } : Room Op).Covers op ∨ Contains batch op := by
  cases hcovers with
  | server hop => exact Or.inl (.server (hgrows hop))
  | queued hop => exact Or.inl (.queued hop)
  | sent sent updates hsent hop =>
    rw [hserver] at hsent
    rcases mem_cons.mp hsent with heq | hrest
    · cases heq
      exact Or.inr hop
    · exact Or.inl (.sent sent updates hrest hop)
  | timedOut sent updates hack hpending hop =>
    exact Or.inl (.timedOut sent updates (hclient hack) hpending hop)

theorem Resyncing.serve {id : Nat} {batch : List (Update Op)} {rest : List (ClientMessage Op)}
    {server : Finset Op} {toClient : List (ServerMessage Op)} (hresyncing : room.Resyncing)
    (hserver : room.toServer = .docUpdate id batch :: rest) (hclient : room.toClient ⊆ toClient) :
    ({ room with toServer := rest, server, toClient } : Room Op).Resyncing := by
  rcases hresyncing with ⟨id, status, hack, hstatus⟩ | hsent | ⟨version, hversion⟩
  · exact Or.inl ⟨id, status, hclient hack, hstatus⟩
  · rw [hserver] at hsent
    rcases mem_cons.mp hsent with heq | hrest
    · cases heq
    · exact Or.inr (Or.inl hrest)
  · exact Or.inr (Or.inr ⟨version, hclient hversion⟩)

end

theorem mem_foldr_ops {updates : List (Update Op)} {op : Op} (hop : Contains updates op) :
    op ∈ updates.foldr (fun update ops => update.ops ∪ ops) ∅ := by
  obtain ⟨update, hupdate, hop⟩ := hop
  induction updates with
  | nil => cases hupdate
  | cons first rest ih =>
    rw [foldr_cons, Finset.mem_union]
    rcases mem_cons.mp hupdate with rfl | hrest
    · exact Or.inl hop
    · exact Or.inr (ih hrest)

theorem Tracks.answerMessage (htracks : room.Tracks) {message : ClientMessage Op}
    {rest : List (ClientMessage Op)} (hserver : room.toServer = message :: rest)
    (status : UpdateStatus)
    (hanswer : ({ room with toServer := rest } : Room Op).answerMessage status message = some room') :
    room'.Tracks := by
  have hclient : ∀ frame : ServerMessage Op, room.toClient ⊆ room.toClient ++ [frame] :=
    fun _ => subset_append_left _ _
  cases message with
  | joinRequest =>
    cases hanswer
    have hawaited : ({ room with
        toServer := rest, toClient := room.toClient ++ [.joinResponseOk room.server] } :
          Room Op).awaited = room.awaited := by
      rw [awaited, awaited, hserver, filterMap_append]
      exact congrArg _ (append_nil _)
    have hresyncing : ({ room with
        toServer := rest, toClient := room.toClient ++ [.joinResponseOk room.server] } :
          Room Op).Resyncing :=
      Or.inr (Or.inr ⟨_, mem_append_right _ (mem_singleton_self _)⟩)
    refine ⟨⟨fun version h => ?_, fun ops h => ?_, hawaited ▸ htracks.nodup,
      hawaited ▸ htracks.fresh, fun id updates h => htracks.batches id updates
        (hserver ▸ mem_cons_of_mem _ h), fun id answer h => ?_⟩,
      fun _ => hresyncing, Or.inl hresyncing⟩
    · rcases mem_append.mp h with hold | hnew
      · exact htracks.versions version hold
      · cases mem_singleton.mp hnew
        exact Finset.Subset.refl _
    · rcases mem_append.mp h with hold | hnew
      · exact htracks.pushes ops hold
      · cases mem_singleton.mp hnew
    · rcases mem_append.mp h with hold | hnew
      · exact htracks.statuses id answer hold
      · cases mem_singleton.mp hnew
  | docUpdate id batch =>
    cases status with
    | ok =>
      cases hanswer
      have hgrows : room.server ⊆ room.server ∪
          batch.foldr (fun update ops => update.ops ∪ ops) ∅ := Finset.subset_union_left
      refine ⟨htracks.toBooks.acknowledge hserver (Or.inl rfl) hgrows,
        fun h => (htracks.unjoined h).serve hserver (hclient _),
        htracks.covered.imp (fun h => h.serve hserver (hclient _)) fun hall op hop => ?_⟩
      exact ((hall op hop).serve hserver hgrows (hclient _)).elim (fun h => h)
        fun hop => .server (Finset.mem_union_right _ (mem_foldr_ops hop))
    | invalidUpdate =>
      cases hanswer
      have hresyncing : ({ room with
          toServer := rest, toClient := room.toClient ++ [.ack id .invalidUpdate] } :
            Room Op).Resyncing :=
        Or.inl ⟨id, _, mem_append_right _ (mem_singleton_self _), Or.inl rfl⟩
      exact ⟨htracks.toBooks.acknowledge hserver (Or.inr (Or.inl rfl)) (Finset.Subset.refl _),
        fun _ => hresyncing, Or.inl hresyncing⟩
    | fragmentTimeout =>
      cases hanswer
      refine ⟨htracks.toBooks.acknowledge hserver (Or.inr (Or.inr rfl)) (Finset.Subset.refl _),
        fun h => (htracks.unjoined h).serve hserver (hclient _),
        htracks.covered.imp (fun h => h.serve hserver (hclient _)) fun hall op hop => ?_⟩
      refine ((hall op hop).serve hserver (Finset.Subset.refl _) (hclient _)).elim (fun h => h)
        fun hop => .timedOut id batch (mem_append_right _ (mem_singleton_self _))
          (htracks.batches id batch (hserver ▸ mem_cons_self)) hop
    | permissionDenied | payloadTooLarge | other => cases hanswer

omit [DecidableEq Op] in
theorem Covers.takeLocal {op : Op} {update : Update Op} {rest : List (Update Op)}
    (hcovers : room.Covers op) (hlocal : room.localUpdates = update :: rest) :
    ({ room with localUpdates := rest } : Room Op).Covers op ∨ Contains [update] op := by
  cases hcovers with
  | server hop => exact Or.inl (.server hop)
  | queued hop =>
    obtain ⟨held, hheld, hop⟩ := hop
    rcases mem_cons.mp (hlocal ▸ hheld) with rfl | hrest
    · exact Or.inr ⟨held, mem_singleton_self _, hop⟩
    · exact Or.inl (.queued ⟨held, hrest, hop⟩)
  | sent id updates hsent hop => exact Or.inl (.sent id updates hsent hop)
  | timedOut id updates hack hpending hop => exact Or.inl (.timedOut id updates hack hpending hop)

omit [DecidableEq Op] in
theorem Tracks.takeLocal (htracks : room.Tracks) {update : Update Op} {rest : List (Update Op)}
    (hlocal : room.localUpdates = update :: rest) :
    (if room.joined then ({ room with localUpdates := rest } : Room Op).sendLoroUpdates [update]
      else { room with localUpdates := rest }).Tracks := by
  have hbooks : ({ room with localUpdates := rest } : Room Op).Books := { htracks.toBooks with }
  have hresyncing : room.Resyncing → ({ room with localUpdates := rest } : Room Op).Resyncing :=
    fun h => h
  split
  next hjoined =>
    have hsends := sendLoroUpdates_spec ({ room with localUpdates := rest } : Room Op) [update]
    refine ⟨hbooks.send hsends, fun h => ?_,
      htracks.covered.imp (fun h => (hresyncing h).send hsends) fun hall op hop => ?_⟩
    · rw [hsends.joined, hjoined] at h
      cases h
    · rw [hsends.doc] at hop
      exact .send hbooks.fresh hsends ((hall op hop).takeLocal hlocal)
  next hunjoined =>
    have hresync : room.Resyncing := htracks.unjoined (Bool.eq_false_of_not_eq_true hunjoined)
    exact ⟨hbooks, fun _ => hresyncing hresync, Or.inl (hresyncing hresync)⟩

theorem Tracks.commit (htracks : room.Tracks) (update : Update Op) :
    ({ room with doc := room.doc ∪ update.ops, localUpdates := room.localUpdates ++ [update] } :
      Room Op).Tracks := by
  refine ⟨{ htracks.toBooks with }, htracks.unjoined, htracks.covered.imp_right ?_⟩
  intro hall op hop
  rcases Finset.mem_union.mp hop with hold | hnew
  · exact (hall op hold).mono (Finset.Subset.refl _) (subset_append_left _ _)
      (List.Subset.refl _) (List.Subset.refl _) rfl
  · exact .queued (contains_append.2 (Or.inr ⟨update, mem_singleton_self _, hnew⟩))

theorem Tracks.peer (htracks : room.Tracks) (ops : Finset Op) :
    ({ room with server := room.server ∪ ops } : Room Op).Tracks := by
  have hgrows : room.server ⊆ room.server ∪ ops := Finset.subset_union_left
  refine ⟨{ htracks.toBooks with
    versions := fun version h => (htracks.versions version h).trans hgrows
    pushes := fun pushed h => (htracks.pushes pushed h).trans hgrows },
    htracks.unjoined, htracks.covered.imp_right fun hall op hop => ?_⟩
  exact (hall op hop).mono hgrows (List.Subset.refl _) (List.Subset.refl _)
    (List.Subset.refl _) rfl

omit [DecidableEq Op] in
theorem Tracks.notify (htracks : room.Tracks) {frame : ServerMessage Op}
    (hack : frame.ackId = none) (hversion : ∀ version, frame ≠ .joinResponseOk version)
    (hpush : ∀ ops, frame = .docUpdate ops → ops ⊆ room.server) :
    ({ room with toClient := room.toClient ++ [frame] } : Room Op).Tracks := by
  have hgrows : room.toClient ⊆ room.toClient ++ [frame] := subset_append_left _ _
  have hawaited : ({ room with toClient := room.toClient ++ [frame] } : Room Op).awaited =
      room.awaited := by
    simp [awaited, hack]
  refine ⟨⟨fun version h => ?_, fun ops h => ?_, hawaited ▸ htracks.nodup,
    hawaited ▸ htracks.fresh, htracks.batches, fun id status h => ?_⟩,
    fun h => (htracks.unjoined h).mono (List.Subset.refl _) hgrows,
    htracks.covered.imp (fun h => h.mono (List.Subset.refl _) hgrows) fun hall op hop => ?_⟩
  · rcases mem_append.mp h with hold | hnew
    · exact htracks.versions version hold
    · exact absurd (mem_singleton.mp hnew).symm (hversion version)
  · rcases mem_append.mp h with hold | hnew
    · exact htracks.pushes ops hold
    · exact hpush ops (mem_singleton.mp hnew).symm
  · rcases mem_append.mp h with hold | hnew
    · exact htracks.statuses id status hold
    · cases mem_singleton.mp hnew
      cases hack
  · exact (hall op hop).mono (Finset.Subset.refl _) (List.Subset.refl _) (List.Subset.refl _)
      hgrows rfl

end Library

end Steps

end Room

section Runs

variable [DecidableEq Op] {library : Export Op}

/-- A join answer that is handled after the last rejoin covers the document. -/
def AnswersCover (room : Room Op) : Action Op → Prop
  | .handle _ => ∀ version ∈ room.toClient.head?.bind ServerMessage.version,
      room.invalidRejoins < MAX_INVALID_REJOINS ∨ room.doc ⊆ version
  | _ => True

instance (room : Room Op) : ∀ action, Decidable (AnswersCover room action)
  | .handle _ => inferInstanceAs (Decidable (∀ version ∈ room.toClient.head?.bind
      ServerMessage.version, room.invalidRejoins < MAX_INVALID_REJOINS ∨ room.doc ⊆ version))
  | .commit _ | .takeLocal | .probe | .answer _ | .peer _ | .push _ | .suggestRejoin | .lose =>
    isTrue trivial

/-- Nothing is under way in a live session. -/
structure AtRest (room : Room Op) : Prop where
  alive : room.alive = true
  joined : room.joined = true
  joinSent : room.joinSent = false
  pending : ∀ id, room.pending id = none
  localUpdates : room.localUpdates = []
  toServer : room.toServer = []
  toClient : room.toClient = []

theorem step_tracks {room room' : Room Op} {action : Action Op}
    (htracks : room.alive = true → room.Tracks) (hcover : AnswersCover room action)
    (hstep : step library room action = some room') : room'.alive = true → room'.Tracks := by
  unfold step at hstep
  split at hstep
  · cases hstep
  next halive =>
    have htracks : room.Tracks := htracks (Bool.eq_true_of_not_eq_false halive)
    intro hlive
    cases action with
    | commit update =>
      cases hstep
      exact htracks.commit update
    | takeLocal =>
      simp only at hstep
      split at hstep
      next update rest hlocal =>
        cases hstep
        exact htracks.takeLocal hlocal
      · cases hstep
    | probe =>
      simp only at hstep
      split at hstep
      · cases hstep
      · cases hstep
        exact htracks.toBooks.sendJoin
    | answer status =>
      simp only at hstep
      split at hstep
      next message rest hserver => exact htracks.answerMessage hserver status hstep
      · cases hstep
    | peer ops =>
      cases hstep
      exact htracks.peer ops
    | push ops =>
      simp only at hstep
      split at hstep
      next hops =>
        cases hstep
        refine htracks.notify rfl (fun _ => by simp) fun pushed hpushed => ?_
        cases hpushed
        exact hops
      · cases hstep
    | suggestRejoin =>
      cases hstep
      exact htracks.notify rfl (fun _ => by simp) fun _ h => by cases h
    | handle imports =>
      simp only at hstep
      split at hstep
      next message rest hclient =>
        cases hstep
        cases message with
        | joinResponseOk version =>
          exact htracks.onJoinOk library hclient (hcover version (by rw [hclient]; rfl))
        | ack id status => exact htracks.onAck hclient hlive
        | docUpdate ops => exact htracks.applyRemote imports hclient
        | rejoinSuggested => exact (htracks.toBooks.pop hclient).sendJoin
      · cases hstep
    | lose =>
      cases hstep
      cases hlive

omit [DecidableEq Op] in
theorem Room.Tracks.synced {room : Room Op} (htracks : room.Tracks) (hrest : AtRest room) :
    room.doc ⊆ room.server := by
  have hidle : ¬ room.Resyncing := by
    rintro (⟨id, status, hack, -⟩ | hjoin | ⟨version, hversion⟩)
    · rw [hrest.toClient] at hack
      cases hack
    · rw [hrest.toServer] at hjoin
      cases hjoin
    · rw [hrest.toClient] at hversion
      cases hversion
  intro op hop
  cases htracks.covered.resolve_left hidle op hop with
  | server hop => exact hop
  | queued hop =>
    obtain ⟨update, hupdate, -⟩ := hop
    rw [hrest.localUpdates] at hupdate
    cases hupdate
  | sent id updates hsent =>
    rw [hrest.toServer] at hsent
    cases hsent
  | timedOut id updates hack =>
    rw [hrest.toClient] at hack
    cases hack

/-- In every run in which a join answer that comes after the last rejoin covers the document,
the session is synced whenever it is at rest. -/
theorem quiet_session_synced {doc server : Finset Op} {room : Room Op}
    {actions : List (Action Op)}
    (hguarded : Trace.Guarded (step library) AnswersCover (Room.connect doc server) actions)
    (hrun : Trace.run (step library) (Room.connect doc server) actions = some room)
    (hrest : AtRest room) : room.doc ⊆ room.server := by
  have htracks : room.alive = true → room.Tracks :=
    Trace.guarded_invariant (fun _ _ _ h hguard hstep => step_tracks h hguard hstep)
      (fun _ => .connect doc server) hguarded hrun
  exact (htracks hrest.alive).synced hrest

/-- A library whose encodings take one byte each. -/
def shortExport : Export Nat where
  updates doc version := ⟨doc \ version, 1, Nat.one_pos⟩
  ops_updates _ _ := rfl

/-- A session that is rejected once and commits before its rejoin is answered. -/
def rejectedOnce : List (Action Nat) :=
  [.commit ⟨{2}, 1, Nat.one_pos⟩, .answer .ok, .handle true, .answer .invalidUpdate, .handle true,
    .takeLocal, .answer .ok, .answer .ok, .handle true, .handle true, .answer .ok, .handle true]

def rejectedOnceEnd : Room Nat where
  doc := {1} ∪ {2}
  joined := true
  pending := update (update (update (update (update
    (update (fun _ => none) 0 (some [⟨{1, 2}, 1, Nat.one_pos⟩])) 0 none)
    1 (some [⟨{2}, 1, Nat.one_pos⟩])) 2 (some [⟨{1, 2}, 1, Nat.one_pos⟩])) 1 none) 2 none
  nextBatch := 3
  invalidRejoins := 1
  server := {1, 2}

theorem quiet_session_synced_rejected_once :
    AtRest rejectedOnceEnd ∧ rejectedOnceEnd.doc ⊆ rejectedOnceEnd.server := by
  have hrest : AtRest rejectedOnceEnd := by
    refine ⟨rfl, rfl, rfl, fun id => ?_, rfl, rfl, rfl⟩
    simp only [rejectedOnceEnd, Function.update_apply]
    split_ifs <;> rfl
  exact ⟨hrest, @quiet_session_synced Nat _ shortExport {1} ∅ rejectedOnceEnd rejectedOnce
    (by decide +kernel) rfl hrest⟩

/-- A session whose first batch and both resubmissions are rejected. -/
def rejectedThrice : List (Action Nat) :=
  [.answer .ok, .handle true, .answer .invalidUpdate, .handle true,
    .answer .ok, .handle true, .answer .invalidUpdate, .handle true,
    .answer .ok, .handle true, .answer .invalidUpdate, .handle true,
    .answer .ok, .handle true]

def rejectedThriceEnd : Room Nat where
  doc := {1}
  joined := true
  pending := update (update (update (update (update
    (update (fun _ => none) 0 (some [⟨{1}, 1, Nat.one_pos⟩])) 0 none)
    1 (some [⟨{1}, 1, Nat.one_pos⟩])) 1 none) 2 (some [⟨{1}, 1, Nat.one_pos⟩])) 2 none
  nextBatch := 3
  invalidRejoins := 3
  server := ∅

theorem rejectedThriceEnd_atRest : AtRest rejectedThriceEnd := by
  refine ⟨rfl, rfl, rfl, fun id => ?_, rfl, rfl, rfl⟩
  simp only [rejectedThriceEnd, update_apply]
  split_ifs <;> rfl

/-- The answer to the last rejoin brings nothing out, and the session stays alive. -/
theorem last_rejoin_not_resubmitted :
    ¬ ∀ (library : Export Nat) (doc server : Finset Nat) (actions : List (Action Nat))
      (room : Room Nat), Trace.run (step library) (Room.connect doc server) actions = some room →
        AtRest room → room.doc ⊆ room.server := by
  intro hall
  have hsynced := hall shortExport {1} ∅ rejectedThrice rejectedThriceEnd rfl rejectedThriceEnd_atRest
  exact absurd hsynced (by decide)

end Runs

end Keel.RoomSync
