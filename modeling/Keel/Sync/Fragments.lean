import Keel.Foundation.Reassembly
import Keel.Sync.RoomInbound

/-! # Updates in fragments

A large update leaves as a header and its fragments under a batch id. The receiver keeps a
slot for each fragment and hands the bytes over when the last slot is filled. What happens
to a batch depends on the frames of its own id alone.
-/

namespace Keel

open List

namespace RoomInbound

open RoomSync (FRAGMENT_BYTES)
open Reassembly

variable {BatchId Op : Type}

section Sending

/-- The header of `send_fragmented`. -/
def fragmentHeader (batchId : BatchId) (update : Bytes) : Message BatchId Op :=
  .docUpdateFragmentHeader .loro batchId ((update.length + FRAGMENT_BYTES - 1) / FRAGMENT_BYTES)
    update.length

def fragmentFrames (batchId : BatchId) (update : Bytes) : List (Message BatchId Op) :=
  (chunks FRAGMENT_BYTES update).zipIdx.map fun (chunk, index) =>
    .docUpdateFragment batchId index chunk

/-- The frames of `send_fragmented`, in order. -/
def sendFragmented (batchId : BatchId) (update : Bytes) : List (Message BatchId Op) :=
  fragmentHeader batchId update :: fragmentFrames batchId update

end Sending

section Receiving

variable [DecidableEq BatchId] [DecidableEq Op]

/-- The frames of one batch that an action handles. -/
def frameOf (batchId : BatchId) : Action BatchId Op → Option (Message BatchId Op)
  | .handle (.docUpdateFragmentHeader crdt id count size) =>
    if id = batchId then some (.docUpdateFragmentHeader crdt id count size) else none
  | .handle (.docUpdateFragment id index fragment) =>
    if id = batchId then some (.docUpdateFragment id index fragment) else none
  | _ => none

/-- What `apply_remote` was given of a batch. -/
def Session.handedOf (session : Session BatchId Op) (batchId : BatchId) : List (CrdtType × Bytes) :=
  (session.handed.filter fun entry => entry.1 = batchId).map Prod.snd

variable {library : Library Op} {session next : Session BatchId Op}

omit [DecidableEq BatchId] in
theorem applyRemote_table (crdt : CrdtType) (updates : List Bytes) :
    (session.applyRemote library crdt updates).fragments = session.fragments ∧
      (session.applyRemote library crdt updates).handed = session.handed := by
  have himport : ∀ (state : Session BatchId Op × Bool) (update : Bytes),
      (Session.importUpdate library state update).1.fragments = state.1.fragments ∧
        (Session.importUpdate library state update).1.handed = state.1.handed := by
    intro state update
    unfold Session.importUpdate
    split
    · exact ⟨rfl, rfl⟩
    · dsimp only
      split
      · exact ⟨rfl, rfl⟩
      · split <;> exact ⟨rfl, rfl⟩
  have hfold : ∀ (updates : List Bytes) (state : Session BatchId Op × Bool),
      (updates.foldl (Session.importUpdate library) state).1.fragments = state.1.fragments ∧
        (updates.foldl (Session.importUpdate library) state).1.handed = state.1.handed := by
    intro updates
    induction updates with
    | nil => exact fun _ => ⟨rfl, rfl⟩
    | cons update rest ih =>
      intro state
      have hrest := ih (Session.importUpdate library state update)
      exact ⟨hrest.1.trans (himport state update).1, hrest.2.trans (himport state update).2⟩
  cases crdt with
  | loro =>
    unfold Session.applyRemote
    dsimp only
    split <;> exact hfold updates (session, false)
  | loroEphemeralStore | other => exact ⟨rfl, rfl⟩

/-- A batch is as it was: its entry in the table, and what was handed over of it. -/
structure Apart (batchId : BatchId) (session next : Session BatchId Op) : Prop where
  fragments : next.fragments batchId = session.fragments batchId
  handed : next.handedOf batchId = session.handedOf batchId

omit [DecidableEq Op] in
theorem apart_of_table {batchId : BatchId} (hfragments : next.fragments = session.fragments)
    (hhanded : next.handed = session.handed) : Apart batchId session next :=
  ⟨by rw [hfragments], by rw [Session.handedOf, hhanded, Session.handedOf]⟩

theorem apart_onFragment {batchId other : BatchId} {index : Nat} {fragment : Bytes}
    (hother : batchId ≠ other) :
    Apart batchId session (session.onFragment library other index fragment) := by
  cases hcompletes : session.completes other index fragment with
  | none =>
    obtain ⟨buffer, hbuffer⟩ := @Session.onFragment_of_none _ _ _ _ library _ _ _ _ hcompletes
    rw [hbuffer]
    exact ⟨Function.update_of_ne hother _ _, rfl⟩
  | some batch =>
    rw [Session.onFragment_of_some hcompletes]
    refine ⟨?_, ?_⟩
    · rw [(applyRemote_table _ _).1]
      exact Function.update_of_ne hother _ _
    · rw [Session.handedOf, (applyRemote_table _ _).2, filter_append]
      simp [Session.handedOf, hother.symm]

theorem apart_of_step {batchId : BatchId} {action : Action BatchId Op}
    (hstep : step library session action = some next) (hframe : frameOf batchId action = none) :
    Apart batchId session next := by
  unfold step at hstep
  split at hstep
  · cases hstep
  · cases action with
    | commit ops => cases hstep; exact ⟨rfl, rfl⟩
    | probe =>
      simp only at hstep
      split at hstep
      · cases hstep; exact ⟨rfl, rfl⟩
      · cases hstep
    | handle message =>
      cases hstep
      cases message with
      | joinResponseOk crdt version =>
        cases crdt with
        | loro =>
          simp only [Session.handleFrame, Session.onJoinOk]
          split <;> exact ⟨rfl, rfl⟩
        | loroEphemeralStore | other => exact ⟨rfl, rfl⟩
      | joinError crdt versionUnknown =>
        simp only [Session.handleFrame]
        split
        · split <;> exact ⟨rfl, rfl⟩
        · exact ⟨rfl, rfl⟩
      | docUpdate crdt updates =>
        exact apart_of_table (applyRemote_table crdt updates).1 (applyRemote_table crdt updates).2
      | docUpdateFragmentHeader crdt other fragmentCount totalSizeBytes =>
        have hother : batchId ≠ other := by
          rintro rfl
          simp [frameOf] at hframe
        simp only [Session.handleFrame]
        split
        · exact ⟨rfl, rfl⟩
        · exact ⟨Function.update_of_ne hother _ _, rfl⟩
      | docUpdateFragment other index fragment =>
        refine apart_onFragment ?_
        rintro rfl
        simp [frameOf] at hframe
      | ack crdt status =>
        cases status with
        | invalidUpdate | permissionDenied =>
          simp only [Session.handleFrame, Session.onAck]
          split
          · split <;> exact ⟨rfl, rfl⟩
          · exact ⟨rfl, rfl⟩
        | ok | fragmentTimeout | payloadTooLarge | other => exact ⟨rfl, rfl⟩
      | roomError evicted =>
        simp only [Session.handleFrame]
        split <;> exact ⟨rfl, rfl⟩

end Receiving

section Batches

variable [DecidableEq BatchId] [DecidableEq Op]
variable {library : Library Op} {session next final : Session BatchId Op}
variable {batchId : BatchId} {update : Bytes} {slots : List (Option Bytes)}

variable {message : Message BatchId Op} {trace : List (Action BatchId Op)}

omit [DecidableEq BatchId] [DecidableEq Op] in
theorem mem_fragmentFrames :
    message ∈ fragmentFrames batchId update ↔ ∃ index chunk,
      (chunks FRAGMENT_BYTES update)[index]? = some chunk ∧
        message = .docUpdateFragment batchId index chunk := by
  simp only [fragmentFrames, mem_map, Prod.exists, mk_mem_zipIdx_iff_getElem?]
  constructor
  · rintro ⟨chunk, index, hchunk, rfl⟩
    exact ⟨index, chunk, hchunk, rfl⟩
  · rintro ⟨index, chunk, hchunk, rfl⟩
    exact ⟨chunk, index, hchunk, rfl⟩

/-- A batch on its way: its slots hold its pieces, and one is missing. -/
structure Assembling (batchId : BatchId) (update : Bytes) (session : Session BatchId Op)
    (slots : List (Option Bytes)) : Prop where
  buffer : ∃ totalSize, session.fragments batchId = some ⟨.loro, slots, filled slots, totalSize⟩
  agrees : Agrees slots (chunks FRAGMENT_BYTES update)
  missing : filled slots < slots.length

omit [DecidableEq Op] in
theorem Assembling.congr (hassembling : Assembling batchId update session slots)
    (hapart : Apart batchId session next) : Assembling batchId update next slots :=
  ⟨hapart.fragments ▸ hassembling.buffer, hassembling.agrees, hassembling.missing⟩

/-- A fragment fills a slot; with the last one the batch is handed over and forgotten. -/
theorem Assembling.onFragment (hassembling : Assembling batchId update session slots) {index : Nat}
    {chunk : Bytes} (hchunk : (chunks FRAGMENT_BYTES update)[index]? = some chunk) :
    (Assembling batchId update (session.onFragment library batchId index chunk)
        (slots.set index (some chunk)) ∧
      (session.onFragment library batchId index chunk).handedOf batchId =
        session.handedOf batchId) ∨
    ((session.onFragment library batchId index chunk).fragments batchId = none ∧
      (session.onFragment library batchId index chunk).handedOf batchId =
        session.handedOf batchId ++ [(.loro, update)]) := by
  obtain ⟨⟨totalSize, hbuffer⟩, hagrees, hmissing⟩ := hassembling
  have hlt : index < slots.length := by
    rw [hagrees.length]
    exact (List.getElem?_eq_some_iff.1 hchunk).1
  obtain ⟨slot, hslot⟩ : ∃ slot, slots[index]? = some slot := ⟨_, List.getElem?_eq_getElem hlt⟩
  have hset : Agrees (slots.set index (some chunk)) (chunks FRAGMENT_BYTES update) :=
    hagrees.set hchunk
  have hfilled := @filled_set _ slots index chunk slot hslot
  by_cases hmore : filled (slots.set index (some chunk)) < slots.length
  · left
    have hstep : session.onFragment library batchId index chunk = { session with
        fragments := Function.update session.fragments batchId (some
          ⟨.loro, slots.set index (some chunk), filled (slots.set index (some chunk)),
            totalSize⟩) } := by
      simp only [Session.onFragment, hbuffer, hslot, List.length_set, ← hfilled, if_pos hmore]
    rw [hstep]
    exact ⟨⟨⟨totalSize, Function.update_self _ _ _⟩, hset, by rwa [List.length_set]⟩, rfl⟩
  · right
    have hall : filled (slots.set index (some chunk)) = (slots.set index (some chunk)).length := by
      have hle := @filled_le_length _ (slots.set index (some chunk))
      rw [List.length_set] at hle ⊢
      omega
    have htotal : ((slots.set index (some chunk)).filterMap id).flatten = update := by
      rw [hset.filterMap_eq hall, flatten_chunks (by decide)]
    have hcompletes : session.completes batchId index chunk = some (.loro, update) := by
      simp only [Session.completes, hbuffer, hslot, ← hfilled, if_neg hmore, htotal]
    rw [Session.onFragment_of_some hcompletes]
    refine ⟨?_, ?_⟩
    · rw [(applyRemote_table _ _).1]
      exact Function.update_self _ _ _
    · rw [Session.handedOf, (applyRemote_table _ _).2, List.filter_append]
      simp [Session.handedOf]

omit [DecidableEq Op] in
theorem eq_handle_of_frame {action : Action BatchId Op}
    (hframe : frameOf batchId action = some message) : action = .handle message := by
  unfold frameOf at hframe
  split at hframe
  · split at hframe <;> cases hframe; rfl
  · split at hframe <;> cases hframe; rfl
  · cases hframe

theorem step_of_frame {action : Action BatchId Op} (hstep : step library session action = some next)
    (hframe : frameOf batchId action = some message) :
    next = session.handleFrame library message := by
  rw [eq_handle_of_frame hframe] at hstep
  unfold step at hstep
  split at hstep
  · cases hstep
  · cases hstep; rfl

/-- A batch that the table does not know stays unknown whatever fragments of it come. -/
theorem forgotten_run (hrun : Trace.run (step library) session trace = some final)
    (hnone : session.fragments batchId = none)
    (hframes : ∀ message ∈ trace.filterMap (frameOf batchId), message ∈ fragmentFrames batchId update)
    : final.fragments batchId = none ∧ final.handedOf batchId = session.handedOf batchId := by
  induction trace generalizing session with
  | nil =>
    obtain rfl : session = final := by simpa using hrun
    exact ⟨hnone, rfl⟩
  | cons action rest ih =>
    obtain ⟨next, hstep, hrest⟩ := Trace.run_cons_eq_some.1 hrun
    cases hframe : frameOf batchId action with
    | none =>
      rw [filterMap_cons_none hframe] at hframes
      have hapart := apart_of_step hstep hframe
      have hfinal := ih hrest (hapart.fragments.trans hnone) hframes
      exact ⟨hfinal.1, hfinal.2.trans hapart.handed⟩
    | some message =>
      rw [filterMap_cons_some hframe] at hframes
      obtain ⟨index, chunk, -, rfl⟩ := mem_fragmentFrames.1 (hframes _ mem_cons_self)
      obtain rfl : next = session := by
        rw [step_of_frame hstep hframe, Session.handleFrame, Session.onFragment, hnone]
      exact ih hrest hnone fun other hother => hframes other (mem_cons_of_mem _ hother)

/-- A batch on its way is handed over once, with its bytes, when its last piece has come. -/
theorem Assembling.run
    (hassembling : Assembling batchId update session slots)
    (hrun : Trace.run (step library) session trace = some final)
    (hframes : ∀ message ∈ trace.filterMap (frameOf batchId), message ∈ fragmentFrames batchId update)
    (hall : ∀ index chunk, slots[index]? = some none →
      (chunks FRAGMENT_BYTES update)[index]? = some chunk →
        .docUpdateFragment batchId index chunk ∈ trace.filterMap (frameOf batchId)) :
    final.fragments batchId = none ∧
      final.handedOf batchId = session.handedOf batchId ++ [(.loro, update)] := by
  induction trace generalizing session slots with
  | nil =>
    -- a slot is empty, and its piece is still to come
    obtain ⟨index, hindex⟩ := exists_none_of_filled_lt hassembling.missing
    have hlt : index < (chunks FRAGMENT_BYTES update).length := by
      rw [← hassembling.agrees.length]
      exact (List.getElem?_eq_some_iff.1 hindex).1
    cases hall index _ hindex (List.getElem?_eq_getElem hlt)
  | cons action rest ih =>
    obtain ⟨next, hstep, hrest⟩ := Trace.run_cons_eq_some.1 hrun
    cases hframe : frameOf batchId action with
    | none =>
      rw [List.filterMap_cons_none hframe] at hframes hall
      have hapart := apart_of_step hstep hframe
      have hfinal := ih (hassembling.congr hapart) hrest hframes hall
      exact ⟨hfinal.1, by rw [hfinal.2, hapart.handed]⟩
    | some message =>
      rw [List.filterMap_cons_some hframe] at hframes hall
      have hlater : ∀ other ∈ rest.filterMap (frameOf batchId),
          other ∈ fragmentFrames batchId update :=
        fun other hother => hframes other (List.mem_cons_of_mem _ hother)
      obtain ⟨index, chunk, hchunk, rfl⟩ := mem_fragmentFrames.1 (hframes _ List.mem_cons_self)
      have hnext : next = session.onFragment library batchId index chunk :=
        step_of_frame hstep hframe
      rcases hassembling.onFragment hchunk with ⟨hmore, hsame⟩ | ⟨hnone, hhanded⟩
      · rw [← hnext] at hmore hsame
        have hfinal := ih hmore hrest hlater fun other piece hother hpiece => by
          have hne : index ≠ other := by
            rintro rfl
            have hlt : index < slots.length := by
              have := (List.getElem?_eq_some_iff.1 hother).1
              rwa [List.length_set] at this
            rw [List.getElem?_set_self hlt] at hother
            cases hother
          rw [List.getElem?_set_ne hne] at hother
          rcases List.mem_cons.1 (hall other piece hother hpiece) with heq | hmem
          · cases heq
            exact absurd rfl hne
          · exact hmem
        exact ⟨hfinal.1, by rw [hfinal.2, hsame]⟩
      · rw [← hnext] at hnone hhanded
        have hfinal := forgotten_run hrest hnone hlater
        exact ⟨hfinal.1, hfinal.2.trans hhanded⟩

theorem assembling_of_header (hlong : FRAGMENT_BYTES < update.length)
    (hlimit : update.length ≤ MAX_REASSEMBLED_BYTES) :
    Assembling batchId update (session.handleFrame library (fragmentHeader batchId update))
      (List.replicate (chunks FRAGMENT_BYTES update).length none) := by
  have hcount := length_chunks FRAGMENT_BYTES update
  have hpositive : 0 < (chunks FRAGMENT_BYTES update).length := by
    refine length_pos_iff.2 (chunks_ne_nil (by decide) fun hempty => ?_)
    simp [hempty] at hlong
  have hfew : (chunks FRAGMENT_BYTES update).length ≤ MAX_FRAGMENT_COUNT := by
    simp only [FRAGMENT_BYTES, MAX_REASSEMBLED_BYTES, MAX_FRAGMENT_COUNT] at *
    omega
  refine ⟨⟨update.length, ?_⟩, agrees_replicate _, ?_⟩
  · simp only [fragmentHeader, Session.handleFrame, ← hcount, filled_replicate]
    rw [if_neg (by omega)]
    exact Function.update_self _ _ _
  · rw [filled_replicate, length_replicate]
    exact hpositive

theorem handedOf_header :
    (session.handleFrame library (fragmentHeader batchId update)).handedOf batchId =
      session.handedOf batchId := by
  simp only [fragmentHeader, Session.handleFrame]
  split <;> rfl

/-- A batch whose header comes first is handed over once, with its bytes, however its fragments
are ordered, repeated and mixed with other frames. -/
theorem batch_run {rest : List (Message BatchId Op)}
    (hlong : FRAGMENT_BYTES < update.length) (hlimit : update.length ≤ MAX_REASSEMBLED_BYTES)
    (hrun : Trace.run (step library) session trace = some final)
    (hframes : trace.filterMap (frameOf batchId) = fragmentHeader batchId update :: rest)
    (hrest : ∀ message, message ∈ rest ↔ message ∈ fragmentFrames batchId update) :
    final.fragments batchId = none ∧
      final.handedOf batchId = session.handedOf batchId ++ [(.loro, update)] := by
  induction trace generalizing session with
  | nil => cases hframes
  | cons action later ih =>
    obtain ⟨next, hstep, hlater⟩ := Trace.run_cons_eq_some.1 hrun
    cases hframe : frameOf batchId action with
    | none =>
      rw [filterMap_cons_none hframe] at hframes
      have hfinal := ih hlater hframes
      exact ⟨hfinal.1, by rw [hfinal.2, (apart_of_step hstep hframe).handed]⟩
    | some message =>
      rw [filterMap_cons_some hframe] at hframes
      obtain ⟨rfl, rfl⟩ := cons_eq_cons.1 hframes
      have hnext := step_of_frame hstep hframe
      have hassembling := @assembling_of_header _ _ _ _ library session batchId _ hlong hlimit
      rw [← hnext] at hassembling
      have hfinal := hassembling.run hlater (fun message hmessage => (hrest message).1 hmessage)
        fun index chunk _ hchunk =>
          (hrest _).2 (mem_fragmentFrames.2 ⟨index, chunk, hchunk, rfl⟩)
      refine ⟨hfinal.1, ?_⟩
      rw [hfinal.2, hnext, handedOf_header]

/-- In a run of any frames, each batch that was cut by `send_fragmented` and whose header comes
before its fragments is handed over exactly once and byte for byte; a fragment touches no batch
but its own, and none if its own is unknown. -/
theorem fragmentation_round_trip (library : Library Op) :
    (∀ (session final : Session BatchId Op) (trace : List (Action BatchId Op)) (batchId : BatchId)
        (update : Bytes) (rest : List (Message BatchId Op)),
      FRAGMENT_BYTES < update.length → update.length ≤ MAX_REASSEMBLED_BYTES →
      Trace.run (step library) session trace = some final →
      trace.filterMap (frameOf batchId) = fragmentHeader batchId update :: rest →
      (∀ message, message ∈ rest ↔ message ∈ fragmentFrames batchId update) →
      final.handedOf batchId = session.handedOf batchId ++ [(.loro, update)] ∧
        final.fragments batchId = none) ∧
    (∀ (batchId : BatchId) (update : Bytes) (index : Nat) (fragment : Bytes),
      (.docUpdateFragment batchId index fragment : Message BatchId Op) ∈
        sendFragmented batchId update → fragment.length ≤ FRAGMENT_BYTES) ∧
    ∀ (session : Session BatchId Op) (batchId : BatchId) (index : Nat) (fragment : Bytes),
      (∀ other, other ≠ batchId →
        Apart other session (session.onFragment library batchId index fragment)) ∧
      (session.fragments batchId = none →
        session.onFragment library batchId index fragment = session) := by
  refine ⟨fun session final trace batchId update rest hlong hlimit hrun hframes hrest => ?_,
    fun batchId update index fragment hmem => ?_, fun session batchId index fragment =>
    ⟨fun other hother => apart_onFragment hother, fun hnone => ?_⟩⟩
  · exact (batch_run hlong hlimit hrun hframes hrest).symm
  · rcases mem_cons.1 hmem with hheader | hfragment
    · cases hheader
    · obtain ⟨_, chunk, hchunk, heq⟩ := mem_fragmentFrames.1 hfragment
      cases heq
      exact length_le_of_mem_chunks (mem_of_getElem? hchunk)
  · rw [Session.onFragment, hnone]

section Delivery

omit [DecidableEq BatchId] in
theorem alive_applyRemote (crdt : CrdtType) (updates : List Bytes) :
    (session.applyRemote library crdt updates).alive = session.alive := by
  have himport : ∀ (state : Session BatchId Op × Bool) (update : Bytes),
      (Session.importUpdate library state update).1.alive = state.1.alive := by
    intro state update
    unfold Session.importUpdate
    split
    · rfl
    · dsimp only
      split
      · rfl
      · split <;> rfl
  have hfold : ∀ (updates : List Bytes) (state : Session BatchId Op × Bool),
      (updates.foldl (Session.importUpdate library) state).1.alive = state.1.alive := by
    intro updates
    induction updates with
    | nil => exact fun _ => rfl
    | cons update rest ih =>
      exact fun state => (ih _).trans (himport state update)
  cases crdt with
  | loro =>
    unfold Session.applyRemote
    dsimp only
    split <;> exact hfold updates (session, false)
  | loroEphemeralStore | other => rfl

theorem alive_frame {message : Message BatchId Op}
    (hmessage : message ∈ sendFragmented batchId update) :
    (session.handleFrame library message).alive = session.alive := by
  rcases mem_cons.1 hmessage with rfl | hfragment
  · simp only [fragmentHeader, Session.handleFrame]
    split <;> rfl
  · obtain ⟨index, chunk, -, rfl⟩ := mem_fragmentFrames.1 hfragment
    cases hcompletes : session.completes batchId index chunk with
    | none =>
      obtain ⟨buffer, hbuffer⟩ := @Session.onFragment_of_none _ _ _ _ library _ _ _ _ hcompletes
      rw [Session.handleFrame, hbuffer]
    | some batch =>
      rw [Session.handleFrame, Session.onFragment_of_some hcompletes, alive_applyRemote]
      rfl

theorem exists_run (messages : List (Message BatchId Op))
    (hmessages : ∀ message ∈ messages, message ∈ sendFragmented batchId update)
    (halive : session.alive = true) :
    ∃ final, Trace.run (step library) session (messages.map .handle) = some final := by
  induction messages generalizing session with
  | nil => exact ⟨session, rfl⟩
  | cons message rest ih =>
    obtain ⟨final, hfinal⟩ := @ih (session.handleFrame library message)
      (fun other hother => hmessages other (mem_cons_of_mem _ hother))
      ((alive_frame (hmessages message mem_cons_self)).trans halive)
    refine ⟨final, Trace.run_cons_eq_some.2 ⟨_, ?_, hfinal⟩⟩
    rw [step, if_neg (by simp [halive])]

omit [DecidableEq Op] in
theorem frames_sendFragmented :
    ((sendFragmented batchId update : List (Message BatchId Op)).map .handle).filterMap
      (frameOf batchId) = sendFragmented batchId update := by
  rw [filterMap_map]
  refine (filterMap_congr fun message hmessage => ?_).trans filterMap_some
  rcases mem_cons.1 hmessage with rfl | hfragment
  · exact if_pos rfl
  · obtain ⟨index, chunk, -, rfl⟩ := mem_fragmentFrames.1 hfragment
    exact if_pos rfl

end Delivery

end Batches

/-- A library that has nothing to import. -/
def emptyLibrary : Library Nat := ⟨fun _ => ∅, fun doc _ => (doc, .ok ∅), fun _ _ => subset_rfl,
  fun doc _ hmissing => absurd (Finset.empty_subset doc) hmissing⟩

theorem fragmentation_round_trip_inOrder : ∃ final : Session Nat Nat,
    Trace.run (step emptyLibrary) (Session.connect ∅)
      ((sendFragmented 7 (List.replicate 200001 0)).map .handle) = some final ∧
    final.handedOf 7 = [(.loro, List.replicate 200001 0)] := by
  obtain ⟨final, hrun⟩ := @exists_run Nat Nat _ _ emptyLibrary (Session.connect ∅) 7
    (List.replicate 200001 0) _ (fun _ hmessage => hmessage) rfl
  exact ⟨final, hrun, ((fragmentation_round_trip emptyLibrary).1 _ final _ 7 _ _
    (by rw [length_replicate]; decide) (by rw [length_replicate]; decide) hrun frames_sendFragmented
    fun _ => Iff.rfl).1⟩

end RoomInbound

end Keel
