import Keel.Sync.ChatClient

/-! # Draining a queue that met the quota

A push that the server refuses for its quota stays queued, and the client retries with the
head of its queue on a clock. An acknowledgement arms the clock again until the queue is
empty. A permanent rejection retires its batch and does not: if it answers the last push in
flight, the batches behind it wait for a nudge that may never come.
-/

namespace Keel.Chat2

open List Option

/-- The permanent verdicts on a batch. -/
inductive Rejection where
  | tooLarge
  | empty
  | badPush

def Rejection.code : Rejection → String
  | .tooLarge => "too_large"
  | .empty => "empty"
  | .badPush => "bad_push"

/-- What the server answers to a push. -/
inductive PushAnswer where
  | ack (seq : Nat)
  | quota
  | rejected (rejection : Rejection)

def PushAnswer.frame (batchId : String) : PushAnswer → ServerFrame
  | .ack seq => .ack batchId seq
  | .quota => .error "quota" batchId
  | .rejected rejection => .error rejection.code batchId

def ChatClient.Minted {Op : Type} (client : ChatClient Op) : Prop :=
  ∀ push ∈ client.pending, push.batchId ≠ ""

section Client

variable {Op : Type} {client : ChatClient Op}

theorem ChatClient.Minted.enqueueUpdate (hminted : client.Minted) {push : PendingPush}
    (hid : push.batchId ≠ "") : (client.enqueueUpdate push).Minted := by
  unfold ChatClient.enqueueUpdate
  split
  · exact hminted
  · intro queued hqueued
    rcases mem_append.mp hqueued with hold | hnew
    · exact hminted queued hold
    · rw [mem_singleton.mp hnew]
      exact hid

theorem ChatClient.Minted.handleFrame (crdt : Crdt Op) (hminted : client.Minted)
    (frame : ServerFrame) : (client.handleFrame crdt frame).Minted := by
  cases frame with
  | ack batchId seq => exact fun push hpush => hminted push (mem_filter.mp hpush).1
  | error code batchId =>
    unfold ChatClient.handleFrame
    dsimp only
    split
    · exact fun push hpush => hminted push (mem_filter.mp hpush).1
    · split <;> exact hminted
  | row seq payload | state header frontier | rowsDone headSeq | other => exact hminted

end Client

/-- The client on one connection, once its backfill is complete. -/
structure DrainState (Op : Type) where
  client : ChatClient Op
  /-- A nudge is queued; there is room for one. -/
  nudged : Bool
  /-- The batches pushed and not answered yet, once for each push. -/
  inFlight : List String
  minted : client.Minted
  sent : ∀ batchId ∈ inFlight, batchId ≠ ""

inductive DrainAction where
  | enqueue (push : PendingPush) (minted : push.batchId ≠ "")
  | nudge
  | retryTick
  | answer (batchId : String) (answer : PushAnswer)
  /-- A frame that answers no push. -/
  | receive (frame : ServerFrame)

/-- The frame acknowledges or rejects a push. -/
def ServerFrame.isAnswer : ServerFrame → Bool
  | .ack _ _ | .error _ _ => true
  | .state _ _ | .row _ _ | .rowsDone _ | .other => false

namespace DrainState

variable {Op : Type}

/-- The backfill is complete and everything pending was pushed. -/
def start (client : ChatClient Op) (hminted : client.Minted) (nudged : Bool) : DrainState Op where
  client := client
  nudged := nudged
  inFlight := client.pending.map PendingPush.batchId
  minted := hminted
  sent := by
    intro batchId hsent
    obtain ⟨push, hpush, rfl⟩ := mem_map.mp hsent
    exact hminted push hpush

def pushing (state : DrainState Op) (batches : List PendingPush)
    (hqueued : ∀ push ∈ batches, push ∈ state.client.pending) : DrainState Op where
  client := state.client
  nudged := state.nudged
  inFlight := state.inFlight ++ batches.map PendingPush.batchId
  minted := state.minted
  sent := by
    intro batchId hsent
    rcases mem_append.mp hsent with hold | hnew
    · exact state.sent batchId hold
    · obtain ⟨push, hpush, rfl⟩ := mem_map.mp hnew
      exact state.minted push (hqueued push hpush)

/-- The client handles a frame, which may answer a push. -/
def handling (crdt : Crdt Op) (state : DrainState Op) (frame : ServerFrame)
    (answered : Option String) : DrainState Op where
  client := state.client.handleFrame crdt frame
  nudged := state.nudged
  inFlight := answered.elim state.inFlight state.inFlight.erase
  minted := state.minted.handleFrame crdt frame
  sent := by
    intro batchId hsent
    cases answered with
    | none => exact state.sent batchId hsent
    | some answered => exact state.sent batchId (mem_of_mem_erase hsent)

def step (crdt : Crdt Op) (state : DrainState Op) : DrainAction → Option (DrainState Op)
  | .enqueue push hid =>
    some
      { state with
        client := state.client.enqueueUpdate push
        nudged := state.nudged || push.bytes.length ≤ maxPushBytes
        minted := state.minted.enqueueUpdate hid }
  | .nudge =>
    if state.nudged then
      some { state.pushing state.client.pending (fun _ hpush => hpush) with nudged := false }
    else none
  | .retryTick =>
    if state.client.retryArmed then
      let pushed := state.pushing state.client.pending.head?.toList fun _ hpush =>
        mem_of_mem_head? (mem_toList.mp hpush)
      some
        { pushed with
          client := { state.client with retryArmed := false }
          minted := state.minted }
    else none
  | .answer batchId answer =>
    if batchId ∈ state.inFlight then
      some (state.handling crdt (answer.frame batchId) (some batchId))
    else none
  | .receive frame =>
    if frame.isAnswer then none else some (state.handling crdt frame none)

/-- Batches wait on the quota, and neither the clock nor an answer will move them. -/
def Stranded (state : DrainState Op) : Prop :=
  state.client.quotaBlocked = true ∧ state.client.pending ≠ [] ∧
    state.client.retryArmed = false ∧ state.inFlight = []

/-- The quota flag is set, no retry is due, and nothing but the given push is in flight. -/
def Idle (state : DrainState Op) (last : List String) : Prop :=
  state.client.quotaBlocked = true ∧ state.client.retryArmed = false ∧ state.inFlight = last

/-- The steps that leave a queue moving: no permanent rejection answers the last push while
other batches wait on the quota, and no batch enters while the flag stands alone. -/
def Drains (state : DrainState Op) : DrainAction → Prop
  | .answer batchId (.rejected _) =>
    ¬ (state.Idle [batchId] ∧ ∃ push ∈ state.client.pending, push.batchId ≠ batchId)
  | .enqueue push _ => ¬ (state.Idle [] ∧ push.bytes.length ≤ maxPushBytes)
  | .answer _ _ | .nudge | .retryTick | .receive _ => True

section Steps

variable {crdt : Crdt Op} {state : DrainState Op}

theorem stranded_iff : state.Stranded ↔ state.Idle [] ∧ state.client.pending ≠ [] := by
  constructor
  · intro ⟨hblocked, hpending, harmed, hsent⟩
    exact ⟨⟨hblocked, harmed, hsent⟩, hpending⟩
  · intro ⟨⟨hblocked, harmed, hsent⟩, hpending⟩
    exact ⟨hblocked, hpending, harmed, hsent⟩

variable {batchId : String} {next : DrainState Op}

theorem stranded_enqueue (hmoving : ¬ state.Stranded) {push : PendingPush} (hid : push.batchId ≠ "")
    (hstep : state.step crdt (.enqueue push hid) = some next) :
    next.Stranded ↔ state.Idle [] ∧ push.bytes.length ≤ maxPushBytes := by
  cases hstep
  by_cases hlarge : push.bytes.length > maxPushBytes
  · have hsame : state.client.enqueueUpdate push = state.client := if_pos hlarge
    have hnot : ¬ push.bytes.length ≤ maxPushBytes := Nat.not_le.mpr hlarge
    simp only [Stranded, hsame, hnot, and_false, iff_false]
    exact hmoving
  · have hfits : push.bytes.length ≤ maxPushBytes := Nat.not_lt.mp hlarge
    have hqueued : state.client.enqueueUpdate push =
        { state.client with pending := state.client.pending ++ [push] } := if_neg hlarge
    simp [Stranded, Idle, hqueued, hfits]

/-- Everything pending goes out, so an answer is to come if there is anything. -/
theorem not_stranded_nudge (hstep : state.step crdt .nudge = some next) : ¬ next.Stranded := by
  simp only [step] at hstep
  split at hstep
  · cases hstep
    intro ⟨_, hpending, _, hsent⟩
    obtain ⟨-, hnone⟩ := append_eq_nil_iff.mp hsent
    exact hpending (map_eq_nil_iff.mp hnone)
  · cases hstep

theorem not_stranded_retryTick
    (hstep : state.step crdt .retryTick = some next) : ¬ next.Stranded := by
  simp only [step] at hstep
  split at hstep
  · cases hstep
    intro ⟨_, hpending, _, hsent⟩
    obtain ⟨-, hnone⟩ := append_eq_nil_iff.mp hsent
    have hhead := map_eq_nil_iff.mp hnone
    rw [toList_eq_nil_iff, head?_eq_none_iff] at hhead
    exact hpending hhead
  · cases hstep

theorem not_stranded_ack (batchId : String) (seq : Nat) :
    ¬ (state.handling crdt (.ack batchId seq) (some batchId)).Stranded := by
  intro ⟨hblocked, hpending, harmed, _⟩
  simp only [handling, ChatClient.handleFrame, Bool.and_eq_true, Bool.not_eq_true'] at hblocked
  simp only [handling, ChatClient.handleFrame, hblocked.1, hblocked.2, Bool.not_false,
    Bool.and_self, Bool.or_true, Bool.true_eq_false] at harmed

theorem not_stranded_quota (batchId : String) :
    ¬ (state.handling crdt (.error "quota" batchId) (some batchId)).Stranded := by
  intro ⟨_, _, harmed, _⟩
  simp [handling, ChatClient.handleFrame] at harmed

theorem handleFrame_rejected (client : ChatClient Op) (rejection : Rejection)
    (hid : batchId ≠ "") : client.handleFrame crdt (.error rejection.code batchId) =
      { client with pending := client.pending.filter fun push => push.batchId ≠ batchId } := by
  unfold ChatClient.handleFrame
  dsimp only
  refine if_pos ⟨?_, hid⟩
  cases rejection with
  | tooLarge => exact .inl rfl
  | empty => exact .inr (.inl rfl)
  | badPush => exact .inr (.inr rfl)

theorem stranded_rejected (hsent : batchId ∈ state.inFlight) (rejection : Rejection) :
    (state.handling crdt (.error rejection.code batchId) (some batchId)).Stranded ↔
      state.Idle [batchId] ∧ ∃ push ∈ state.client.pending, push.batchId ≠ batchId := by
  have hne : state.inFlight ≠ [] := ne_nil_of_mem hsent
  have hlast : state.inFlight.erase batchId = [] ↔ state.inFlight = [batchId] := by
    rw [erase_eq_nil_iff]
    exact ⟨fun hcases => hcases.resolve_left hne, .inr⟩
  have hothers : (state.client.pending.filter fun push => push.batchId ≠ batchId) ≠ [] ↔
      ∃ push ∈ state.client.pending, push.batchId ≠ batchId := by
    simp [filter_eq_nil_iff]
  rw [stranded_iff, ← hothers]
  simp only [Idle, handling, elim_some,
    handleFrame_rejected state.client rejection (state.sent batchId hsent), hlast]

theorem handleFrame_receive (client : ChatClient Op) {frame : ServerFrame}
    (hframe : frame.isAnswer = false) :
    (client.handleFrame crdt frame).pending = client.pending ∧
      (client.handleFrame crdt frame).quotaBlocked = client.quotaBlocked ∧
      (client.handleFrame crdt frame).retryArmed = client.retryArmed := by
  cases frame with
  | ack batchId seq | error code batchId => cases hframe
  | row seq payload | state header frontier | rowsDone headSeq | other => exact ⟨rfl, rfl, rfl⟩

/-- A step strands a moving queue exactly when it is one of the two that do not drain. -/
theorem stranded_step {action : DrainAction} (hmoving : ¬ state.Stranded)
    (hstep : state.step crdt action = some next) : ¬ next.Stranded ↔ state.Drains action := by
  cases action with
  | enqueue push hid => exact not_congr (stranded_enqueue hmoving hid hstep)
  | nudge => exact iff_of_true (not_stranded_nudge hstep) trivial
  | retryTick => exact iff_of_true (not_stranded_retryTick hstep) trivial
  | answer batchId answer =>
    simp only [step] at hstep
    split at hstep
    next hsent =>
      cases hstep
      cases answer with
      | ack seq => exact iff_of_true (not_stranded_ack batchId seq) trivial
      | quota => exact iff_of_true (not_stranded_quota batchId) trivial
      | rejected rejection => exact not_congr (stranded_rejected hsent rejection)
    · cases hstep
  | receive frame =>
    simp only [step] at hstep
    split at hstep
    · cases hstep
    next hframe =>
      cases hstep
      obtain ⟨hpending, hblocked, harmed⟩ :=
        @handleFrame_receive Op crdt state.client frame (Bool.not_eq_true _ ▸ hframe)
      refine iff_of_true ?_ trivial
      intro ⟨hblocked', hpending', harmed', hsent⟩
      exact hmoving ⟨hblocked ▸ hblocked', hpending ▸ hpending', harmed ▸ harmed', hsent⟩

theorem drains_of_disabled {action : DrainAction} (hmoving : state.step crdt action = none) :
    state.Drains action := by
  cases action with
  | enqueue push hid => cases hmoving
  | nudge | retryTick => trivial
  | answer batchId answer =>
    cases answer with
    | ack seq | quota => trivial
    | rejected rejection =>
      intro ⟨⟨_, _, hlast⟩, _⟩
      simp [step, hlast] at hmoving
  | receive frame => trivial

theorem not_stranded_start (client : ChatClient Op) (hminted : client.Minted) (nudged : Bool) :
    ¬ (start client hminted nudged).Stranded := by
  intro ⟨_, hpending, _, hsent⟩
  exact hpending (map_eq_nil_iff.mp hsent)

end Steps

end DrainState

/-- On every run of one connection, the queue is never stranded exactly when every step drains. -/
theorem quota_drain {Op : Type} (crdt : Crdt Op) (client : ChatClient Op) (hminted : client.Minted)
    (nudged : Bool) (trace : List DrainAction) :
    Trace.Always (DrainState.step crdt) (fun state => ¬ state.Stranded)
        (.start client hminted nudged) trace ↔
      Trace.Guarded (DrainState.step crdt) DrainState.Drains (.start client hminted nudged) trace :=
  Trace.always_iff_guarded (fun _ _ _ hmoving hstep => DrainState.stranded_step hmoving hstep)
    (fun _ _ hdisabled => DrainState.drains_of_disabled hdisabled)
    (DrainState.not_stranded_start client hminted nudged)

def rawCrdt : Crdt UInt8 where
  parse := some
  version := some

/-- A client with two small batches to push. -/
def twoBatches : ChatClient UInt8 where
  sink := { doc := some [] }
  cursor := 0
  pending := [⟨"first", [1]⟩, ⟨"second", [2]⟩]

theorem twoBatches_minted : twoBatches.Minted := by
  unfold ChatClient.Minted
  decide

/-- Both pushes meet the quota, and the retry of the first is acknowledged. -/
theorem quota_drain_granted :
    Trace.Always (DrainState.step rawCrdt) (fun state => ¬ state.Stranded)
        (.start twoBatches twoBatches_minted false)
        [.answer "first" .quota, .answer "second" .quota, .retryTick, .answer "first" (.ack 1)] ↔
      Trace.Guarded (DrainState.step rawCrdt) DrainState.Drains
        (.start twoBatches twoBatches_minted false)
        [.answer "first" .quota, .answer "second" .quota, .retryTick, .answer "first" (.ack 1)] :=
  quota_drain rawCrdt twoBatches twoBatches_minted false _

/-- The retry of the first is rejected for good, and nothing will push the second. -/
theorem quota_drain_stranded : ∃ last,
    Trace.run (DrainState.step rawCrdt) (.start twoBatches twoBatches_minted false)
      [.answer "first" .quota, .answer "second" .quota, .retryTick,
        .answer "first" (.rejected .tooLarge)] = some last ∧
      last.Stranded ∧ last.nudged = false ∧ last.client.pending = [⟨"second", [2]⟩] :=
  ⟨_, rfl, ⟨rfl, by decide, rfl, rfl⟩, rfl, rfl⟩

end Keel.Chat2
