import Keel.Rpc.Multiplex

/-! # The end of a connection

A task of its own (the pump) carries the frames between the socket and the two channels of
a client, and its end closes both, one after the other. The reader then fails what is
pending, once, and stops. A caller registers its request in one step and sends its frame in
another, so a request can come too late for the reader and still find the outbound channel
open.
-/

namespace Keel

open List Option Function

namespace ConnectionEnd

open Rpc

/-- The client's half of a connection and the state of its two channels. -/
structure Link where
  conn : Connection := {}
  inboundOpen : Bool := true
  outboundOpen : Bool := true
  /-- The reader has failed what was pending and is gone. -/
  stopped : Bool := false

inductive Action where
  | client (action : Rpc.Action)
  /-- The pump hands over a payload from the peer. -/
  | arrive (payload : List Char)
  /-- The pump takes a payload for the peer. -/
  | depart
  | closeInbound
  | closeOutbound
  | stop

/-- A frame that finds the channel closed: the entry is removed and the caller gets `Closed`. -/
def refuseSend (conn : Connection) (id : Nat) : Connection :=
  { conn.forget id with
    sending := update conn.sending id none
    resolved := conn.resolved ++ [(id, .error .closed)] }

/-- `pending.drain()`: calls get `Closed`, streams end as their senders go. -/
def drain (conn : Connection) : Connection :=
  { conn with
    pending := fun _ => none
    resolved := conn.resolved ++ ((List.range conn.nextId).filter fun id =>
      conn.pending id = some .call).map fun id => (id, .error .closed) }

section Step

variable (text : JsonText)

/-- A step of a caller, a consumer or the reader. -/
def clientStep (link : Link) : Rpc.Action → Option Link
  | .issue request => some { link with conn := link.conn.issue request }
  | .send id =>
    if link.outboundOpen then
      (Rpc.step text link.conn (.send id)).map fun conn => { link with conn }
    else if (link.conn.sending id).isSome then
      some { link with conn := refuseSend link.conn id }
    else none
  | .sendCancel =>
    if link.stopped then none
    else if link.outboundOpen then
      (Rpc.step text link.conn .sendCancel).map fun conn => { link with conn }
    else match link.conn.reader with
      | .cancelling _ => some { link with conn := { link.conn with reader := .idle } }
      | _ => none
  | .receive =>
    if link.stopped then none
    else (Rpc.step text link.conn .receive).map fun conn => { link with conn }
  | .route =>
    if link.stopped then none
    else (Rpc.step text link.conn .route).map fun conn => { link with conn }
  | .deliver =>
    if link.stopped then none
    else (Rpc.step text link.conn .deliver).map fun conn => { link with conn }
  | .take id => (Rpc.step text link.conn (.take id)).map fun conn => { link with conn }
  | .drop id => (Rpc.step text link.conn (.drop id)).map fun conn => { link with conn }
  | _ => none

def step (link : Link) : Action → Option Link
  | .client action => clientStep text link action
  | .arrive payload =>
    if link.inboundOpen ∧ link.conn.toClient.length < channelDepth then
      some { link with conn :=
        { link.conn with toClient := link.conn.toClient ++ [payload] } }
    else none
  | .depart =>
    if link.outboundOpen then
      match link.conn.toServer with
      | _ :: rest => some { link with conn := { link.conn with toServer := rest } }
      | [] => none
    else none
  | .closeInbound => if link.inboundOpen then some { link with inboundOpen := false } else none
  | .closeOutbound =>
    if link.outboundOpen then
      some { link with outboundOpen := false, conn := { link.conn with toServer := [] } }
    else none
  | .stop =>
    -- `inbound.recv()` is `None` only when the buffer is empty too.
    if ¬ link.stopped ∧ ¬ link.inboundOpen ∧ link.conn.toClient = [] ∧ link.conn.lines = [] ∧
        link.conn.reader = .idle then
      some { link with stopped := true, conn := drain link.conn }
    else none

end Step

section Claims

/-- The reader has stopped, both channels are closed and every request has done its send. -/
structure Ended (link : Link) : Prop where
  stopped : link.stopped = true
  inbound : link.inboundOpen = false
  outbound : link.outboundOpen = false
  sent : ∀ id, link.conn.sending id = none

/-- Nobody waits: no entry is left, every call has a result and no sender of a subscription is
held anywhere. -/
structure Settled (link : Link) : Prop where
  pending : ∀ id, link.conn.pending id = none
  calls : ∀ id request, link.conn.requests id = some request → request.kind = .call →
    ∃ outcome, (id, outcome) ∈ link.conn.resolved
  streams : ∀ id item, link.conn.reader ≠ .delivering id item

/-- A request that the reader did not live to see is not sent into an open channel. -/
def SentInTime (link : Link) (action : Action) : Prop :=
  ∀ id, action = .client (.send id) → link.stopped = true → link.outboundOpen = true →
    link.conn.pending id = none

end Claims

section Moves

variable (text : JsonText)

def reads : Rpc.Action → Bool
  | .sendCancel | .receive | .route | .deliver => true
  | _ => false

def consumes : Rpc.Action → Bool
  | .take _ | .drop _ => true
  | _ => false

/-- What each action does where it can happen. The pump touches the channels only. -/
inductive Moved (link : Link) : Action → Link → Prop where
  | issue (request : Request) :
      Moved link (.client (.issue request)) { link with conn := link.conn.issue request }
  | send {id : Nat} {conn : Connection} (hopen : link.outboundOpen = true)
      (hfired : Fired text link.conn (.send id) conn) :
      Moved link (.client (.send id)) { link with conn }
  | refuse {id : Nat} (hclosed : link.outboundOpen = false)
      (hsending : (link.conn.sending id).isSome) :
      Moved link (.client (.send id)) { link with conn := refuseSend link.conn id }
  | read {action : Rpc.Action} {conn : Connection} (hreads : reads action = true)
      (hrunning : link.stopped = false) (hfired : Fired text link.conn action conn) :
      Moved link (.client action) { link with conn }
  | giveUp (hrunning : link.stopped = false) :
      Moved link (.client .sendCancel) { link with conn := { link.conn with reader := .idle } }
  | consume {action : Rpc.Action} {conn : Connection} (hconsumes : consumes action = true)
      (hfired : Fired text link.conn action conn) : Moved link (.client action) { link with conn }
  | pump {action : Action} (inboundOpen outboundOpen : Bool) (toClient toServer : List (List Char))
      (haction : ∀ action', action ≠ .client action') :
      Moved link action { link with
        inboundOpen, outboundOpen, conn := { link.conn with toClient, toServer } }
  | stop (hrunning : link.stopped = false) (hreader : link.conn.reader = .idle) :
      Moved link .stop { link with stopped := true, conn := drain link.conn }

variable {text} {link next : Link} {action : Action}

theorem moved_of_reader {action : Rpc.Action} (hreads : reads action = true)
    (hstep : (if link.stopped then none
      else (Rpc.step text link.conn action).map fun conn => { link with conn }) = some next) :
    Moved text link (.client action) next := by
  obtain ⟨hrunning, hnext⟩ := ite_none_left_eq_some.mp hstep
  obtain ⟨conn, hfired, rfl⟩ := map_eq_some_iff.mp hnext
  exact .read hreads (Bool.eq_false_of_not_eq_true hrunning) (step_fired hfired)

theorem moved_of_clientStep {action : Rpc.Action}
    (hstep : clientStep text link action = some next) : Moved text link (.client action) next := by
  cases action with
  | issue request =>
    cases hstep
    exact .issue request
  | send id =>
    simp only [clientStep] at hstep
    split at hstep
    next hopen =>
      obtain ⟨conn, hfired, rfl⟩ := map_eq_some_iff.mp hstep
      exact .send hopen (step_fired hfired)
    next hclosed =>
      obtain ⟨hsending, hnext⟩ := ite_none_right_eq_some.mp hstep
      cases hnext
      exact .refuse (Bool.eq_false_of_not_eq_true hclosed) hsending
  | sendCancel =>
    obtain ⟨hrunning, hnext⟩ := ite_none_left_eq_some.mp hstep
    have hrunning := Bool.eq_false_of_not_eq_true hrunning
    split at hnext
    · obtain ⟨conn, hfired, rfl⟩ := map_eq_some_iff.mp hnext
      exact .read rfl hrunning (step_fired hfired)
    · split at hnext
      · cases hnext; exact .giveUp hrunning
      · cases hnext
  | receive | route | deliver => exact moved_of_reader rfl hstep
  | take id | drop id =>
    obtain ⟨conn, hfired, rfl⟩ := map_eq_some_iff.mp hstep
    exact .consume rfl (step_fired hfired)
  | serve | reply | yield | endStream | sendFrame => cases hstep

theorem moved_of_step (hstep : step text link action = some next) : Moved text link action next := by
  cases action with
  | client action => exact moved_of_clientStep hstep
  | arrive payload =>
    obtain ⟨-, hnext⟩ := ite_none_right_eq_some.mp hstep
    cases hnext
    exact .pump _ _ _ _ nofun
  | depart =>
    obtain ⟨-, hnext⟩ := ite_none_right_eq_some.mp hstep
    split at hnext
    · cases hnext; exact .pump _ _ _ _ nofun
    · cases hnext
  | closeInbound | closeOutbound =>
    obtain ⟨-, hnext⟩ := ite_none_right_eq_some.mp hstep
    cases hnext
    exact .pump _ _ _ _ nofun
  | stop =>
    obtain ⟨⟨hrunning, -, -, -, hreader⟩, hnext⟩ := ite_none_right_eq_some.mp hstep
    cases hnext
    exact .stop (Bool.eq_false_of_not_eq_true hrunning) hreader

end Moves

section Booked

variable {text : JsonText} {link next : Link} {action : Action}

/-- Entries are of requests that were issued, and a call without an entry has a result. -/
structure Booked (conn : Connection) : Prop where
  issued : ∀ id request, conn.requests id = some request → id < conn.nextId
  pending : ∀ id kind, conn.pending id = some kind →
    ∃ request, conn.requests id = some request ∧ request.kind = kind
  calls : ∀ id request, conn.requests id = some request → request.kind = .call →
    conn.pending id = some .call ∨ ∃ outcome, (id, outcome) ∈ conn.resolved
  delivering : ∀ id item, conn.reader = .delivering id item →
    ∃ request, conn.requests id = some request ∧ request.kind = .stream

variable {conn : Connection}

theorem Booked.issue (hbooked : Booked conn) (request : Request) : Booked (conn.issue request) := by
  have hfresh : ∀ {id other}, conn.requests id = some other → id ≠ conn.nextId :=
    fun hother => (hbooked.issued _ _ hother).ne
  refine ⟨fun id other hother => ?_, fun id kind hkind => ?_, fun id other hother hcall => ?_,
    fun id item hreader => ?_⟩
  · by_cases hid : id = conn.nextId
    · exact hid ▸ Nat.lt_succ_self _
    · simp only [Connection.issue, update_of_ne hid] at hother
      exact Nat.lt_succ_of_lt (hbooked.issued id other hother)
  · by_cases hid : id = conn.nextId
    · subst hid
      simp only [Connection.issue, update_self, some.injEq] at hkind ⊢
      exact ⟨request, rfl, hkind⟩
    · simp only [Connection.issue, update_of_ne hid] at hkind ⊢
      exact hbooked.pending id kind hkind
  · by_cases hid : id = conn.nextId
    · subst hid
      simp only [Connection.issue, update_self, some.injEq] at hother ⊢
      exact .inl (hother ▸ hcall)
    · simp only [Connection.issue, update_of_ne hid] at hother ⊢
      exact hbooked.calls id other hother hcall
  · obtain ⟨other, hother, hstream⟩ := hbooked.delivering id item hreader
    refine ⟨other, ?_, hstream⟩
    simp only [Connection.issue, update_of_ne (hfresh hother)]
    exact hother

theorem Booked.removed {next : Connection} (hbooked : Booked conn) (id : Nat)
    (hrequests : next.requests = conn.requests) (hnext : next.nextId = conn.nextId)
    (hpending : next.pending = update conn.pending id none)
    (hreader : next.reader = conn.reader ∨ ∀ id item, next.reader ≠ .delivering id item)
    (hresolved : ∀ entry ∈ conn.resolved, entry ∈ next.resolved)
    (hcall : conn.pending id = some .call → ∃ outcome, (id, outcome) ∈ next.resolved) :
    Booked next := by
  refine ⟨fun other request hother => ?_, fun other kind hkind => ?_,
    fun other request hother hkind => ?_, fun other item hdelivering => ?_⟩
  · rw [hnext]
    exact hbooked.issued other request (hrequests ▸ hother)
  · rw [hrequests]
    by_cases hid : other = id
    · subst hid
      simp [hpending] at hkind
    · rw [hpending, update_of_ne hid] at hkind
      exact hbooked.pending other kind hkind
  · rw [hrequests] at hother
    rcases hbooked.calls other request hother hkind with hheld | ⟨outcome, houtcome⟩
    · by_cases hid : other = id
      · exact .inr (hid ▸ hcall (hid ▸ hheld))
      · exact .inl (by rw [hpending, update_of_ne hid, hheld])
    · exact .inr ⟨outcome, hresolved _ houtcome⟩
  · rcases hreader with hsame | hnone
    · rw [hrequests]
      exact hbooked.delivering other item (hsame ▸ hdelivering)
    · exact absurd hdelivering (hnone other item)

/-- Nothing that the books speak of changes, except that a delivery may be over. -/
theorem Booked.same {next : Connection} (hbooked : Booked conn)
    (hrequests : next.requests = conn.requests) (hnext : next.nextId = conn.nextId)
    (hpending : next.pending = conn.pending)
    (hreader : next.reader = conn.reader ∨ ∀ id item, next.reader ≠ .delivering id item)
    (hresolved : next.resolved = conn.resolved) : Booked next := by
  refine ⟨?_, ?_, ?_, fun id item hdelivering => ?_⟩
  · rw [hrequests, hnext]
    exact hbooked.issued
  · rw [hrequests, hpending]
    exact hbooked.pending
  · rw [hrequests, hpending, hresolved]
    exact hbooked.calls
  · rcases hreader with hsame | hnone
    · rw [hrequests]
      exact hbooked.delivering id item (hsame ▸ hdelivering)
    · exact absurd hdelivering (hnone id item)

theorem Booked.settle (hbooked : Booked conn) (id : Nat) (outcome : Outcome) :
    Booked (conn.settle id outcome) := by
  unfold Connection.settle
  split
  · exact hbooked.removed id rfl rfl rfl (.inl rfl)
      (fun _ hentry => mem_append_left _ hentry) fun _ => ⟨outcome, by simp⟩
  next hcall =>
    exact hbooked.removed id rfl rfl rfl (.inl rfl) (fun _ hentry => hentry)
      fun hpending => absurd hpending hcall

theorem Booked.routeFrame (hbooked : Booked conn) (frame : ServerFrame) :
    Booked (conn.routeFrame frame) := by
  unfold Connection.routeFrame
  split
  · exact hbooked.settle _ _
  · split
    · exact hbooked.settle _ _
    · split
      next item _ =>
        split
        next hstream =>
          refine ⟨hbooked.issued, hbooked.pending, hbooked.calls, fun id other hdelivering => ?_⟩
          cases hdelivering
          exact hbooked.pending frame.id .stream hstream
        · exact hbooked
      · split
        · exact hbooked.settle _ _
        · exact hbooked

theorem Booked.drain (hbooked : Booked conn) (hreader : conn.reader = .idle) :
    Booked (drain conn) := by
  refine ⟨hbooked.issued, fun id kind hkind => (by cases hkind), fun id request hrequest hcall => ?_,
    fun id item hdelivering => ?_⟩
  · refine .inr ?_
    rcases hbooked.calls id request hrequest hcall with hpending | ⟨outcome, houtcome⟩
    · refine ⟨.error .closed, mem_append_right _ (mem_map.mpr ⟨id, ?_, rfl⟩)⟩
      simp [hbooked.issued id request hrequest, hpending]
    · exact ⟨outcome, mem_append_left _ houtcome⟩
  · rw [ConnectionEnd.drain, hreader] at hdelivering
    cases hdelivering

theorem Booked.read {action : Rpc.Action} {next : Connection} (hbooked : Booked conn)
    (hreads : reads action = true) (hfired : Fired text conn action next) : Booked next := by
  cases hfired with
  | sendCancel | deliver => exact hbooked.same rfl rfl rfl (.inr (by simp)) rfl
  | receive | skip => exact hbooked.same rfl rfl rfl (.inl rfl) rfl
  | route =>
    refine Booked.routeFrame ?_ _
    exact hbooked.same rfl rfl rfl (.inl rfl) rfl
  | refuse hreader =>
    obtain ⟨request, hrequest, hstream⟩ := hbooked.delivering _ _ hreader
    refine hbooked.removed _ rfl rfl rfl (.inr (by simp)) (fun _ hentry => hentry) fun hcall => ?_
    obtain ⟨other, hother, hkind⟩ := hbooked.pending _ _ hcall
    obtain rfl := mem_unique hrequest hother
    cases hstream.symm.trans hkind
  | _ => cases hreads

theorem Booked.step (hbooked : Booked link.conn) (hstep : step text link action = some next) :
    Booked next.conn := by
  cases moved_of_step hstep with
  | issue request => exact hbooked.issue request
  | send hopen hfired =>
    cases hfired
    exact hbooked.same rfl rfl rfl (.inl rfl) rfl
  | refuse =>
    exact hbooked.removed _ rfl rfl rfl (.inl rfl) (fun _ hentry => mem_append_left _ hentry)
      fun _ => ⟨.error .closed, mem_append_right _ (mem_singleton.mpr rfl)⟩
  | read hreads hrunning hfired => exact hbooked.read hreads hfired
  | giveUp => exact hbooked.same rfl rfl rfl (.inr (by simp)) rfl
  | consume hconsumes hfired =>
    cases hfired with
    | take | drop => exact hbooked.same rfl rfl rfl (.inl rfl) rfl
    | _ => cases hconsumes
  | pump => exact hbooked.same rfl rfl rfl (.inl rfl) rfl
  | stop hrunning hreader => exact hbooked.drain hreader

end Booked

section Heard

variable {text : JsonText} {link next : Link} {action : Action}

/-- Once the reader is gone, whoever is still pending has its send before it. -/
def Heard (link : Link) : Prop :=
  link.stopped = true → ∀ id, link.conn.pending id ≠ none → link.conn.sending id ≠ none

theorem heard_iff_of_same (hstopped : next.stopped = link.stopped)
    (hpending : link.stopped = true → next.conn.pending = link.conn.pending)
    (hsending : link.stopped = true → next.conn.sending = link.conn.sending)
    (haction : ∀ id, action ≠ .client (.send id)) :
    Heard next ↔ Heard link ∧ SentInTime link action := by
  have hguard : SentInTime link action := fun id hsend => absurd hsend (haction id)
  simp only [hguard, and_true]
  constructor
  · intro hheard hgone id
    rw [← hpending hgone, ← hsending hgone]
    exact hheard (hstopped.trans hgone) id
  · intro hheard hgone id
    have hgone := hstopped.symm.trans hgone
    rw [hpending hgone, hsending hgone]
    exact hheard hgone id

theorem heard_issue (hbooked : Booked link.conn) (request : Request) :
    Heard { link with conn := link.conn.issue request } ↔ Heard link ∧
      SentInTime link (.client (.issue request)) := by
  have hguard : SentInTime link (.client (.issue request)) := fun id hsend => by cases hsend
  simp only [hguard, and_true, Heard]
  refine forall_congr' fun _ => forall_congr' fun id => ?_
  by_cases hid : id = link.conn.nextId
  · subst hid
    have hfresh : link.conn.pending link.conn.nextId = none := by
      cases hpending : link.conn.pending link.conn.nextId with
      | none => rfl
      | some kind =>
        obtain ⟨other, hother, -⟩ := hbooked.pending _ _ hpending
        exact absurd (hbooked.issued _ _ hother) (Nat.lt_irrefl _)
    simp [Connection.issue, hfresh]
  · simp only [Connection.issue, update_of_ne hid]

/-- A frame that finds room leaves its caller with nothing but the reader to wait for. -/
theorem heard_sent {id : Nat} {payloads : List (List Char)} (hopen : link.outboundOpen = true) :
    Heard { link with conn := { link.conn with
        sending := update link.conn.sending id none, toServer := payloads } } ↔
      Heard link ∧ SentInTime link (.client (.send id)) := by
  constructor
  · intro hheard
    refine ⟨fun hgone other hpending => ?_, fun other hsend hgone _ => ?_⟩
    · have hother := hheard hgone other hpending
      by_cases hid : other = id
      · simp [hid] at hother
      · simpa [update_of_ne hid] using hother
    · obtain rfl : id = other := by
        cases hsend
        rfl
      by_contra hpending
      exact hheard hgone id hpending (by simp)
  · intro ⟨hheard, hguard⟩ hgone other hpending
    by_cases hid : other = id
    · exact absurd (hguard id rfl hgone hopen) (hid ▸ hpending)
    · simpa [update_of_ne hid] using hheard hgone other hpending

theorem heard_refused {id : Nat} (hclosed : link.outboundOpen = false)
    (hsending : (link.conn.sending id).isSome) :
    Heard { link with conn := refuseSend link.conn id } ↔
      Heard link ∧ SentInTime link (.client (.send id)) := by
  have hguard : SentInTime link (.client (.send id)) := fun _ _ _ hopen => by simp [hclosed] at hopen
  simp only [hguard, and_true, Heard]
  refine forall_congr' fun _ => forall_congr' fun other => ?_
  by_cases hid : other = id
  · subst hid
    simp [refuseSend, Connection.forget, isSome_iff_ne_none.1 hsending]
  · simp only [refuseSend, Connection.forget, update_of_ne hid]

theorem heard_of_running (hrunning : link.stopped = false) (hnext : next.stopped = link.stopped)
    (haction : ∀ id, action ≠ .client (.send id)) :
    Heard next ↔ Heard link ∧ SentInTime link action :=
  heard_iff_of_same hnext (fun hgone => by simp [hrunning] at hgone)
    (fun hgone => by simp [hrunning] at hgone) haction

theorem heard_step (hbooked : Booked link.conn) (hstep : step text link action = some next) :
    Heard next ↔ Heard link ∧ SentInTime link action := by
  cases moved_of_step hstep with
  | issue request => exact heard_issue hbooked request
  | send hopen hfired =>
    cases hfired
    exact heard_sent hopen
  | refuse hclosed hsending => exact heard_refused hclosed hsending
  | read hreads hrunning => exact heard_of_running hrunning rfl (by rintro id ⟨⟩; cases hreads)
  | giveUp hrunning => exact heard_of_running hrunning rfl (by simp)
  | consume hconsumes hfired =>
    cases hfired with
    | take | drop => exact heard_iff_of_same rfl (fun _ => rfl) (fun _ => rfl) (by simp)
    | _ => cases hconsumes
  | pump _ _ _ _ haction =>
    exact heard_iff_of_same rfl (fun _ => rfl) (fun _ => rfl) fun id => haction (.send id)
  | stop hrunning =>
    have hguard : SentInTime link .stop := fun id hsend => by cases hsend
    have hheard : Heard link := fun hgone => absurd (hrunning.symm.trans hgone) nofun
    exact iff_of_true (fun _ id hpending => absurd rfl hpending) ⟨hheard, hguard⟩

end Heard

section Runs

variable {text : JsonText} {link next : Link} {action : Action} {trace : List Action}

def Rested (link : Link) : Prop := link.stopped = true → link.conn.reader = .idle

theorem Rested.step (hrested : Rested link) (hstep : step text link action = some next) :
    Rested next := by
  cases moved_of_step hstep with
  | send hopen hfired =>
    cases hfired
    exact hrested
  | read hreads hrunning => exact fun hgone => absurd (hrunning.symm.trans hgone) nofun
  | giveUp => exact fun _ => rfl
  | consume hconsumes hfired =>
    cases hfired with
    | take | drop => exact hrested
    | _ => cases hconsumes
  | stop hrunning hreader => exact fun _ => hreader
  | issue | refuse | pump => exact hrested

/-- Whatever ends a connection, nobody is left waiting on it exactly when no request that was
registered after the reader had failed the pending ones is sent before the channel closes. -/
theorem settled_iff_sentInTime (hrun : Trace.run (step text) {} trace = some link)
    (hended : Ended link) : Settled link ↔ Trace.Guarded (step text) SentInTime {} trace := by
  have hbooked : Booked ({} : Link).conn :=
    ⟨fun _ _ h => (by cases h), fun _ _ h => (by cases h), fun _ _ h => (by cases h),
      fun _ _ h => (by cases h)⟩
  have hheard : Heard {} := fun hgone => by cases hgone
  have hrested : Rested {} := fun hgone => by cases hgone
  have hguarded := Trace.final_iff_guarded_of_invariant
    (fun _ _ _ (hbooked : Booked _) hstep => hbooked.step hstep)
    (fun _ _ _ hbooked hstep => heard_step hbooked hstep) hbooked hrun
  simp only [hheard, true_and] at hguarded
  rw [← hguarded]
  have hbooked := Trace.run_invariant (fun _ _ _ (hbooked : Booked _) hstep => hbooked.step hstep)
    hbooked hrun
  have hrested := Trace.run_invariant (fun _ _ _ hrested hstep => Rested.step hrested hstep)
    hrested hrun
  constructor
  · exact fun hsettled _ id hpending => absurd (hsettled.pending id) hpending
  · intro hheard
    have hpending : ∀ id, link.conn.pending id = none := fun id => by
      by_contra hpending
      exact hheard hended.stopped id hpending (hended.sent id)
    refine ⟨hpending, fun id request hrequest hcall => ?_, fun id item hdelivering => ?_⟩
    · rcases hbooked.calls id request hrequest hcall with hheld | hanswered
      · rw [hpending id] at hheld
        cases hheld
      · exact hanswered
    · rw [hrested hended.stopped] at hdelivering
      cases hdelivering

end Runs

/-- No text is JSON; the peer of these runs says nothing. -/
def silentText : JsonText := ⟨fun _ => [], fun _ => none⟩

/-- A call registered after the reader has stopped finds the outbound channel closed. -/
theorem settled_iff_sentInTime_of_refused :
    ∃ link, Trace.run (step silentText) {} [.closeInbound, .stop,
        .client (.issue ⟨.call, "ListHarnesses", .null⟩), .closeOutbound, .client (.send 1)] =
          some link ∧
      (Settled link ↔ Trace.Guarded (step silentText) SentInTime {} [.closeInbound, .stop,
        .client (.issue ⟨.call, "ListHarnesses", .null⟩), .closeOutbound, .client (.send 1)]) := by
  refine ⟨_, rfl, settled_iff_sentInTime rfl ⟨rfl, rfl, rfl, fun id => ?_⟩⟩
  by_cases hid : id = 1
  · subst hid
    rfl
  · simp [refuseSend, Connection.issue, Connection.forget, drain]

/-- It finds the channel open, and waits for ever. -/
theorem call_outlives_connection :
    ¬ ∀ (text : JsonText) (trace : List Action) (link : Link),
      Trace.run (step text) {} trace = some link → Ended link → Settled link := by
  intro hall
  have hsettled := hall silentText [.closeInbound, .stop,
    .client (.issue ⟨.call, "ListHarnesses", .null⟩), .client (.send 1), .closeOutbound] _ rfl
    ⟨rfl, rfl, rfl, fun id => ?_⟩
  · cases hsettled.pending 1
  · by_cases hid : id = 1
    · subst hid
      rfl
    · simp [Connection.issue, drain, Function.update_of_ne hid]

end ConnectionEnd

end Keel
