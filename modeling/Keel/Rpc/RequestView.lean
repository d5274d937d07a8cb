import Keel.Rpc.Multiplex

/-! # What one request sees of a connection

A request meets only what carries its id: its frame on the way to the server, its task,
the frames on the way back, and its caller. A step of the connection is a step of at
most one request; the others see nothing of it.
-/

namespace Keel

open List Option

namespace Rpc

/-- The part of a connection that belongs to one id. -/
@[ext] structure View where
  request : Option Request := none
  pending : Option RequestKind := none
  sending : Option ClientFrame := none
  /-- The frames on the way to the server. -/
  outbound : List ClientFrame := []
  /-- Its cancellation waits for room. -/
  cancelling : Bool := false
  task : Option Task := none
  /-- The frames on the way to the caller, an item that waits for room first. -/
  inbound : List ServerFrame := []
  receiver : Option Receiver := none
  outcomes : List Outcome := []

def Reader.frames : Reader → List ServerFrame
  | .delivering id item => [{ id, item := some item }]
  | _ => []

def Reader.cancels (id : Nat) : Reader → Bool
  | .cancelling other => other = id
  | _ => false

section Views

variable (text : JsonText)

def Connection.toServerFrames (conn : Connection) : List ClientFrame :=
  conn.toServer.flatMap (clientFrames text)

def Connection.toClientFrames (conn : Connection) : List ServerFrame :=
  conn.reader.frames ++ (serverFrames text conn.lines ++
    conn.toClient.flatMap fun payload => serverFrames text (payloadLines payload))

def Connection.view (conn : Connection) (id : Nat) : View :=
  { request := conn.requests id
    pending := conn.pending id
    sending := conn.sending id
    outbound := (conn.toServerFrames text).filter (·.id = id)
    cancelling := conn.reader.cancels id
    task := conn.tasks id
    inbound := (conn.toClientFrames text).filter (·.id = id)
    receiver := conn.receivers id
    outcomes := (conn.resolved.filter (·.1 = id)).map Prod.snd }

end Views

/-- A frame as it is read: null is no value. -/
def ServerFrame.received (frame : ServerFrame) : ServerFrame :=
  { frame with ok := frame.ok.filter (· ≠ .null), item := frame.item.filter (· ≠ .null) }

/-- The caller's end of a request when the sender goes. -/
def View.settle (view : View) (outcome : Outcome) : View :=
  { view with
    pending := none
    outcomes := if view.pending = some .call then view.outcomes ++ [outcome] else view.outcomes }

/-- A frame that is routed without waiting. -/
def View.route (view : View) (frame : ServerFrame) : View :=
  match frame.err with
  | some err => view.settle (.error (.failed err))
  | none =>
    match frame.ok with
    | some value => view.settle (.ok value)
    | none =>
      match frame.item with
      | some _ => view
      | none => if frame.done then view.settle (.error .closed) else view

/-- What the server does with a frame that is no cancellation. -/
def View.serve (view : View) (frame : ClientFrame) : View :=
  match frame.method with
  | none => view
  | some method => { view with task := some { method, params := frame.params } }

/-- The moves of a handler and its stream that hand out no null. -/
inductive Task.Moves (id : Nat) (task : Task) : Task → Prop
  | reply (reply : Reply) (hphase : task.phase = .handling) (hplain : reply ≠ .value .null) :
      Moves id task (task.replied id reply)
  | yield (item : Json) (hphase : task.phase = .streaming) (hplain : item ≠ .null) :
      Moves id task { task with
        items := task.items ++ [item], phase := .sending { id, item := some item } false }
  | endStream (hphase : task.phase = .streaming) :
      Moves id task { task with ended := true, phase := .sending { id, done := true } true }

/-- The steps of one request. -/
inductive View.Step (id : Nat) (view : View) : View → Prop
  | issue (request : Request) (hfresh : view.request = none) :
      Step id view { view with
        request := some request, pending := some request.kind,
        sending := some (request.frame id)
        receiver := match request.kind with
          | .call => view.receiver
          | .stream => some {} }
  | send (frame : ClientFrame) (hsending : view.sending = some frame) :
      Step id view { view with sending := none, outbound := view.outbound ++ [frame] }
  | serve (frame : ClientFrame) (rest : List ClientFrame)
      (houtbound : view.outbound = frame :: rest) (hcancel : frame.cancel = false) :
      Step id view ({ view with outbound := rest }.serve frame)
  | cancel (frame : ClientFrame) (rest : List ClientFrame) (task : Option Task)
      (houtbound : view.outbound = frame :: rest) (hcancel : frame.cancel = true)
      (htask : task = view.task ∨
        task = view.task.map fun task => { task with phase := .finished }) :
      Step id view { view with outbound := rest, task }
  | task (task task' : Task) (htask : view.task = some task) (hmoves : task.Moves id task') :
      Step id view { view with task := some task' }
  | sendFrame (task : Task) (frame : ServerFrame) (last : Bool)
      (htask : view.task = some task) (hphase : task.phase = .sending frame last) :
      Step id view { view with
        task := some { task with phase := if last then .finished else .streaming }
        inbound := view.inbound ++ [frame.received] }
  | route (frame : ServerFrame) (rest : List ServerFrame)
      (hinbound : view.inbound = frame :: rest)
      (hplain : frame.err.isSome ∨ frame.ok.isSome ∨ frame.item = none ∨
        view.pending ≠ some .stream) :
      Step id view ({ view with inbound := rest }.route frame)
  | hold (frame : ServerFrame) (item : Json) (rest : List ServerFrame)
      (hinbound : view.inbound = frame :: rest) (hitem : frame.item = some item) :
      Step id view { view with inbound := { id := frame.id, item := some item } :: rest }
  | deliver (receiver : Receiver) (item : Json) (rest : List ServerFrame)
      (hinbound : view.inbound = { id, item := some item } :: rest)
      (hreceiver : view.receiver = some receiver) (hkept : receiver.dropped = false) :
      Step id view { view with
        inbound := rest
        receiver := some { receiver with queue := receiver.queue ++ [item] } }
  | dead (receiver : Receiver) (item : Json) (rest : List ServerFrame)
      (hinbound : view.inbound = { id, item := some item } :: rest)
      (hreceiver : view.receiver = some receiver) (hdropped : receiver.dropped = true) :
      Step id view { view with inbound := rest, pending := none, cancelling := true }
  | sendCancel (hcancelling : view.cancelling = true) :
      Step id view { view with
        cancelling := false, outbound := view.outbound ++ [{ id, cancel := true }] }
  | take (receiver : Receiver) (item : Json) (rest : List Json)
      (hreceiver : view.receiver = some receiver) (hqueue : receiver.queue = item :: rest) :
      Step id view { view with
        receiver := some { receiver with queue := rest, taken := receiver.taken ++ [item] } }
  | drop (receiver : Receiver) (hreceiver : view.receiver = some receiver) :
      Step id view { view with receiver := some { receiver with dropped := true } }

/-- A step that one request makes and the others do not see. -/
structure Local (text : JsonText) (conn conn' : Connection) (id : Nat) : Prop where
  others : ∀ other, other ≠ id → conn'.view text other = conn.view text other
  own : conn'.view text id = conn.view text id ∨
    View.Step id (conn.view text id) (conn'.view text id)

/-- Everything carries the id it belongs to. -/
structure Connection.Addressed (text : JsonText) (conn : Connection) : Prop where
  fresh : ∀ id, conn.nextId ≤ id → conn.requests id = none
  single : ∀ payload ∈ conn.toServer, ∃ frame, clientFrames text payload = [frame]
  sending : ∀ id frame, conn.sending id = some frame → frame.id = id
  tasks : ∀ id task frame last, conn.tasks id = some task →
    task.phase = .sending frame last → frame.id = id

section Frames

variable {text : JsonText}

theorem clientFrames_write {frame : ClientFrame} (hreads : text.ReadsBack frame.toJson) :
    clientFrames text (frame.write text) = [frame] := by
  rw [clientFrames, ClientFrame.write, hreads.line, filterMap_cons, ClientFrame.read,
    hreads.value, bind_some, frame.ofJson_toJson]
  rfl

theorem serverFrames_write {frame : ServerFrame} (hreads : text.ReadsBack frame.toJson) :
    serverFrames text (payloadLines (frame.write text)) = [frame.received] := by
  rw [serverFrames, ServerFrame.write, hreads.line, filterMap_cons, ServerFrame.read,
    hreads.value, bind_some, frame.ofJson_toJson]
  rfl

end Frames

def Connection.writes (conn : Connection) : Action → List Json
  | .send id => (conn.sending id).toList.map ClientFrame.toJson
  | .sendFrame id => (conn.tasks id).toList.flatMap fun task =>
    match task.phase with
    | .sending frame _ => [frame.toJson]
    | _ => []
  | .sendCancel =>
    match conn.reader with
    | .cancelling id => [ClientFrame.toJson { id, cancel := true }]
    | _ => []
  | _ => []

/-- No handler returns null, as a value or as an item of its stream. -/
def Action.Plain : Action → Prop
  | .reply _ returned => returned ≠ .value .null
  | .yield _ item => item ≠ .null
  | _ => True

/-- What an action writes is read back as it was written. -/
def ReadsBackWritten (text : JsonText) (conn : Connection) (action : Action) : Prop :=
  ∀ json ∈ conn.writes action, text.ReadsBack json

section Steps

variable {text : JsonText} {conn conn' : Connection}

attribute [local simp] Connection.view Connection.toServerFrames Connection.toClientFrames
  Connection.retain Connection.forget Connection.setTask Connection.setReceiver Reader.frames
  Reader.cancels

theorem local_issue (haddressed : conn.Addressed text) (request : Request) :
    Local text conn (conn.issue request) conn.nextId := by
  refine ⟨fun other hother => ?_, Or.inr ?_⟩
  · cases hkind : request.kind <;>
      simp [Connection.issue, hother, hkind]
  · have hfresh := haddressed.fresh conn.nextId (Nat.le_refl _)
    convert @View.Step.issue _ (conn.view text conn.nextId) request hfresh using 1
    cases hkind : request.kind <;>
      simp [Connection.issue, hkind]

variable {id : Nat} {frame : ServerFrame} {rest : List (List Char)} {payload : List Char}
  {item : Json} {receiver : Receiver}

theorem local_send (haddressed : conn.Addressed text) {frame : ClientFrame}
    (hreads : ReadsBackWritten text conn (.send id)) (hsending : conn.sending id = some frame) :
    Local text conn { conn with
      sending := Function.update conn.sending id none
      toServer := conn.toServer ++ [frame.write text] } id := by
  have hid := haddressed.sending id frame hsending
  have hframes := clientFrames_write (hreads frame.toJson (by simp [Connection.writes, hsending]))
  refine ⟨fun other hother => ?_, Or.inr ?_⟩
  · simp [hother, hframes, hid, hother.symm]
  · convert @View.Step.send id (conn.view text id) frame hsending using 1
    simp [hframes, hid]

theorem local_setTask {task task' : Task} (htask : conn.tasks id = some task)
    (hmoves : task.Moves id task') : Local text conn (conn.setTask id task') id := by
  refine ⟨fun other hother => ?_, Or.inr ?_⟩
  · simp [hother]
  · convert @View.Step.task id (conn.view text id) task task' htask hmoves using 1
    simp

theorem local_sendFrame (haddressed : conn.Addressed text) {task : Task} {last : Bool}
    (hreads : ReadsBackWritten text conn (.sendFrame id))
    (htask : conn.tasks id = some task) (hphase : task.phase = .sending frame last) :
    Local text conn { conn.setTask id { task with
      phase := if last then .finished else .streaming } with
        toClient := conn.toClient ++ [frame.write text] } id := by
  have hid := haddressed.tasks id task frame last htask hphase
  have hframes := serverFrames_write
    (hreads frame.toJson (by simp [Connection.writes, htask, hphase]))
  have hreceived : frame.received.id = id := hid
  refine ⟨fun other hother => ?_, Or.inr ?_⟩
  · simp [hother, hframes, hreceived, hother.symm]
  · convert @View.Step.sendFrame id (conn.view text id) task frame last htask hphase
      using 1
    simp [hframes, hreceived]

theorem local_abort {frame : ClientFrame} (hpayload : conn.toServer = payload :: rest)
    (hframes : clientFrames text payload = [frame]) (hcancel : frame.cancel = true) :
    Local text conn ({ conn with toServer := rest }.retain.abort frame.id) frame.id := by
  have houtbound : (conn.view text frame.id).outbound =
      frame :: ({ conn with toServer := rest }.view text frame.id).outbound := by
    simp [hpayload, hframes]
  rw [Connection.abort]
  split
  · refine ⟨fun other hother => ?_, Or.inr ?_⟩
    · simp [hother, hother.symm, hpayload, hframes]
    · convert View.Step.cancel frame _ _ houtbound hcancel (Or.inr rfl) using 1
      simp
  · refine ⟨fun other hother => ?_, Or.inr ?_⟩
    · simp [hother.symm, hpayload, hframes]
    · convert View.Step.cancel frame _ _ houtbound hcancel (Or.inl rfl) using 1
      simp

theorem local_serve (haddressed : conn.Addressed text) (hpayload : conn.toServer = payload :: rest) :
    ∃ id, Local text conn ((clientFrames text payload).foldl Connection.serveFrame
      { conn with toServer := rest }) id := by
  obtain ⟨frame, hframes⟩ := haddressed.single payload (hpayload ▸ mem_cons_self)
  refine ⟨frame.id, ?_⟩
  rw [hframes, foldl_cons, foldl_nil, Connection.serveFrame]
  split
  next hcancel => exact local_abort hpayload hframes hcancel
  next hcancel =>
    have houtbound : (conn.view text frame.id).outbound =
        frame :: ({ conn with toServer := rest }.view text frame.id).outbound := by
      simp [hpayload, hframes]
    have hown := @View.Step.serve frame.id _ frame _ houtbound (by simpa using hcancel)
    cases hmethod : frame.method with
    | none =>
      rw [View.serve, hmethod] at hown
      refine ⟨fun other hother => ?_, Or.inr ?_⟩
      · simp [hother.symm, hpayload, hframes]
      · convert hown using 1
        simp
    | some method =>
      rw [View.serve, hmethod] at hown
      refine ⟨fun other hother => ?_, Or.inr ?_⟩
      · simp [Connection.spawn, hother, hother.symm, hpayload, hframes]
      · convert hown using 1
        simp [Connection.spawn]

theorem local_of_views (hviews : ∀ other, conn'.view text other = conn.view text other) :
    Local text conn conn' 0 :=
  ⟨fun other _ => hviews other, Or.inl (hviews 0)⟩

theorem local_receive (hidle : conn.reader = .idle)
    (hlines : conn.lines = []) (hpayload : conn.toClient = payload :: rest) :
    Local text conn { conn with toClient := rest, lines := payloadLines payload } 0 := by
  refine local_of_views fun other => ?_
  simp [hidle, hlines, hpayload, serverFrames]

theorem view_settle (id other : Nat) (outcome : Outcome) :
    (conn.settle id outcome).view text other =
      if other = id then (conn.view text other).settle outcome else conn.view text other := by
  rw [Connection.settle]
  split
  next hpending =>
    split
    next heq =>
      subst heq
      simp [View.settle, hpending]
    next hne =>
      simp [hne, Ne.symm hne]
  next hpending =>
    split
    next heq =>
      subst heq
      simp [View.settle]
      exact hpending
    next hne =>
      simp [hne]

theorem view_routeFrame (conn : Connection) (frame : ServerFrame) (other : Nat)
    (hplain : frame.err.isSome ∨ frame.ok.isSome ∨ frame.item = none ∨
      conn.pending frame.id ≠ some .stream) :
    (conn.routeFrame frame).view text other =
      if other = frame.id then (conn.view text other).route frame else conn.view text other := by
  rw [Connection.routeFrame, View.route]
  cases herr : frame.err with
  | some err => exact view_settle _ _ _
  | none =>
    cases hok : frame.ok with
    | some value => exact view_settle _ _ _
    | none =>
      cases hitem : frame.item with
      | some item =>
        have hpending : conn.pending frame.id ≠ some .stream := by
          simpa [herr, hok, hitem] using hplain
        simp [hpending]
      | none =>
        simp only
        split
        · exact view_settle _ _ _
        · simp

/-- An item of a subscription waits at the reader, and still counts as on its way. -/
theorem view_routeFrame_item (conn : Connection) (other : Nat)
    (hidle : conn.reader = .idle) (herr : frame.err = none) (hok : frame.ok = none)
    (hitem : frame.item = some item) (hpending : conn.pending frame.id = some .stream) :
    (conn.routeFrame frame).view text other =
      { conn.view text other with
        inbound := ({ id := frame.id, item := some item } :: conn.toClientFrames text).filter
          (·.id = other) } := by
  simp only [Connection.routeFrame, herr, hok, hitem, hpending, if_true]
  simp [hidle]

theorem toClientFrames_line {line : List Char} {rest : List (List Char)}
    (hidle : conn.reader = .idle) (hlines : conn.lines = line :: rest) :
    conn.toClientFrames text =
      (ServerFrame.read text line).toList ++ { conn with lines := rest }.toClientFrames text := by
  simp only [Connection.toClientFrames, hidle, hlines, Reader.frames, serverFrames]
  cases hread : ServerFrame.read text line <;> simp [-Connection.toClientFrames, hread]

theorem local_skip {line : List Char} (hidle : conn.reader = .idle)
    (hlines : conn.lines = line :: rest) (hread : ServerFrame.read text line = none) :
    Local text conn { conn with lines := rest } 0 := by
  have hrest := @toClientFrames_line text _ _ _ hidle hlines
  rw [hread, toList_none, nil_append] at hrest
  refine local_of_views fun other => ?_
  rw [Connection.view, Connection.view, hrest]
  rfl

theorem local_route {line : List Char} (hidle : conn.reader = .idle)
    (hlines : conn.lines = line :: rest) (hread : ServerFrame.read text line = some frame) :
    Local text conn ({ conn with lines := rest }.routeFrame frame) frame.id := by
  have hrest := @toClientFrames_line text _ _ _ hidle hlines
  rw [hread, toList_some, singleton_append] at hrest
  have hinbound : (conn.view text frame.id).inbound =
      frame :: ({ conn with lines := rest }.view text frame.id).inbound := by
    simp [-Connection.toClientFrames, hrest]
  by_cases hplain : frame.err.isSome ∨ frame.ok.isSome ∨ frame.item = none ∨
      conn.pending frame.id ≠ some .stream
  · refine ⟨fun other hother => ?_, Or.inr ?_⟩
    · rw [view_routeFrame { conn with lines := rest } frame other hplain, if_neg hother]
      simp [-Connection.toClientFrames, hrest, hother.symm]
    · have hown := @View.Step.route frame.id _ frame _ hinbound hplain
      rw [view_routeFrame { conn with lines := rest } frame frame.id hplain, if_pos rfl]
      exact hown
  · push Not at hplain
    obtain ⟨herr, hok, hitem, hpending⟩ := hplain
    obtain ⟨item, hitem⟩ := ne_none_iff_exists'.mp hitem
    replace herr : frame.err = none := by simpa using herr
    replace hok : frame.ok = none := by simpa using hok
    refine ⟨fun other hother => ?_, Or.inr ?_⟩
    · rw [view_routeFrame_item { conn with lines := rest } other hidle herr hok hitem hpending]
      simp [-Connection.toClientFrames, hrest, hother.symm]
    · rw [view_routeFrame_item { conn with lines := rest } frame.id hidle herr hok hitem
        hpending]
      convert @View.Step.hold frame.id _ frame item _ hinbound hitem using 1
      simp

section
variable (hreader : conn.reader = .delivering id item)
include hreader

theorem inbound_delivering : (conn.view text id).inbound = { id, item := some item } ::
      ({ conn with reader := .idle }.view text id).inbound := by
  simp [hreader]

theorem local_refuse (hreceiver : conn.receivers id = some receiver)
    (hdropped : receiver.dropped = true) :
    Local text conn { conn.forget id with reader := .cancelling id } id := by
  refine ⟨fun other hother => ?_, Or.inr ?_⟩
  · simp [hother, hother.symm, hreader]
  · convert View.Step.dead receiver item _ (inbound_delivering hreader) hreceiver hdropped using 1
    simp

theorem local_deliver (hreceiver : conn.receivers id = some receiver)
    (hkept : receiver.dropped = false) : Local text conn { conn.setReceiver id { receiver with
      queue := receiver.queue ++ [item] } with reader := .idle } id := by
  refine ⟨fun other hother => ?_, Or.inr ?_⟩
  · simp [hother, hother.symm, hreader]
  · convert View.Step.deliver receiver item _ (inbound_delivering hreader) hreceiver hkept using 1
    simp [hreader]

end

theorem local_sendCancel (hreads : ReadsBackWritten text conn .sendCancel)
    (hreader : conn.reader = .cancelling id) : Local text conn { conn with
      reader := .idle
      toServer := conn.toServer ++ [ClientFrame.write text { id, cancel := true }] } id := by
  have hframes := @clientFrames_write text { id, cancel := true }
    (hreads _ (by simp [Connection.writes, hreader]))
  have hcancelling : (conn.view text id).cancelling = true := by
    simp [hreader]
  refine ⟨fun other hother => ?_, Or.inr ?_⟩
  · simp [hother.symm, hreader, hframes]
  · convert View.Step.sendCancel hcancelling using 1
    simp [hreader, hframes]

theorem local_setReceiver
    (hown : View.Step id (conn.view text id)
      { conn.view text id with receiver := some receiver }) :
    Local text conn (conn.setReceiver id receiver) id := by
  refine ⟨fun other hother => ?_, Or.inr ?_⟩
  · simp [hother]
  · convert hown using 1
    simp

/-- A step that hands out no null and writes what is read back is a step of one request. -/
theorem step_local (haddressed : conn.Addressed text) {action : Action} (hplain : action.Plain)
    (hreads : ReadsBackWritten text conn action) (hstep : step text conn action = some conn') :
    ∃ id, Local text conn conn' id := by
  cases step_fired hstep with
  | issue request => exact ⟨_, local_issue haddressed request⟩
  | send hsending => exact ⟨_, local_send haddressed hreads hsending⟩
  | serve hpayload => exact local_serve haddressed hpayload
  | reply returned htask hphase =>
    exact ⟨_, local_setTask htask (.reply returned hphase hplain)⟩
  | yield item htask hphase => exact ⟨_, local_setTask htask (.yield item hphase hplain)⟩
  | endStream htask hphase => exact ⟨_, local_setTask htask (.endStream hphase)⟩
  | sendFrame htask hphase => exact ⟨_, local_sendFrame haddressed hreads htask hphase⟩
  | receive hidle hlines hpayload => exact ⟨_, local_receive hidle hlines hpayload⟩
  | route hidle hlines hread => exact ⟨_, local_route hidle hlines hread⟩
  | skip hidle hlines hread => exact ⟨_, local_skip hidle hlines hread⟩
  | refuse hreader hreceiver hdropped => exact ⟨_, local_refuse hreader hreceiver hdropped⟩
  | deliver hreader hreceiver hkept => exact ⟨_, local_deliver hreader hreceiver hkept⟩
  | sendCancel hreader => exact ⟨_, local_sendCancel hreads hreader⟩
  | take hreceiver hqueue =>
    exact ⟨_, local_setReceiver (.take _ _ _ hreceiver hqueue)⟩
  | drop hreceiver => exact ⟨_, local_setReceiver (.drop _ hreceiver)⟩

end Steps

end Rpc

end Keel
