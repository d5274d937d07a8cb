import Keel.Foundation.Trace
import Keel.Rpc.Frames
import Mathlib.Logic.Function.Basic

/-! # Calls and subscriptions over one connection

Many callers share a connection. Each request has an id of its own; the server runs a
task for each, and the frames of all tasks come back on one channel, where one reader
routes them to the callers by their id. Everything interleaves where it waits: for room
in a channel, for a handler, for the next item of a stream, for a consumer.

The model keeps what a result needs to speak of and the code does not keep: what was
asked under each id, what a handler has returned, and what a consumer has taken.
-/

namespace Keel

open Function

namespace Rpc

def STREAM_QUEUE_CAP : Nat := 256

/-- The depth of the two string channels. -/
def channelDepth : Nat := 256

inductive RequestKind where
  | call
  | stream
deriving DecidableEq

/-- What a caller asks for. -/
structure Request where
  kind : RequestKind
  method : String
  params : Json

def Request.frame (request : Request) (id : Nat) : ClientFrame :=
  { id, method := some request.method, params := request.params }

/-- What a handler returns; the items of a stream come later. -/
inductive Reply where
  | value (value : Json)
  | stream
  | error (error : RpcError)
deriving DecidableEq

inductive Phase where
  | handling
  /-- Waiting for room for a frame; `last` when the task ends after it. -/
  | sending (frame : ServerFrame) (last : Bool)
  | streaming
  | finished
deriving DecidableEq

/-- A run of `handle_request`. -/
structure Task where
  method : String
  params : Json
  phase : Phase := .handling
  /-- What the handler has returned. -/
  reply : Option Reply := none
  /-- What its stream has yielded. -/
  items : List Json := []
  ended : Bool := false

/-- The receiving end of a subscription. -/
structure Receiver where
  queue : List Json := []
  dropped : Bool := false
  /-- What the consumer has taken. -/
  taken : List Json := []

/-- The reader of the client: between lines, waiting for room in the queue of a
subscription, or waiting to send the cancellation of one whose receiver is gone. -/
inductive Reader where
  | idle
  | delivering (id : Nat) (item : Json)
  | cancelling (id : Nat)
deriving DecidableEq

abbrev Outcome := Except RpcError Json

structure Connection where
  /-- What was asked under each id. -/
  requests : Nat → Option Request := fun _ => none
  nextId : Nat := 1
  pending : Nat → Option RequestKind := fun _ => none
  /-- Callers whose frame waits for room. -/
  sending : Nat → Option ClientFrame := fun _ => none
  toServer : List (List Char) := []
  running : List Nat := []
  tasks : Nat → Option Task := fun _ => none
  toClient : List (List Char) := []
  reader : Reader := .idle
  /-- The lines of the payload that the reader is at. -/
  lines : List (List Char) := []
  receivers : Nat → Option Receiver := fun _ => none
  resolved : List (Nat × Outcome) := []

inductive Action where
  | issue (request : Request)
  | send (id : Nat)
  | serve
  | reply (id : Nat) (reply : Reply)
  | yield (id : Nat) (item : Json)
  | endStream (id : Nat)
  | sendFrame (id : Nat)
  | receive
  | route
  | deliver
  | sendCancel
  | take (id : Nat)
  | drop (id : Nat)

section Server

/-- `running.retain(|_, task| !task.is_finished())`. -/
def Connection.retain (conn : Connection) : Connection :=
  { conn with running := conn.running.filter fun id =>
      (conn.tasks id).any fun task => task.phase ≠ .finished }

def Connection.setTask (conn : Connection) (id : Nat) (task : Task) : Connection :=
  { conn with tasks := update conn.tasks id (some task) }

def Connection.abort (conn : Connection) (id : Nat) : Connection :=
  if id ∈ conn.running then
    { conn with
      running := conn.running.erase id
      tasks := update conn.tasks id
        ((conn.tasks id).map fun task => { task with phase := .finished }) }
  else conn

def Connection.spawn (conn : Connection) (id : Nat) (method : String) (params : Json) :
    Connection :=
  { conn.setTask id { method, params } with running := id :: conn.running.erase id }

/-- One frame in the loop of `serve_connection`. -/
def Connection.serveFrame (conn : Connection) (frame : ClientFrame) : Connection :=
  let conn := conn.retain
  if frame.cancel then conn.abort frame.id
  else match frame.method with
    | none => conn
    | some method => conn.spawn frame.id method frame.params

/-- The frame a reply is sent in, and whether the task ends with it. -/
def Task.replied (task : Task) (id : Nat) (reply : Reply) : Task :=
  { task with
    reply := some reply
    phase := match reply with
      | .value value => .sending { id, ok := some value } true
      | .stream => .streaming
      | .error error => .sending { id, err := some error.text } true }

end Server

section Client

def Connection.forget (conn : Connection) (id : Nat) : Connection :=
  { conn with pending := update conn.pending id none }

/-- The sender of a pending request goes, with an outcome if the request is a call. -/
def Connection.settle (conn : Connection) (id : Nat) (outcome : Outcome) : Connection :=
  match conn.pending id with
  | some .call => { conn.forget id with resolved := conn.resolved ++ [(id, outcome)] }
  | _ => conn.forget id

/-- `route_frame` up to the wait for room. -/
def Connection.routeFrame (conn : Connection) (frame : ServerFrame) : Connection :=
  match frame.err with
  | some err => conn.settle frame.id (.error (.failed err))
  | none =>
    match frame.ok with
    | some value => conn.settle frame.id (.ok value)
    | none =>
      match frame.item with
      | some item =>
        if conn.pending frame.id = some .stream then
          { conn with reader := .delivering frame.id item }
        else conn
      | none => if frame.done then conn.settle frame.id (.error .closed) else conn

def Connection.setReceiver (conn : Connection) (id : Nat) (receiver : Receiver) : Connection :=
  { conn with receivers := update conn.receivers id (some receiver) }

end Client

section Step

variable (text : JsonText)

def ClientFrame.write (frame : ClientFrame) : List Char := text.write frame.toJson

def ServerFrame.write (frame : ServerFrame) : List Char := text.write frame.toJson

def Connection.issue (conn : Connection) (request : Request) : Connection :=
  { conn with
    requests := update conn.requests conn.nextId (some request)
    nextId := conn.nextId + 1
    pending := update conn.pending conn.nextId (some request.kind)
    sending := update conn.sending conn.nextId (some (request.frame conn.nextId))
    receivers := match request.kind with
      | .call => conn.receivers
      | .stream => update conn.receivers conn.nextId (some {}) }

/-- The frames of a payload, malformed lines being dropped. -/
def clientFrames (payload : List Char) : List ClientFrame :=
  (payloadLines payload).filterMap (ClientFrame.read text)

def serverFrames (lines : List (List Char)) : List ServerFrame :=
  lines.filterMap (ServerFrame.read text)

def step (conn : Connection) : Action → Option Connection
  | .issue request => some (conn.issue request)
  | .send id =>
    match conn.sending id with
    | some frame =>
      if conn.toServer.length < channelDepth then
        some { conn with
          sending := update conn.sending id none
          toServer := conn.toServer ++ [frame.write text] }
      else none
    | none => none
  | .serve =>
    match conn.toServer with
    | payload :: rest =>
      some ((clientFrames text payload).foldl Connection.serveFrame
        { conn with toServer := rest })
    | [] => none
  | .reply id reply =>
    match conn.tasks id with
    | some task =>
      if task.phase = .handling then some (conn.setTask id (task.replied id reply)) else none
    | none => none
  | .yield id item =>
    match conn.tasks id with
    | some task =>
      if task.phase = .streaming then
        some (conn.setTask id { task with
          items := task.items ++ [item]
          phase := .sending { id, item := some item } false })
      else none
    | none => none
  | .endStream id =>
    match conn.tasks id with
    | some task =>
      if task.phase = .streaming then
        some (conn.setTask id { task with
          ended := true
          phase := .sending { id, done := true } true })
      else none
    | none => none
  | .sendFrame id =>
    match conn.tasks id with
    | some task =>
      match task.phase with
      | .sending frame last =>
        if conn.toClient.length < channelDepth then
          some { conn.setTask id { task with
            phase := if last then .finished else .streaming } with
              toClient := conn.toClient ++ [frame.write text] }
        else none
      | _ => none
    | none => none
  | .receive =>
    if conn.reader = .idle ∧ conn.lines = [] then
      match conn.toClient with
      | payload :: rest => some { conn with toClient := rest, lines := payloadLines payload }
      | [] => none
    else none
  | .route =>
    if conn.reader = .idle then
      match conn.lines with
      | line :: rest =>
        match ServerFrame.read text line with
        | some frame => some ({ conn with lines := rest }.routeFrame frame)
        | none => some { conn with lines := rest }
      | [] => none
    else none
  | .deliver =>
    match conn.reader with
    | .delivering id item =>
      match conn.receivers id with
      | some receiver =>
        if receiver.dropped then
          some { conn.forget id with reader := .cancelling id }
        else if receiver.queue.length < STREAM_QUEUE_CAP then
          some { conn.setReceiver id { receiver with
            queue := receiver.queue ++ [item] } with reader := .idle }
        else none
      | none => none
    | _ => none
  | .sendCancel =>
    match conn.reader with
    | .cancelling id =>
      if conn.toServer.length < channelDepth then
        some { conn with
          reader := .idle
          toServer := conn.toServer ++
            [ClientFrame.write text { id, cancel := true }] }
      else none
    | _ => none
  | .take id =>
    match conn.receivers id with
    | some receiver =>
      match receiver.queue with
      | item :: rest =>
        if receiver.dropped then none
        else some (conn.setReceiver id { receiver with
          queue := rest, taken := receiver.taken ++ [item] })
      | [] => none
    | none => none
  | .drop id =>
    match conn.receivers id with
    | some receiver => some (conn.setReceiver id { receiver with dropped := true })
    | none => none

/-- The ways a step goes, each with what it needs. -/
inductive Fired (conn : Connection) : Action → Connection → Prop where
  | issue (request : Request) : Fired conn (.issue request) (conn.issue request)
  | send {id : Nat} {frame : ClientFrame} (hsending : conn.sending id = some frame)
      (hroom : conn.toServer.length < channelDepth) : Fired conn (.send id) { conn with
        sending := update conn.sending id none
        toServer := conn.toServer ++ [frame.write text] }
  | serve {payload : List Char} {rest : List (List Char)} (hpayload :
    conn.toServer = payload :: rest) :
      Fired conn .serve ((clientFrames text payload).foldl Connection.serveFrame
        { conn with toServer := rest })
  | reply {id : Nat} {task : Task} (reply : Reply) (htask : conn.tasks id = some task)
      (hphase : task.phase = .handling) :
      Fired conn (.reply id reply) (conn.setTask id (task.replied id reply))
  | yield {id : Nat} {task : Task} (item : Json) (htask : conn.tasks id = some task)
      (hphase : task.phase = .streaming) : Fired conn (.yield id item) (conn.setTask id { task with
        items := task.items ++ [item]
        phase := .sending { id, item := some item } false })
  | endStream {id : Nat} {task : Task} (htask : conn.tasks id = some task)
      (hphase : task.phase = .streaming) : Fired conn (.endStream id) (conn.setTask id { task with
        ended := true
        phase := .sending { id, done := true } true })
  | sendFrame {id : Nat} {task : Task} {frame : ServerFrame} {last : Bool}
      (htask : conn.tasks id = some task) (hphase : task.phase = .sending frame last)
      (hroom : conn.toClient.length < channelDepth) :
      Fired conn (.sendFrame id) { conn.setTask id { task with
        phase := if last then .finished else .streaming } with
          toClient := conn.toClient ++ [frame.write text] }
  | receive {payload : List Char} {rest : List (List Char)} (hidle : conn.reader = .idle)
      (hlines : conn.lines = []) (hpayload : conn.toClient = payload :: rest) :
      Fired conn .receive { conn with toClient := rest, lines := payloadLines payload }
  | route {line : List Char} {rest : List (List Char)} {frame : ServerFrame}
      (hidle : conn.reader = .idle) (hlines : conn.lines = line :: rest)
      (hread : ServerFrame.read text line = some frame) :
      Fired conn .route ({ conn with lines := rest }.routeFrame frame)
  | skip {line : List Char} {rest : List (List Char)} (hidle : conn.reader = .idle)
      (hlines : conn.lines = line :: rest) (hread : ServerFrame.read text line = none) :
      Fired conn .route { conn with lines := rest }
  | refuse {id : Nat} {item : Json} {receiver : Receiver} (hreader : conn.reader = .delivering id item)
      (hreceiver : conn.receivers id = some receiver) (hdropped : receiver.dropped = true) :
      Fired conn .deliver { conn.forget id with reader := .cancelling id }
  | deliver {id : Nat} {item : Json} {receiver : Receiver}
      (hreader : conn.reader = .delivering id item) (hreceiver : conn.receivers id = some receiver)
      (hkept : receiver.dropped = false) (hroom : receiver.queue.length < STREAM_QUEUE_CAP) :
      Fired conn .deliver { conn.setReceiver id { receiver with
        queue := receiver.queue ++ [item] } with reader := .idle }
  | sendCancel {id : Nat} (hreader : conn.reader = .cancelling id)
      (hroom : conn.toServer.length < channelDepth) : Fired conn .sendCancel { conn with
        reader := .idle
        toServer := conn.toServer ++ [ClientFrame.write text { id, cancel := true }] }
  | take {id : Nat} {receiver : Receiver} {item : Json} {rest : List Json}
      (hreceiver : conn.receivers id = some receiver) (hqueue : receiver.queue = item :: rest)
      (hkept : receiver.dropped = false) : Fired conn (.take id) (conn.setReceiver id { receiver with
        queue := rest, taken := receiver.taken ++ [item] })
  | drop {id : Nat} {receiver : Receiver} (hreceiver : conn.receivers id = some receiver) :
      Fired conn (.drop id) (conn.setReceiver id { receiver with dropped := true })

variable {text}

theorem step_fired {conn conn' : Connection} {action : Action}
    (hstep : step text conn action = some conn') : Fired text conn action conn' := by
  cases action with
  | issue request =>
    cases hstep
    exact .issue request
  | send id =>
    simp only [step] at hstep
    split at hstep
    next frame hsending =>
      split at hstep
      next hroom => cases hstep; exact .send hsending hroom
      · cases hstep
    · cases hstep
  | serve =>
    simp only [step] at hstep
    split at hstep
    next payload rest hpayload => cases hstep; exact .serve hpayload
    · cases hstep
  | reply id reply =>
    simp only [step] at hstep
    split at hstep
    next task htask =>
      split at hstep
      next hphase => cases hstep; exact .reply reply htask hphase
      · cases hstep
    · cases hstep
  | yield id item =>
    simp only [step] at hstep
    split at hstep
    next task htask =>
      split at hstep
      next hphase => cases hstep; exact .yield item htask hphase
      · cases hstep
    · cases hstep
  | endStream id =>
    simp only [step] at hstep
    split at hstep
    next task htask =>
      split at hstep
      next hphase => cases hstep; exact .endStream htask hphase
      · cases hstep
    · cases hstep
  | sendFrame id =>
    simp only [step] at hstep
    split at hstep
    next task htask =>
      split at hstep
      next frame last hphase =>
        split at hstep
        next hroom => cases hstep; exact .sendFrame htask hphase hroom
        · cases hstep
      · cases hstep
    · cases hstep
  | receive =>
    simp only [step] at hstep
    split at hstep
    next hidle =>
      split at hstep
      next payload rest hpayload => cases hstep; exact .receive hidle.1 hidle.2 hpayload
      · cases hstep
    · cases hstep
  | route =>
    simp only [step] at hstep
    split at hstep
    next hidle =>
      split at hstep
      next line rest hlines =>
        split at hstep
        next frame hread => cases hstep; exact .route hidle hlines hread
        next hread => cases hstep; exact .skip hidle hlines hread
      · cases hstep
    · cases hstep
  | deliver =>
    simp only [step] at hstep
    split at hstep
    next id item hreader =>
      split at hstep
      next receiver hreceiver =>
        split at hstep
        next hdropped => cases hstep; exact .refuse hreader hreceiver hdropped
        next hkept =>
          split at hstep
          next hroom =>
            cases hstep
            exact .deliver hreader hreceiver (Bool.eq_false_of_not_eq_true hkept) hroom
          · cases hstep
      · cases hstep
    · cases hstep
  | sendCancel =>
    simp only [step] at hstep
    split at hstep
    next id hreader =>
      split at hstep
      next hroom => cases hstep; exact .sendCancel hreader hroom
      · cases hstep
    · cases hstep
  | take id =>
    simp only [step] at hstep
    split at hstep
    next receiver hreceiver =>
      split at hstep
      next item rest hqueue =>
        split at hstep
        · cases hstep
        next hkept =>
          cases hstep
          exact .take hreceiver hqueue (Bool.eq_false_of_not_eq_true hkept)
      · cases hstep
    · cases hstep
  | drop id =>
    simp only [step] at hstep
    split at hstep
    next receiver hreceiver => cases hstep; exact .drop hreceiver
    · cases hstep

end Step

end Rpc

end Keel
