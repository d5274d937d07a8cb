import Keel.Dsh.Session

/-! # The agent inbox

Two lists of pending messages, next to a session. A change is written to the session as a
normalised splice before it is made, and an inbox is built from a session by replaying the
splices behind the seed of its log.
-/

namespace Keel.AgentInbox

open List

open Session (Message Event EventData)
open Session (Session Fault SurfaceIntent)

inductive InboxTarget where
  | nextTurn
  | nextStep
deriving DecidableEq

inductive SpliceOutcome where
  | canceled

/-- One normalised change of a list. -/
structure InboxSplice where
  target : InboxTarget
  start : Nat
  removedCount : Option Nat := none
  inserted : List Message
  outcome : Option SpliceOutcome := none

def inboxSplicedEvent : String := "agent/inbox/spliced"

/-- How a splice is written as a JSON value, and read from one. -/
structure SpliceCodec where
  toValue : InboxSplice → Json
  fromValue : Json → Option InboxSplice

section Events

variable (codec : SpliceCodec)

def InboxSplice.toEventData (splice : InboxSplice) : EventData :=
  .extension inboxSplicedEvent (codec.toValue splice)

/-- `none` for an event that is not a splice, or not a readable one. -/
def InboxSplice.fromEvent (event : Event) : Option InboxSplice :=
  match event.data with
  | .extension eventType data =>
    if eventType = inboxSplicedEvent then codec.fromValue data else none
  | _ => none

end Events

/-- The first id that repeats one before it, or one seen. -/
def firstRepeated (seen : List String) : List String → Option String
  | [] => none
  | id :: rest => if id ∈ seen then some id else firstRepeated (id :: seen) rest

/-- The two pending lists. -/
structure Pending where
  nextTurn : List Message := []
  nextStep : List Message := []

namespace Pending

def list (pending : Pending) : InboxTarget → List Message
  | .nextTurn => pending.nextTurn
  | .nextStep => pending.nextStep

def otherList (pending : Pending) : InboxTarget → List Message
  | .nextTurn => pending.nextStep
  | .nextStep => pending.nextTurn

def setList (pending : Pending) (messages : List Message) : InboxTarget → Pending
  | .nextTurn => { pending with nextTurn := messages }
  | .nextStep => { pending with nextStep := messages }

def hasPending (pending : Pending) : Bool :=
  !pending.nextTurn.isEmpty || !pending.nextStep.isEmpty

def spliced (pending : Pending) (splice : InboxSplice) : List Message :=
  (pending.list splice.target).take splice.start ++ splice.inserted ++
    (pending.list splice.target).drop (splice.start + splice.removedCount.getD 0)

/-- The messages a splice takes out, and the lists it leaves. -/
def apply (pending : Pending) (splice : InboxSplice) : List Message × Pending :=
  (((pending.list splice.target).drop splice.start).take (splice.removedCount.getD 0),
    pending.setList (pending.spliced splice) splice.target)

/-- A splice stays inside its list, and leaves no id pending twice. -/
def validate (pending : Pending) (splice : InboxSplice) : Except String Unit :=
  if (pending.list splice.target).length < splice.start + splice.removedCount.getD 0 then
    .error "invalid inbox splice"
  else
    let candidateIds := (pending.spliced splice).map (·.id)
    let otherIds := (pending.otherList splice.target).map (·.id)
    match firstRepeated [] (candidateIds ++ otherIds) with
    | some id => .error ("message \"" ++ id ++ "\" is already pending")
    | none => .ok ()

def locate (pending : Pending) (messageId : String) : Option (InboxTarget × Nat) :=
  [InboxTarget.nextTurn, .nextStep].findSome? fun target =>
    ((pending.list target).findIdx? (·.id == messageId)).map fun index => (target, index)

/-- The splice of standard splice arguments; `none` when nothing changes. -/
def normalize (pending : Pending) (target : InboxTarget) (start deleteCount : Nat)
    (inserted : List Message) (discardRemoved : Bool) : Option InboxSplice :=
  let len := (pending.list target).length
  let actualStart := min start len
  let actualDelete := min deleteCount (len - actualStart)
  if actualDelete = 0 ∧ inserted = [] then none
  else some {
    target, start := actualStart
    removedCount := if 0 < actualDelete then some actualDelete else none
    inserted
    outcome := if discardRemoved ∧ 0 < actualDelete then some .canceled else none }

end Pending

/-- What the owner of an inbox is told. -/
inductive Notification where
  | inserted (message : Message)
  | discarded (message : Message)
  | claimed (message : Message) (turn : Nat)

structure Inbox where
  session : Session
  pending : Pending := {}
  notified : List Notification := []

namespace Inbox

section Replay

variable (codec : SpliceCodec)

/-- One step of the loop of `new`. -/
def load (pending : Pending) (event : Event) : Except String Pending :=
  match InboxSplice.fromEvent codec event with
  | none => .ok pending
  | some splice =>
    match pending.validate splice with
    | .error error =>
      .error ("invalid persisted inbox splice at session seq " ++ toString event.seq ++ ": " ++
        error)
    | .ok () => .ok (pending.apply splice).2

/-- The lists the splices of a log leave. -/
def replay (seedBoundary : Nat) (log : List Event) : Except String Pending :=
  (log.drop seedBoundary).foldlM (load codec) {}

def new (session : Session) : Except String Inbox := do
  let pending ← replay codec (session.header.seedLength.getD 0) session.log
  pure { session, pending }

end Replay

section Operations

variable (codec : SpliceCodec) (clock : Nat → Nat)

/-- A change: the durable event first, the lists second, the notifications last. -/
def mutate (inbox : Inbox) (target : InboxTarget) (start deleteCount : Nat)
    (inserted : List Message) (discardRemoved : Bool) : Except Fault (List Message) × Inbox :=
  match inbox.pending.normalize target start deleteCount inserted discardRemoved with
  | none => (.ok [], inbox)
  | some splice =>
    match inbox.pending.validate splice with
    | .error error => (.error (.refused error), inbox)
    | .ok () =>
      match inbox.session.append (clock inbox.session.log.length)
          (splice.toEventData codec) {} with
      | (.error fault, session) => (.error fault, { inbox with session })
      | (.ok _, session) =>
        let (removed, pending) := inbox.pending.apply splice
        let discarded := if discardRemoved then removed.map Notification.discarded else []
        (.ok removed, {
          session := session.published, pending
          notified := inbox.notified ++ discarded ++ inserted.map Notification.inserted })

def splice (inbox : Inbox) (target : InboxTarget) (start deleteCount : Nat)
    (inserted : List Message) : Except Fault (List Message) × Inbox :=
  inbox.mutate codec clock target start deleteCount inserted true

/-- Both lists are emptied, next-step first. -/
def clear (inbox : Inbox) : Except Fault Unit × Inbox :=
  match inbox.splice codec clock .nextStep 0 inbox.pending.nextStep.length [] with
  | (.error fault, inbox) => (.error fault, inbox)
  | (.ok _, inbox) =>
    let (result, inbox) := inbox.splice codec clock .nextTurn 0 inbox.pending.nextTurn.length []
    (result.map fun _ => (), inbox)

/-- The whole next-step list, and for a turn one message of the next-turn list. -/
def claim (inbox : Inbox) (target : InboxTarget) (turn : Nat) :
    Except Fault (List Message) × Inbox :=
  match inbox.mutate codec clock .nextStep 0 inbox.pending.nextStep.length [] false with
  | (.error fault, inbox) => (.error fault, inbox)
  | (.ok batch, inbox) =>
    let (queued, inbox) :=
      if target = .nextTurn then inbox.mutate codec clock .nextTurn 0 1 [] false
      else (.ok [], inbox)
    match queued with
    | .error fault => (.error fault, inbox)
    | .ok queued =>
      let claimed := batch ++ queued
      (.ok claimed, { inbox with
        notified := inbox.notified ++ claimed.map fun message => .claimed message turn })

def append (inbox : Inbox) (target : InboxTarget) (message : Message) :
    Except Fault Unit × Inbox :=
  let (result, inbox) :=
    inbox.splice codec clock target (inbox.pending.list target).length 0 [message]
  (result.map fun _ => (), inbox)

def prepend (inbox : Inbox) (target : InboxTarget) (message : Message) :
    Except Fault Unit × Inbox :=
  let (result, inbox) := inbox.splice codec clock target 0 0 [message]
  (result.map fun _ => (), inbox)

/-- Put a message, or none, in the place of a pending one. -/
def exchange (inbox : Inbox) (messageId : String) (inserted : List Message) :
    Except Fault Bool × Inbox :=
  match inbox.pending.locate messageId with
  | none => (.ok false, inbox)
  | some (target, index) =>
    let (result, inbox) := inbox.splice codec clock target index 1 inserted
    (result.map fun _ => true, inbox)

def replace (inbox : Inbox) (messageId : String) (newMessage : Message) :
    Except Fault Bool × Inbox := inbox.exchange codec clock messageId [newMessage]

def remove (inbox : Inbox) (messageId : String) : Except Fault Bool × Inbox :=
  inbox.exchange codec clock messageId []

end Operations

end Inbox

section Splices

theorem firstRepeated_eq_none {seen ids : List String} :
    firstRepeated seen ids = none ↔ ids.Nodup ∧ ∀ id ∈ ids, id ∉ seen := by
  induction ids generalizing seen with
  | nil => simp [firstRepeated]
  | cons id rest ih =>
    rw [firstRepeated]
    split
    next hseen => simp [hseen]
    next hseen =>
      rw [ih, nodup_cons]
      constructor
      · rintro ⟨hrest, hfresh⟩
        refine ⟨⟨fun hid => (hfresh id hid) mem_cons_self, hrest⟩, ?_⟩
        intro other hother
        rcases mem_cons.mp hother with rfl | hother
        · exact hseen
        · exact fun hold => hfresh other hother (mem_cons_of_mem id hold)
      · rintro ⟨⟨hid, hrest⟩, hfresh⟩
        refine ⟨hrest, fun other hother hold => ?_⟩
        rcases mem_cons.mp hold with rfl | hold
        · exact hid hother
        · exact hfresh other (mem_cons_of_mem id hother) hold

namespace Pending

def ids (pending : Pending) : List String :=
  pending.nextTurn.map (·.id) ++ pending.nextStep.map (·.id)

variable {pending : Pending} {splice : InboxSplice}

/-- A splice is taken exactly if it fits its list, and the ids behind it differ. -/
theorem validate_eq_ok : pending.validate splice = .ok () ↔
    splice.start + splice.removedCount.getD 0 ≤ (pending.list splice.target).length ∧
      (pending.apply splice).2.ids.Nodup := by
  have hids : (pending.apply splice).2.ids.Nodup ↔
      ((pending.spliced splice).map (·.id) ++
        (pending.otherList splice.target).map (·.id)).Nodup := by
    rw [apply, ids]
    cases splice.target with
    | nextTurn => rfl
    | nextStep => exact perm_append_comm.nodup_iff
  rw [validate, hids]
  split
  next hshort => simp only [reduceCtorEq, false_iff]; omega
  next hfits =>
    have hnone := @firstRepeated_eq_none [] ((pending.spliced splice).map (·.id) ++
      (pending.otherList splice.target).map (·.id))
    simp only [not_mem_nil, not_false_eq_true, implies_true, and_true] at hnone
    rw [← hnone]
    dsimp only
    split
    next id hrepeated => simp only [hrepeated, reduceCtorEq, and_false]
    next hrepeated => simp only [hrepeated, not_lt.mp hfits, and_self]

variable {target : InboxTarget} {start deleteCount : Nat} {inserted : List Message}
  {discardRemoved : Bool}

section
variable
    (hsplice : pending.normalize target start deleteCount inserted discardRemoved = some splice)
include hsplice

theorem normalize_spec : splice.target = target ∧ splice.inserted = inserted ∧
      splice.start = min start (pending.list target).length ∧
      splice.removedCount.getD 0 =
        min deleteCount ((pending.list target).length - min start (pending.list target).length) := by
  simp only [normalize] at hsplice
  split at hsplice
  · cases hsplice
  · cases hsplice
    refine ⟨rfl, rfl, rfl, ?_⟩
    dsimp only
    split
    · rfl
    next hnone => rw [Option.getD_none]; omega

theorem normalize_fits :
    splice.start + splice.removedCount.getD 0 ≤ (pending.list splice.target).length := by
  obtain ⟨htarget, -, hstart, hremoved⟩ := normalize_spec hsplice
  rw [htarget, hstart, hremoved]
  omega

end

theorem normalize_nil (hempty : pending.list target = []) :
    pending.normalize target start deleteCount [] discardRemoved = none := by
  simp [normalize, hempty]

theorem nodup_ids_of_removal (hids : pending.ids.Nodup) (hnone : splice.inserted = []) :
    (pending.apply splice).2.ids.Nodup := by
  have hsublist : (pending.spliced splice).Sublist (pending.list splice.target) := by
    rw [spliced, hnone, append_nil, ← Nat.add_zero splice.start]
    conv_rhs => rw [← take_append_drop splice.start (pending.list splice.target)]
    rw [Nat.add_zero, ← drop_drop]
    exact (List.Sublist.refl _).append (drop_sublist _ _)
  refine List.Nodup.sublist ?_ hids
  rw [apply, ids, ids]
  cases htarget : splice.target with
  | nextTurn =>
    rw [htarget] at hsublist
    exact (hsublist.map _).append (List.Sublist.refl _)
  | nextStep =>
    rw [htarget] at hsublist
    exact (List.Sublist.refl _).append (hsublist.map _)

end Pending

end Splices

end Keel.AgentInbox
