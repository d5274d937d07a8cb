import Keel.Sync.ChatClient

/-! # The invariant behind a chat client's cursor

A row is accounted for when the client pushed it, when it does not parse, or when the
document holds it. What a frame on its way announces is accounted for, or is on its way
before it. Steps that only let the room and the document grow keep all of this.
-/

namespace Keel.Chat2

open List

variable {Op : Type}

def DocGrows (doc grown : Option (List Op)) : Prop :=
  ∀ ops, grown = some ops → ∃ old, doc = some old ∧ old ⊆ ops

/-- The row was pushed by the client, or what it holds is in the document. -/
def Accounted (crdt : Crdt Op) (doc : Option (List Op)) (row : ChatRow) : Prop :=
  row.origin = .thisClient ∨
    ∀ ops added, doc = some ops → crdt.parse row.payload = some added → added ⊆ ops

/-- The first `count` rows are accounted for or in the queue. -/
def Covered (crdt : Crdt Op) (doc : Option (List Op)) (rows : List ChatRow)
    (queue : List ServerFrame) (count : Nat) : Prop :=
  ∀ (index : Nat) (row : ChatRow), index < count → rows[index]? = some row →
    Accounted crdt doc row ∨ ServerFrame.row (index + 1) row.payload ∈ queue

/-- A checkpoint holds what the rows up to its number hold, and its frontier is not
behind it. -/
structure CheckpointCovers (crdt : Crdt Op) (rows : List ChatRow) (checkpoint : Checkpoint) :
    Prop where
  seq_le : checkpoint.seq ≤ rows.length
  frontier_ne : checkpoint.frontier ≠ []
  blob : ∀ content, crdt.parse checkpoint.blob = some content →
    ∀ index row added, index < checkpoint.seq → rows[index]? = some row →
      crdt.parse row.payload = some added → added ⊆ content
  frontier : ∀ covered, crdt.version checkpoint.frontier = some covered →
    ∀ index row added, index < checkpoint.seq → rows[index]? = some row →
      crdt.parse row.payload = some added → added ⊆ covered

/-- The rows of earlier processes of the device are among the first `count`. -/
def EarlierBelow (rows : List ChatRow) (count : Nat) : Prop :=
  ∀ (index : Nat) (row : ChatRow), rows[index]? = some row → row.origin = .earlierProcess →
    index < count

/-- What a frame announces, with the frames before it. -/
def FrameOk (crdt : Crdt Op) (system : ChatSystem Op) (earlier : List ServerFrame) :
    ServerFrame → Prop
  | .row seq payload => seq ≤ system.room.rows.length ∧
      (system.based = true → Covered crdt system.client.sink.doc system.room.rows
        (earlier ++ [.row seq payload]) seq)
  | .ack _ seq => seq ≤ system.room.rows.length ∧
      (system.based = true →
        Covered crdt system.client.sink.doc system.room.rows earlier seq)
  | .rowsDone headSeq => headSeq ≤ system.room.rows.length ∧
      EarlierBelow system.room.rows headSeq ∧
      (system.based = true →
        Covered crdt system.client.sink.doc system.room.rows earlier headSeq)
  | .state _ _ | .error _ _ | .other => True

def QueueOk (crdt : Crdt Op) (system : ChatSystem Op) :
    List ServerFrame → List ServerFrame → Prop
  | _, [] => True
  | earlier, frame :: rest =>
    FrameOk crdt system earlier frame ∧ QueueOk crdt system (earlier ++ [frame]) rest

def ServerFrame.isQuiet : ServerFrame → Bool
  | .row _ _ | .ack _ _ | .rowsDone _ => false
  | _ => true

/-- What the client may rely on in a state header. -/
structure HeaderOk (room : ChatRoom) (header : StateHeader) : Prop where
  head_le : header.headSeq ≤ room.rows.length
  checkpoint_le : header.checkpointSeq ≤ header.headSeq
  fetch : header.checkpointSize ≠ 0 → ∃ checkpoint, room.checkpoint = some checkpoint ∧
    header.checkpointSeq ≤ checkpoint.seq

/-- What the client may rely on in the frontier of a state frame. -/
def FrontierOk (crdt : Crdt Op) (rows : List ChatRow) (header : StateHeader)
    (frontier : List UInt8) : Prop :=
  header.checkpointSize ≠ 0 → frontier ≠ [] ∧
    ∀ covered, crdt.version frontier = some covered →
      ∀ index row added, index < header.checkpointSeq → rows[index]? = some row →
        crdt.parse row.payload = some added → added ⊆ covered

/-- The rows of earlier processes are in the document. -/
def EarlierOk (crdt : Crdt Op) (system : ChatSystem Op) : Prop :=
  system.based = true → ∀ (index : Nat) (row : ChatRow), system.room.rows[index]? = some row →
    row.origin = .earlierProcess → Accounted crdt system.client.sink.doc row

/-- Before rows are asked for. -/
structure Joining (system : ChatSystem Op) (session : Session) : Prop where
  scan : session.scan = none
  done : session.done = false
  cursor : system.client.cursor = session.helloCursor
  quiet : ∀ frame ∈ session.inbound, frame.isQuiet = true

/-- Rows were asked for and the server has not seen it. -/
structure Requested (crdt : Crdt Op) (system : ChatSystem Op) (session : Session) (after : Nat)
    (excludeOwn : Bool) : Prop where
  outbound : session.outbound = [.rowsReq after excludeOwn]
  scan : session.scan = none
  done : session.done = false
  quiet : ∀ frame ∈ session.inbound, frame.isQuiet = true
  after_le : after ≤ system.room.rows.length
  covered : system.based = true →
    Covered crdt system.client.sink.doc system.room.rows [] after
  earlier : excludeOwn = true → EarlierOk crdt system

/-- The server is sending rows. -/
structure Scanning (crdt : Crdt Op) (system : ChatSystem Op) (session : Session) (sent : Nat)
    (excludeOwn : Bool) : Prop where
  outbound : ∀ frame ∈ session.outbound, ∃ push, frame = .push push
  scan : session.scan = some (sent, excludeOwn)
  sent_le : sent ≤ system.room.rows.length
  covered : system.based = true →
    Covered crdt system.client.sink.doc system.room.rows session.inbound sent
  earlier : excludeOwn = true → EarlierOk crdt system
  queue : QueueOk crdt system [] session.inbound

/-- What a connection relies on, by how far it has come. -/
inductive SessionOk (crdt : Crdt Op) (system : ChatSystem Op) (session : Session) : Prop
  | hello {cursor : Nat} (hphase : session.phase = .hello) (hjoining : Joining system session)
      (houtbound : session.outbound = [.hello cursor])
      (hstates : ∀ header frontier, .state header frontier ∉ session.inbound)
  | answered (hphase : session.phase = .hello) (hjoining : Joining system session)
      (houtbound : session.outbound = [])
      (hstates : ∀ header frontier, .state header frontier ∈ session.inbound →
        HeaderOk system.room header ∧ FrontierOk crdt system.room.rows header frontier)
  | fetching {header : StateHeader} (hphase : session.phase = .fetching header)
      (hjoining : Joining system session) (houtbound : session.outbound = [])
      (hsize : header.checkpointSize ≠ 0) (hheader : HeaderOk system.room header)
  | requested {after : Nat} {excludeOwn : Bool} (hphase : session.phase = .backfill)
      (hcursor : system.client.cursor ≤ system.room.rows.length)
      (hrequested : Requested crdt system session after excludeOwn)
  | scanning {sent : Nat} {excludeOwn : Bool}
      (hphase : session.phase = .backfill ∨ session.phase = .steady)
      (hcursor : system.client.cursor ≤ system.room.rows.length)
      (hscanning : Scanning crdt system session sent excludeOwn)

/-- The invariant of a client and its room. -/
structure CursorInv (crdt : Crdt Op) (system : ChatSystem Op) : Prop where
  checkpoint : ∀ checkpoint, system.room.checkpoint = some checkpoint →
    CheckpointCovers crdt system.room.rows checkpoint
  cursor : system.based = true → system.client.cursor ≤ system.room.rows.length ∧
    Covered crdt system.client.sink.doc system.room.rows [] system.client.cursor
  caughtUp : ∀ headSeq, system.caughtUp = some headSeq →
    headSeq ≤ system.room.rows.length ∧ EarlierBelow system.room.rows headSeq ∧
      (system.based = true →
        Covered crdt system.client.sink.doc system.room.rows [] headSeq)
  resumed : system.client.resumed = true → system.caughtUp = none →
    EarlierBelow system.room.rows 0
  stale : system.based = false → EarlierBelow system.room.rows 0
  live : ∀ session, system.session = some session → session.live = true →
    SessionOk crdt system session
  dead : ∀ session, system.session = some session → session.live = false →
    system.based = false ∧ system.caughtUp = none

section Growth

variable {crdt : Crdt Op} {system next : ChatSystem Op}

/-- Rows are added at the end and none of an earlier process, the document grows or
is gone, and the checkpoint is not replaced by an older one. -/
structure Grows (system next : ChatSystem Op) : Prop where
  rows : system.room.rows <+: next.room.rows
  fresh : ∀ (index : Nat) (row : ChatRow), next.room.rows[index]? = some row →
    row.origin = .earlierProcess →
    index < system.room.rows.length
  doc : DocGrows system.client.sink.doc next.client.sink.doc
  based : next.based = system.based
  caughtUp : next.caughtUp = system.caughtUp
  checkpoint : ∀ checkpoint, system.room.checkpoint = some checkpoint →
    ∃ later, next.room.checkpoint = some later ∧ checkpoint.seq ≤ later.seq

theorem Grows.row (hgrows : Grows system next) {index : Nat} {row : ChatRow}
    (hindex : index < system.room.rows.length) (hrow : next.room.rows[index]? = some row) :
    system.room.rows[index]? = some row := by
  obtain ⟨added, hadded⟩ := hgrows.rows
  rwa [← hadded, getElem?_append_left hindex] at hrow

theorem DocGrows.refl (doc : Option (List Op)) : DocGrows doc doc :=
  fun ops hdoc => ⟨ops, hdoc, List.Subset.refl ops⟩

theorem Accounted.mono {doc grown : Option (List Op)} {row : ChatRow}
    (hrow : Accounted crdt doc row) (hgrows : DocGrows doc grown) : Accounted crdt grown row := by
  rcases hrow with hown | hheld
  · exact .inl hown
  · refine .inr fun ops added hgrown hparse => ?_
    obtain ⟨old, hold, hsubset⟩ := hgrows ops hgrown
    exact List.Subset.trans (hheld old added hold hparse) hsubset

section
variable (hgrows : Grows system next)
include hgrows

theorem Grows.covered {queue : List ServerFrame} {count : Nat}
    (hcount : count ≤ system.room.rows.length)
    (hcovered : Covered crdt system.client.sink.doc system.room.rows queue count) :
    Covered crdt next.client.sink.doc next.room.rows queue count := by
  intro index row hindex hrow
  rcases hcovered index row hindex (hgrows.row (Nat.lt_of_lt_of_le hindex hcount) hrow) with
    haccounted | hqueued
  · exact .inl (haccounted.mono hgrows.doc)
  · exact .inr hqueued

theorem Grows.length_le : system.room.rows.length ≤ next.room.rows.length := hgrows.rows.length_le

theorem Grows.earlierBelow {count : Nat} (hearlier : EarlierBelow system.room.rows count) :
    EarlierBelow next.room.rows count := by
  intro index row hrow horigin
  have hindex := hgrows.fresh index row hrow horigin
  exact hearlier index row (hgrows.row hindex hrow) horigin

theorem Grows.earlierOk (hearlier : EarlierOk crdt system) : EarlierOk crdt next := by
  intro hbased index row hrow horigin
  rw [hgrows.based] at hbased
  have hindex := hgrows.fresh index row hrow horigin
  exact (hearlier hbased index row (hgrows.row hindex hrow) horigin).mono hgrows.doc

theorem Grows.frameOk {earlier : List ServerFrame} {frame : ServerFrame}
    (hframe : FrameOk crdt system earlier frame) : FrameOk crdt next earlier frame := by
  cases frame with
  | row seq payload | ack batchId seq =>
    refine ⟨Nat.le_trans hframe.1 hgrows.length_le, fun hbased => ?_⟩
    rw [hgrows.based] at hbased
    exact hgrows.covered hframe.1 (hframe.2 hbased)
  | rowsDone headSeq =>
    refine ⟨Nat.le_trans hframe.1 hgrows.length_le, hgrows.earlierBelow hframe.2.1,
      fun hbased => ?_⟩
    rw [hgrows.based] at hbased
    exact hgrows.covered hframe.1 (hframe.2.2 hbased)
  | state header frontier | error code batchId | other => trivial

theorem Grows.queueOk {earlier queue : List ServerFrame}
    (hqueue : QueueOk crdt system earlier queue) : QueueOk crdt next earlier queue := by
  induction queue generalizing earlier with
  | nil => trivial
  | cons frame rest ih => exact ⟨hgrows.frameOk hqueue.1, ih hqueue.2⟩

theorem Grows.headerOk {header : StateHeader} (hheader : HeaderOk system.room header) :
    HeaderOk next.room header := by
  refine ⟨Nat.le_trans hheader.head_le hgrows.length_le, hheader.checkpoint_le, fun hsize => ?_⟩
  obtain ⟨checkpoint, hcheckpoint, hseq⟩ := hheader.fetch hsize
  obtain ⟨later, hlater, hle⟩ := hgrows.checkpoint checkpoint hcheckpoint
  exact ⟨later, hlater, Nat.le_trans hseq hle⟩

theorem Grows.frontierOk {header : StateHeader} {frontier : List UInt8}
    (hseq : header.checkpointSeq ≤ system.room.rows.length)
    (hfrontier : FrontierOk crdt system.room.rows header frontier) :
    FrontierOk crdt next.room.rows header frontier := by
  intro hsize
  obtain ⟨hne, hcovers⟩ := hfrontier hsize
  refine ⟨hne, fun covered hversion index row added hindex hrow hparse => ?_⟩
  exact hcovers covered hversion index row added hindex
    (hgrows.row (Nat.lt_of_lt_of_le hindex hseq) hrow) hparse

theorem Grows.scanning {session : Session} {sent : Nat} {excludeOwn : Bool}
    (hscanning : Scanning crdt system session sent excludeOwn) :
    Scanning crdt next session sent excludeOwn := by
  refine ⟨hscanning.outbound, hscanning.scan, Nat.le_trans hscanning.sent_le hgrows.length_le,
    fun hbased => ?_, fun hexclude => hgrows.earlierOk (hscanning.earlier hexclude),
    hgrows.queueOk hscanning.queue⟩
  rw [hgrows.based] at hbased
  exact hgrows.covered hscanning.sent_le (hscanning.covered hbased)

theorem Grows.requested {session : Session} {after : Nat} {excludeOwn : Bool}
    (hrequested : Requested crdt system session after excludeOwn) :
    Requested crdt next session after excludeOwn := by
  refine ⟨hrequested.outbound, hrequested.scan, hrequested.done, hrequested.quiet,
    Nat.le_trans hrequested.after_le hgrows.length_le, fun hbased => ?_,
    fun hexclude => hgrows.earlierOk (hrequested.earlier hexclude)⟩
  rw [hgrows.based] at hbased
  exact hgrows.covered hrequested.after_le (hrequested.covered hbased)

theorem Grows.sessionOk (hcursor : next.client.cursor = system.client.cursor) {session : Session}
    (hsession : SessionOk crdt system session) : SessionOk crdt next session := by
  have hjoined : Joining system session → Joining next session := fun hjoining =>
    ⟨hjoining.scan, hjoining.done, hcursor.trans hjoining.cursor, hjoining.quiet⟩
  have hbounded : system.client.cursor ≤ system.room.rows.length →
      next.client.cursor ≤ next.room.rows.length := fun hle =>
    hcursor ▸ Nat.le_trans hle hgrows.length_le
  cases hsession with
  | hello hphase hjoining houtbound hstates =>
    exact .hello hphase (hjoined hjoining) houtbound hstates
  | answered hphase hjoining houtbound hstates =>
    refine .answered hphase (hjoined hjoining) houtbound fun header frontier hmem => ?_
    obtain ⟨hheader, hfrontier⟩ := hstates header frontier hmem
    have hseq := Nat.le_trans hheader.checkpoint_le hheader.head_le
    exact ⟨hgrows.headerOk hheader, hgrows.frontierOk hseq hfrontier⟩
  | fetching hphase hjoining houtbound hsize hheader =>
    exact .fetching hphase (hjoined hjoining) houtbound hsize (hgrows.headerOk hheader)
  | requested hphase hle hrequested =>
    exact .requested hphase (hbounded hle) (hgrows.requested hrequested)
  | scanning hphase hle hscanning =>
    exact .scanning hphase (hbounded hle) (hgrows.scanning hscanning)

end

/-- A step that leaves the cursor alone keeps the invariant if it only lets the
system grow and changes the session to one that is as good. -/
theorem CursorInv.of_grows (hinv : CursorInv crdt system) (hgrows : Grows system next)
    (hcursor : next.client.cursor = system.client.cursor)
    (hresumed : next.client.resumed = system.client.resumed)
    (hcheckpoint : ∀ checkpoint, next.room.checkpoint = some checkpoint →
      CheckpointCovers crdt next.room.rows checkpoint)
    (hlive : ∀ session, next.session = some session → session.live = true →
      SessionOk crdt system session)
    (hdead : ∀ session, next.session = some session → session.live = false →
      ∃ old, system.session = some old ∧ old.live = false) : CursorInv crdt next := by
  refine ⟨hcheckpoint, fun hbased => ?_, fun headSeq hhead => ?_, fun hnext hnone => ?_,
    fun hstale => ?_, fun session hsession hsessionLive => ?_,
    fun session hsession hsessionDead => ?_⟩
  · rw [hgrows.based] at hbased
    obtain ⟨hle, hcovered⟩ := hinv.cursor hbased
    rw [hcursor]
    exact ⟨Nat.le_trans hle hgrows.length_le, hgrows.covered hle hcovered⟩
  · rw [hgrows.caughtUp] at hhead
    obtain ⟨hle, hearlier, hcovered⟩ := hinv.caughtUp headSeq hhead
    refine ⟨Nat.le_trans hle hgrows.length_le, hgrows.earlierBelow hearlier, fun hbased => ?_⟩
    rw [hgrows.based] at hbased
    exact hgrows.covered hle (hcovered hbased)
  · rw [hresumed] at hnext
    rw [hgrows.caughtUp] at hnone
    exact hgrows.earlierBelow (hinv.resumed hnext hnone)
  · rw [hgrows.based] at hstale
    exact hgrows.earlierBelow (hinv.stale hstale)
  · exact hgrows.sessionOk hcursor (hlive session hsession hsessionLive)
  · obtain ⟨old, hold, holdDead⟩ := hdead session hsession hsessionDead
    obtain ⟨hbased, hcaughtUp⟩ := hinv.dead old hold holdDead
    exact ⟨hgrows.based.trans hbased, hgrows.caughtUp.trans hcaughtUp⟩

end Growth

section Queue

variable {crdt : Crdt Op} {system : ChatSystem Op}

variable {queue : List ServerFrame} {frame : ServerFrame} {session : Session} {sent : Nat}
  {excludeOwn : Bool}

theorem Covered.mono {doc : Option (List Op)} {rows : List ChatRow}
    {more : List ServerFrame} {count fewer : Nat} (hcovered : Covered crdt doc rows queue count)
    (hcount : fewer ≤ count) (hqueue : queue ⊆ more) : Covered crdt doc rows more fewer := by
  intro index row hindex hrow
  rcases hcovered index row (Nat.lt_of_lt_of_le hindex hcount) hrow with haccounted | hqueued
  · exact .inl haccounted
  · exact .inr (hqueue hqueued)

theorem Covered.max {doc : Option (List Op)} {rows : List ChatRow} {queue : List ServerFrame}
    {left right : Nat} (hleft : Covered crdt doc rows queue left)
    (hright : Covered crdt doc rows queue right) :
    Covered crdt doc rows queue (max left right) := by
  intro index row hindex hrow
  rcases Nat.lt_or_ge index left with hlt | hge
  · exact hleft index row hlt hrow
  · exact hright index row (by omega) hrow

theorem Covered.succ {doc : Option (List Op)} {rows : List ChatRow} {count : Nat} {row : ChatRow}
    (hcovered : Covered crdt doc rows queue count) (hrow : rows[count]? = some row)
    (hnew : Accounted crdt doc row ∨ ServerFrame.row (count + 1) row.payload ∈ queue) :
    Covered crdt doc rows queue (count + 1) := by
  intro index other hindex hother
  rcases Nat.lt_or_eq_of_le (Nat.le_of_lt_succ hindex) with hlt | rfl
  · exact hcovered index other hlt hother
  · rw [hrow, Option.some.injEq] at hother
    exact hother ▸ hnew

theorem covered_zero (doc : Option (List Op)) (rows : List ChatRow) (queue : List ServerFrame) :
    Covered crdt doc rows queue 0 := by
  intro index row hindex
  exact absurd hindex (Nat.not_lt_zero index)

theorem QueueOk.append {earlier : List ServerFrame} (hqueue : QueueOk crdt system earlier queue)
    (hframe : FrameOk crdt system (earlier ++ queue) frame) :
    QueueOk crdt system earlier (queue ++ [frame]) := by
  induction queue generalizing earlier with
  | nil =>
    rw [append_nil] at hframe
    exact ⟨hframe, trivial⟩
  | cons first rest ih =>
    refine ⟨hqueue.1, ih hqueue.2 ?_⟩
    rwa [append_assoc, singleton_append]

theorem FrameOk.of_isQuiet {earlier : List ServerFrame}
    (hquiet : frame.isQuiet = true) : FrameOk crdt system earlier frame := by
  cases frame with
  | row seq payload | ack batchId seq | rowsDone headSeq => cases hquiet
  | state header frontier | error code batchId | other => trivial

section
variable {later : Session} (hscanning : Scanning crdt system session sent excludeOwn)
include hscanning

theorem Scanning.append (hframe : FrameOk crdt system session.inbound frame) :
    Scanning crdt system { session with inbound := session.inbound ++ [frame] } sent excludeOwn where
  outbound := hscanning.outbound
  scan := hscanning.scan
  sent_le := hscanning.sent_le
  covered hbased := (hscanning.covered hbased).mono (Nat.le_refl sent)
    (subset_append_left _ _)
  earlier := hscanning.earlier
  queue := hscanning.queue.append hframe

theorem Scanning.of_session (hscan : later.scan = session.scan)
    (hinbound : later.inbound = session.inbound)
    (houtbound : ∀ frame ∈ later.outbound, ∃ push, frame = .push push) :
    Scanning crdt system later sent excludeOwn where
  outbound := houtbound
  scan := hscan.trans hscanning.scan
  sent_le := hscanning.sent_le
  covered hbased := hinbound ▸ hscanning.covered hbased
  earlier := hscanning.earlier
  queue := hinbound ▸ hscanning.queue

end

section
variable (hsession : SessionOk crdt system session)
include hsession

theorem SessionOk.of_steady (hphase : session.phase = .steady) :
    system.client.cursor ≤ system.room.rows.length ∧
      ∃ sent excludeOwn, Scanning crdt system session sent excludeOwn := by
  cases hsession with
  | hello hother _ _ _ | answered hother _ _ _ | fetching hother _ _ _ _
  | requested hother _ _ => simp [hphase] at hother
  | scanning _ hcursor hscanning => exact ⟨hcursor, _, _, hscanning⟩

theorem SessionOk.of_backfill (hphase : session.phase = .backfill) :
    system.client.cursor ≤ system.room.rows.length ∧
      ((∃ after excludeOwn, Requested crdt system session after excludeOwn) ∨
        ∃ sent excludeOwn, Scanning crdt system session sent excludeOwn) := by
  cases hsession with
  | hello hother _ _ _ | answered hother _ _ _ | fetching hother _ _ _ _ => simp [hphase] at hother
  | requested _ hcursor hrequested => exact ⟨hcursor, .inl ⟨_, _, hrequested⟩⟩
  | scanning _ hcursor hscanning => exact ⟨hcursor, .inr ⟨_, _, hscanning⟩⟩

theorem SessionOk.of_fetching {header : StateHeader} (hphase : session.phase = .fetching header) :
    Joining system session ∧ session.outbound = [] ∧ header.checkpointSize ≠ 0 ∧
      HeaderOk system.room header := by
  cases hsession with
  | hello hother _ _ _ | answered hother _ _ _ => simp [hphase] at hother
  | fetching hsame hjoining houtbound hsize hheader =>
    rw [hphase, SessionPhase.fetching.injEq] at hsame
    subst hsame
    exact ⟨hjoining, houtbound, hsize, hheader⟩
  | requested hother _ _ | scanning hother _ _ => simp [hphase] at hother

theorem SessionOk.of_hello (hphase : session.phase = .hello) : Joining system session ∧
      ((∃ cursor, session.outbound = [.hello cursor]) ∧
          (∀ header frontier, .state header frontier ∉ session.inbound) ∨
        session.outbound = [] ∧ ∀ header frontier, .state header frontier ∈ session.inbound →
          HeaderOk system.room header ∧ FrontierOk crdt system.room.rows header frontier) := by
  cases hsession with
  | hello _ hjoining houtbound hstates => exact ⟨hjoining, .inl ⟨⟨_, houtbound⟩, hstates⟩⟩
  | answered _ hjoining houtbound hstates => exact ⟨hjoining, .inr ⟨houtbound, hstates⟩⟩
  | fetching hother _ _ _ _ | requested hother _ _ | scanning hother _ _ => simp [hphase] at hother

end

theorem Scanning.head_push {frame : ClientFrame} {rest : List ClientFrame}
    (hscanning : Scanning crdt system session sent excludeOwn)
    (houtbound : session.outbound = frame :: rest) : ∃ push, frame = .push push :=
  hscanning.outbound frame (houtbound ▸ mem_cons_self)

variable (hsession : SessionOk crdt system session)
include hsession

theorem SessionOk.scanning_of_push {push : PendingPush} {rest : List ClientFrame}
    (houtbound : session.outbound = .push push :: rest) :
    (session.phase = .backfill ∨ session.phase = .steady) ∧
      system.client.cursor ≤ system.room.rows.length ∧
      ∃ sent excludeOwn, Scanning crdt system session sent excludeOwn := by
  cases hsession with
  | hello _ _ hother _ | answered _ _ hother _ | fetching _ _ hother _ _ =>
    simp [houtbound] at hother
  | requested _ _ hrequested =>
    have hother := hrequested.outbound
    simp [houtbound] at hother
  | scanning hphase hcursor hscanning => exact ⟨hphase, hcursor, _, _, hscanning⟩

theorem SessionOk.scanning_of_scan (hscan : session.scan = some (sent, excludeOwn)) :
    (session.phase = .backfill ∨ session.phase = .steady) ∧
      system.client.cursor ≤ system.room.rows.length ∧
      Scanning crdt system session sent excludeOwn := by
  cases hsession with
  | hello _ hjoining _ _ | answered _ hjoining _ _ | fetching _ hjoining _ _ _ =>
    simp [hjoining.scan] at hscan
  | requested _ _ hrequested => simp [hrequested.scan] at hscan
  | scanning hphase hcursor hscanning =>
    have hsame := hscanning.scan
    simp only [hscan, Option.some.injEq, Prod.mk.injEq] at hsame
    obtain ⟨rfl, rfl⟩ := hsame
    exact ⟨hphase, hcursor, hscanning⟩

end Queue

end Keel.Chat2
