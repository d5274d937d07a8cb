import Keel.Sync.ChatServing

/-! # What a client makes of the frames

The cursor is moved by rows and acknowledgements, by an imported checkpoint and by the
clamp before a backfill. Each moves it to a number whose rows are then accounted for.
On a connection to a room that was reset nothing is said about the new room.
 -/

namespace Keel.Chat2

open List Option

variable {Op : Type}

section Document

variable {crdt : Crdt Op}

@[simp] theorem ChatSink.persistWithCursor_doc (sink : ChatSink Op) (cursor : Nat) :
    (sink.persistWithCursor cursor).doc = sink.doc := by
  rw [persistWithCursor]
  split
  · rfl
  · rfl

/-- What a frame leaves behind: the document grows, and holds the row it was sent. -/
structure Absorbs (crdt : Crdt Op) (doc grown : Option (List Op)) (frame : ServerFrame) : Prop where
  grows : DocGrows doc grown
  takes : ∀ seq payload ops added, frame = .row seq payload → grown = some ops →
    crdt.parse payload = some added → added ⊆ ops

theorem ChatSink.applyRow_absorbs (sink : ChatSink Op) (seq : Nat) (payload : List UInt8) :
    Absorbs crdt sink.doc (sink.applyRow crdt payload seq).doc (.row seq payload) := by
  rw [applyRow]
  cases hdoc : sink.doc with
  | none => exact ⟨fun ops hops => by simp [hdoc] at hops,
    fun _ _ ops _ _ hops => by simp [hdoc] at hops⟩
  | some ops =>
    cases hparse : crdt.parse payload with
    | none =>
      simp only [persistWithCursor_doc, hdoc]
      refine ⟨DocGrows.refl _, ?_⟩
      rintro _ _ _ added ⟨⟩ - hadded
      simp [hparse] at hadded
    | some added =>
      simp only [persistWithCursor_doc]
      refine ⟨?_, ?_⟩
      · rintro _ ⟨⟩
        exact ⟨ops, rfl, subset_append_left _ _⟩
      · rintro _ _ _ added' ⟨⟩ ⟨⟩ hadded
        rw [hparse, some.injEq] at hadded
        exact hadded ▸ subset_append_right _ _

theorem Absorbs.of_isRow_false {doc : Option (List Op)} {frame : ServerFrame}
    (hframe : ∀ seq payload, frame ≠ .row seq payload) : Absorbs crdt doc doc frame :=
  ⟨DocGrows.refl doc, fun seq payload _ _ hrow => absurd hrow (hframe seq payload)⟩

/-- The number a frame moves the cursor to. -/
def ServerFrame.seq? : ServerFrame → Option Nat
  | .row seq _ | .ack _ seq => some seq
  | _ => none

theorem ChatClient.handleFrame_absorbs (crdt : Crdt Op) (client : ChatClient Op)
    (frame : ServerFrame) :
    Absorbs crdt client.sink.doc (client.handleFrame crdt frame).sink.doc frame := by
  cases frame with
  | row seq payload => exact client.sink.applyRow_absorbs seq payload
  | ack batchId seq =>
    simp only [handleFrame, ChatSink.advanceCursor, ChatSink.persistWithCursor_doc]
    exact .of_isRow_false (by simp)
  | error code batchId =>
    rw [handleFrame]
    split_ifs
    all_goals exact .of_isRow_false (by simp)
  | state header frontier | rowsDone headSeq | other => exact .of_isRow_false (by simp)

theorem ChatClient.handleFrame_cursor (crdt : Crdt Op) (client : ChatClient Op)
    (frame : ServerFrame) :
    (client.handleFrame crdt frame).cursor = max client.cursor (frame.seq?.getD 0) := by
  cases frame with
  | row seq payload | ack batchId seq => rfl
  | error code batchId =>
    rw [handleFrame]
    split_ifs
    all_goals simp [ServerFrame.seq?]
  | state header frontier | rowsDone headSeq | other => simp [handleFrame, ServerFrame.seq?]

theorem ChatClient.handleFrame_resumed (crdt : Crdt Op) (client : ChatClient Op)
    (frame : ServerFrame) :
    (client.handleFrame crdt frame).resumed = client.resumed := by
  cases frame with
  | error code batchId =>
    rw [handleFrame]
    split_ifs
    all_goals rfl
  | _ => rfl

end Document

section Client

variable {crdt : Crdt Op} {system next : ChatSystem Op} {session : Session}

variable {frame first : ServerFrame} {rows : List ChatRow} {rest : List ServerFrame} {sent : Nat}
  {excludeOwn : Bool} {header : StateHeader} {sink : ChatSink Op}

/-- Once the first frame of a queue is taken, the rest covers what the queue did. -/
theorem Absorbs.covered {doc grown : Option (List Op)}
    (habsorbs : Absorbs crdt doc grown frame) {queue : List ServerFrame}
    {count : Nat} (hcovered : Covered crdt doc rows (frame :: queue) count) :
    Covered crdt grown rows queue count := by
  intro index row hindex hrow
  rcases hcovered index row hindex hrow with haccounted | hqueued
  · exact .inl (haccounted.mono habsorbs.grows)
  · rcases mem_cons.mp hqueued with hfirst | hlater
    · exact .inl (.inr fun ops added hgrown hparse =>
        habsorbs.takes _ _ ops added hfirst.symm hgrown hparse)
    · exact .inr hlater

section
variable (habsorbs : Absorbs crdt system.client.sink.doc next.client.sink.doc first)
    (hroom : next.room = system.room) (hbased : next.based = system.based)
include habsorbs hroom hbased

theorem Absorbs.frameOk {earlier : List ServerFrame}
    (hframe : FrameOk crdt system (first :: earlier) frame) : FrameOk crdt next earlier frame := by
  cases frame with
  | row seq payload | ack batchId seq =>
    simp only [FrameOk, hroom, hbased] at hframe ⊢
    exact ⟨hframe.1, fun h => habsorbs.covered (hframe.2 h)⟩
  | rowsDone headSeq =>
    simp only [FrameOk, hroom, hbased] at hframe ⊢
    exact ⟨hframe.1, hframe.2.1, fun h => habsorbs.covered (hframe.2.2 h)⟩
  | state header frontier | error code batchId | other => trivial

theorem Absorbs.queueOk {earlier queue : List ServerFrame}
    (hqueue : QueueOk crdt system (first :: earlier) queue) : QueueOk crdt next earlier queue := by
  induction queue generalizing earlier with
  | nil => trivial
  | cons frame rest ih => exact ⟨habsorbs.frameOk hroom hbased hqueue.1, ih hqueue.2⟩

end

theorem Scanning.take (hscanning : Scanning crdt system session sent excludeOwn)
    (hinbound : session.inbound = first :: rest)
    (habsorbs : Absorbs crdt system.client.sink.doc next.client.sink.doc first)
    (hroom : next.room = system.room) (hbased : next.based = system.based) :
    Scanning crdt next { session with inbound := rest } sent excludeOwn := by
  refine ⟨hscanning.outbound, hscanning.scan, hroom ▸ hscanning.sent_le, fun hnext => ?_,
    fun hexclude hnext index row hrow horigin => ?_, ?_⟩
  · rw [hbased] at hnext
    have hcovered := hscanning.covered hnext
    rw [hinbound] at hcovered
    exact hroom ▸ habsorbs.covered hcovered
  · rw [hbased] at hnext
    rw [hroom] at hrow
    exact (hscanning.earlier hexclude hnext index row hrow horigin).mono habsorbs.grows
  · have hqueue := hscanning.queue
    rw [hinbound] at hqueue
    exact habsorbs.queueOk hroom hbased hqueue.2

theorem FrameOk.announced (hframe : FrameOk crdt system [] frame) :
    frame.seq?.getD 0 ≤ system.room.rows.length ∧
      (system.based = true → Covered crdt system.client.sink.doc system.room.rows [frame]
        (frame.seq?.getD 0)) := by
  cases frame with
  | row seq payload => exact hframe
  | ack batchId seq =>
    exact ⟨hframe.1, fun hbased => (hframe.2 hbased).mono (Nat.le_refl seq) (nil_subset _)⟩
  | rowsDone headSeq | state header frontier | error code batchId | other =>
    exact ⟨Nat.zero_le _, fun _ => covered_zero _ _ _⟩

/-- The client takes a frame of the scan. Frames that the client knows move its cursor
to what they announce, which is then in the document. -/
theorem CursorInv.take (hinv : CursorInv crdt system) (hlive : session.live = true)
    (hphase : session.phase = .backfill ∨ session.phase = .steady)
    (hscanning : Scanning crdt system session sent excludeOwn)
    (hcursor : system.client.cursor ≤ system.room.rows.length)
    (hinbound : session.inbound = frame :: rest) :
    CursorInv crdt
      { system with
        client := system.client.handleFrame crdt frame
        session := some { session with inbound := rest } } := by
  have habsorbs := system.client.handleFrame_absorbs crdt frame
  have hqueue := hscanning.queue
  rw [hinbound] at hqueue
  obtain ⟨hannounced, hcovered⟩ := hqueue.1.announced
  have hnext : (system.client.handleFrame crdt frame).cursor ≤ system.room.rows.length := by
    rw [ChatClient.handleFrame_cursor]
    exact Nat.max_le.mpr ⟨hcursor, hannounced⟩
  refine ⟨hinv.checkpoint, fun hbased => ⟨hnext, ?_⟩, fun headSeq hhead => ?_,
    fun hresumed hnone => ?_, hinv.stale, ?_, ?_⟩
  · rw [ChatClient.handleFrame_cursor]
    refine Covered.max ?_ (habsorbs.covered (hcovered hbased))
    exact habsorbs.covered ((hinv.cursor hbased).2.mono (Nat.le_refl _) (nil_subset _))
  · obtain ⟨hle, hearlier, hseen⟩ := hinv.caughtUp headSeq hhead
    refine ⟨hle, hearlier, fun hbased => ?_⟩
    exact habsorbs.covered ((hseen hbased).mono (Nat.le_refl _) (nil_subset _))
  · rw [ChatClient.handleFrame_resumed] at hresumed
    exact hinv.resumed hresumed hnone
  · rintro later ⟨⟩ -
    exact .scanning hphase hnext (hscanning.take hinbound habsorbs rfl rfl)
  · rintro later ⟨⟩ hdead
    simp [hlive] at hdead

theorem ChatClient.handleFrame_of_isQuiet (crdt : Crdt Op) (client : ChatClient Op)
    (hquiet : frame.isQuiet = true) :
    (client.handleFrame crdt frame).sink = client.sink ∧
      (client.handleFrame crdt frame).cursor = client.cursor := by
  cases frame with
  | row seq payload | ack batchId seq | rowsDone headSeq => cases hquiet
  | error code batchId =>
    rw [handleFrame]
    split_ifs
    all_goals exact ⟨rfl, rfl⟩
  | state header frontier | other => exact ⟨rfl, rfl⟩

section
variable (hinv : CursorInv crdt system) (hlive : session.live = true)
include hinv hlive

/-- A frame that comes before the rows changes neither the document nor the cursor. -/
theorem CursorInv.take_quiet {after : Nat} (hphase : session.phase = .backfill)
    (hrequested : Requested crdt system session after excludeOwn)
    (hcursor : system.client.cursor ≤ system.room.rows.length)
    (hinbound : session.inbound = frame :: rest) : CursorInv crdt
      { system with
        client := system.client.handleFrame crdt frame
        session := some { session with inbound := rest } } := by
  have hquiet := hrequested.quiet
  rw [hinbound, forall_mem_cons] at hquiet
  obtain ⟨hsink, hkept⟩ := system.client.handleFrame_of_isQuiet crdt hquiet.1
  refine hinv.of_grows (.of_same rfl ?_ rfl rfl) hkept
    (system.client.handleFrame_resumed crdt frame) hinv.checkpoint ?_ ?_
  · rw [hsink]
    exact DocGrows.refl _
  · rintro later ⟨⟩ -
    exact .requested hphase hcursor ⟨hrequested.outbound, hrequested.scan, hrequested.done, hquiet.2,
      hrequested.after_le, hrequested.covered, hrequested.earlier⟩
  · rintro later ⟨⟩ hdead
    simp [hlive] at hdead

/-- At the end of a backfill all rows up to the announced head are accounted for. -/
theorem CursorInv.rowsDone {headSeq : Nat}
    (hscanning : Scanning crdt system session sent excludeOwn)
    (hcursor : system.client.cursor ≤ system.room.rows.length)
    (hinbound : session.inbound = .rowsDone headSeq :: rest) :
    CursorInv crdt (system.receiveRowsDone { session with inbound := rest } headSeq) := by
  have habsorbs : Absorbs crdt system.client.sink.doc system.client.sink.doc (.rowsDone headSeq) :=
    .of_isRow_false (by simp)
  have hqueue := hscanning.queue
  rw [hinbound] at hqueue
  obtain ⟨hle, hearlier, hcovered⟩ := hqueue.1
  rw [ChatSystem.receiveRowsDone, if_pos hlive]
  refine ⟨hinv.checkpoint, hinv.cursor, ?_, ?_, hinv.stale, ?_, ?_⟩
  · rintro _ ⟨⟩
    exact ⟨hle, hearlier, hcovered⟩
  · rintro - ⟨⟩
  · rintro later ⟨⟩ -
    refine .scanning (.inr rfl) hcursor
      (Scanning.of_session (hscanning.take hinbound habsorbs rfl rfl) rfl rfl ?_)
    intro frame hmem
    rcases mem_append.mp hmem with hold | hnew
    · exact hscanning.outbound frame hold
    · obtain ⟨push, -, rfl⟩ := mem_map.mp hnew
      exact ⟨push, rfl⟩
  · rintro later ⟨⟩ hdead
    simp [hlive] at hdead

end

theorem CursorInv.startBackfill (hinv : CursorInv crdt { system with session := none })
    (hlive : session.live = true) {after : Nat}
    (houtbound : session.outbound = []) (hscan : session.scan = none)
    (hdone : session.done = false) (hquiet : ∀ frame ∈ session.inbound, frame.isQuiet = true)
    (hlength : after ≤ system.room.rows.length)
    (hcursor : system.client.cursor ≤ max session.helloCursor after)
    (hcovered : system.based = true ∨ session.rebases header after = true →
      Covered crdt system.client.sink.doc system.room.rows [] after) :
    CursorInv crdt (system.startBackfill session header after) := by
  have hclamped : (system.startBackfill session header after).client.cursor ≤ after := by
    simp only [ChatSystem.startBackfill]
    split_ifs <;> omega
  have hbased : (system.startBackfill session header after).based = true →
      system.based = true ∨ session.rebases header after = true := by
    simp [ChatSystem.startBackfill]
  -- A backfill that was completed on a cursor of another room is forgotten.
  have hkept : (system.startBackfill session header after).caughtUp ≠ none →
      (system.startBackfill session header after).caughtUp = system.caughtUp ∧
        ((system.startBackfill session header after).based = true → system.based = true) := by
    simp only [ChatSystem.startBackfill]
    cases system.based <;> cases session.rebases header after <;> simp
  have hforgotten : (system.startBackfill session header after).caughtUp = none →
      system.based = true → system.caughtUp = none := by
    intro hnone hold
    simpa [ChatSystem.startBackfill, hold] using hnone
  have hresume : system.client.resumed = true → system.caughtUp = none ∨ system.based = false →
      EarlierBelow system.room.rows 0 := by
    rintro hresumed (hnone | hstale)
    · exact hinv.resumed hresumed hnone
    · exact hinv.stale hstale
  refine ⟨hinv.checkpoint, fun hnext => ?_, fun headSeq hhead => ?_, fun hresumed hnone => ?_,
    fun hstale => ?_, ?_, ?_⟩
  · exact ⟨Nat.le_trans hclamped hlength,
      (hcovered (hbased hnext)).mono hclamped (List.Subset.refl _)⟩
  · obtain ⟨hsame, hold⟩ := hkept (by simp [hhead])
    obtain ⟨hle, hearlier, hseen⟩ := hinv.caughtUp headSeq (hsame ▸ hhead)
    exact ⟨hle, hearlier, fun hnext => hseen (hold hnext)⟩
  · cases hold : system.based with
    | true => exact hresume hresumed (.inl (hforgotten hnone hold))
    | false => exact hresume hresumed (.inr hold)
  · simp only [ChatSystem.startBackfill, Bool.or_eq_false_iff] at hstale
    exact hinv.stale hstale.1
  · rintro later ⟨⟩ -
    refine .requested rfl (Nat.le_trans hclamped hlength) ⟨congrArg (· ++ _) houtbound, hscan,
      hdone, hquiet,
      hlength, fun hnext => hcovered (hbased hnext),
      fun hresumed hnext index row hrow horigin => ?_⟩
    -- Own rows are left out, and those of an earlier process are in the document.
    cases hcaughtUp : system.caughtUp with
    | none =>
      have hbelow := hresume hresumed (.inl hcaughtUp) index row hrow horigin
      exact absurd hbelow (Nat.not_lt_zero index)
    | some headSeq =>
      cases hold : system.based with
      | false =>
        have hbelow := hresume hresumed (.inr hold) index row hrow horigin
        exact absurd hbelow (Nat.not_lt_zero index)
      | true =>
        obtain ⟨-, hearlier, hseen⟩ := hinv.caughtUp headSeq hcaughtUp
        have hindex := hearlier index row hrow horigin
        exact (hseen hold index row hindex hrow).resolve_right not_mem_nil
  · rintro later ⟨⟩ hdead
    simp [hlive] at hdead

theorem CursorInv.drop (hinv : CursorInv crdt system) (strays : List PendingPush) :
    CursorInv crdt { system with session := none, strays } := by
  refine hinv.of_grows (.of_same rfl (DocGrows.refl _) rfl rfl) rfl rfl hinv.checkpoint ?_ ?_
  · rintro session ⟨⟩
  · rintro session ⟨⟩

/-- A document that contains the frontier holds the rows of the checkpoint. -/
theorem covered_of_containsFrontier [DecidableEq Op] {frontier : List UInt8}
    (hfrontier : FrontierOk crdt rows header frontier)
    (hsize : header.checkpointSize ≠ 0) (hcontained : sink.containsFrontier crdt frontier = true) :
    Covered crdt sink.doc rows [] header.checkpointSeq := by
  intro index row hindex hrow
  refine .inl (.inr fun ops added hdoc hparse => ?_)
  obtain ⟨hne, hcovers⟩ := hfrontier hsize
  simp only [ChatSink.containsFrontier, hdoc, List.isEmpty_iff, hne, if_false] at hcontained
  cases hversion : crdt.version frontier with
  | none => simp [hversion] at hcontained
  | some covered =>
    simp only [hversion, List.all_eq_true, List.contains_iff_mem] at hcontained
    exact fun op hop => hcontained op (hcovers covered hversion index row added hindex hrow hparse hop)

/-- The answer to the hello leads to a request for rows behind a covered number. -/
theorem CursorInv.receiveState [DecidableEq Op] (hinv : CursorInv crdt system)
    (hjoining : Joining system session) (hlive : session.live = true) {frontier : List UInt8}
    (houtbound : session.outbound = []) (hheader : HeaderOk system.room header)
    (hfrontier : FrontierOk crdt system.room.rows header frontier) :
    CursorInv crdt (system.receiveState crdt session header frontier) := by
  have hcursor := hjoining.cursor
  have hhead := hheader.head_le
  have hcheckpoint := hheader.checkpoint_le
  have hstart : ∀ {after : Nat}, system.client.cursor ≤ max session.helloCursor after →
      after ≤ system.room.rows.length →
      (system.based = true ∨ session.rebases header after = true →
        Covered crdt system.client.sink.doc system.room.rows [] after) →
      CursorInv crdt (system.startBackfill session header after) := by
    intro after hle hlength
    exact (hinv.drop system.strays).startBackfill hlive houtbound hjoining.scan hjoining.done
      hjoining.quiet hlength hle
  have hbased : system.based = true →
      Covered crdt system.client.sink.doc system.room.rows [] session.helloCursor :=
    fun hold => hcursor ▸ (hinv.cursor hold).2
  simp only [ChatSystem.receiveState, planCatchUp]
  by_cases hsize : header.checkpointSize = 0
  · simp only [hsize, if_true]
    apply hstart (by omega) (by split_ifs <;> omega)
    intro hrebased
    split_ifs at hrebased ⊢ with hahead
    · exact covered_zero _ _ _
    · rcases hrebased with hold | hrebases
      · exact hbased hold
      · have hzero : session.helloCursor = 0 := by
          simpa [Session.rebases, hsize, hlive] using hrebases
        exact hzero ▸ covered_zero _ _ _
  · simp only [hsize, if_false, decide_false, Bool.false_or]
    cases hcontained : system.client.sink.containsFrontier crdt frontier with
    | true =>
      simp only [if_true]
      have hheld : Covered crdt system.client.sink.doc system.room.rows [] header.checkpointSeq :=
        covered_of_containsFrontier hfrontier hsize hcontained
      apply hstart (by omega) (by split_ifs <;> omega)
      intro hrebased
      split_ifs at hrebased ⊢ with hahead
      · exact (covered_zero _ _ _).max hheld
      · rcases hrebased with hold | hrebases
        · exact (hbased hold).max hheld
        · have hle : session.helloCursor ≤ header.checkpointSeq := by
            simp [Session.rebases, hsize, hlive] at hrebases
            omega
          exact hheld.mono (by omega) (List.Subset.refl _)
    | false =>
      simp only [Bool.false_eq_true, if_false]
      have hfetching : Joining system { session with phase := .fetching header } :=
        ⟨hjoining.scan, hjoining.done, hjoining.cursor, hjoining.quiet⟩
      exact hinv.with_session hlive (.fetching rfl hfetching houtbound hsize hheader)

theorem ChatSink.applyCheckpoint_eq_some {applied : ChatSink Op} {blob : List UInt8}
    {cursor : Nat} (happlied : sink.applyCheckpoint crdt blob cursor = some applied) :
    ∃ ops added, sink.doc = some ops ∧ crdt.parse blob = some added ∧
      applied.doc = some (ops ++ added) := by
  rw [applyCheckpoint] at happlied
  split at happlied
  next ops added hdoc hparse =>
    simp only [some.injEq] at happlied
    exact ⟨ops, added, hdoc, hparse, by rw [← happlied, persistWithCursor_doc]⟩
  · cases happlied

theorem covered_of_applyCheckpoint {applied : ChatSink Op}
    {checkpoint : Checkpoint} {seq cursor : Nat} (hcovers : CheckpointCovers crdt rows checkpoint)
    (hseq : seq ≤ checkpoint.seq)
    (happlied : sink.applyCheckpoint crdt checkpoint.blob cursor = some applied) :
    Covered crdt applied.doc rows [] seq := by
  obtain ⟨ops, content, -, hcontent, hdoc⟩ := ChatSink.applyCheckpoint_eq_some happlied
  intro index row hindex hrow
  refine .inl (.inr fun after added hafter hparse => ?_)
  rw [hdoc, some.injEq] at hafter
  subst hafter
  have hheld := hcovers.blob content hcontent index row added (Nat.lt_of_lt_of_le hindex hseq)
    hrow hparse
  exact List.Subset.trans hheld (subset_append_right _ _)

theorem CursorInv.fetched (hinv : CursorInv crdt system) (hcurrent : system.session = some session)
    (hlive : session.live = true) (hstep : system.fetched crdt session = some next) :
    CursorInv crdt next := by
  rw [ChatSystem.fetched] at hstep
  split at hstep
  next header checkpoint hphase hcheckpoint =>
    obtain ⟨hjoining, houtbound, hsize, hheader⟩ :=
      (hinv.live session hcurrent hlive).of_fetching hphase
    split at hstep
    · simp only [some.injEq] at hstep
      subst hstep
      exact hinv.drop system.strays
    next sink happlied =>
      simp only [some.injEq] at hstep
      subst hstep
      obtain ⟨current, hsame, hseq⟩ := hheader.fetch hsize
      rw [hcheckpoint, some.injEq] at hsame
      subst hsame
      have hheld : Covered crdt sink.doc system.room.rows [] header.checkpointSeq :=
        covered_of_applyCheckpoint (hinv.checkpoint checkpoint hcheckpoint) hseq happlied
      have hlength := Nat.le_trans hheader.checkpoint_le hheader.head_le
      have hdoc : DocGrows system.client.sink.doc sink.doc := by
        obtain ⟨ops, content, hold, -, hnew⟩ := ChatSink.applyCheckpoint_eq_some happlied
        intro grown hgrown
        rw [hnew, some.injEq] at hgrown
        exact ⟨ops, hold, hgrown ▸ subset_append_left _ _⟩
      have hgrows : Grows system
          { system with
            client :=
              { system.client with sink, cursor := max system.client.cursor header.checkpointSeq }
            session := none } := .of_same rfl hdoc rfl rfl
      refine CursorInv.startBackfill ?_ hlive houtbound hjoining.scan hjoining.done hjoining.quiet
        hlength ?_ fun _ => hheld
      · refine ⟨hinv.checkpoint, fun hbased => ?_, fun headSeq hhead => ?_, hinv.resumed,
          hinv.stale, ?_, ?_⟩
        · obtain ⟨hle, hcovered⟩ := hinv.cursor hbased
          exact ⟨Nat.max_le.mpr ⟨hle, hlength⟩, (hgrows.covered hle hcovered).max hheld⟩
        · obtain ⟨hle, hearlier, hseen⟩ := hinv.caughtUp headSeq hhead
          exact ⟨hle, hearlier, fun hbased => hgrows.covered hle (hseen hbased)⟩
        · rintro other ⟨⟩
        · rintro other ⟨⟩
      · simp only [hjoining.cursor, Nat.le_refl]
  · cases hstep

theorem CursorInv.receive [DecidableEq Op] (hinv : CursorInv crdt system)
    (hcurrent : system.session = some session) (hlive : session.live = true)
    (hstep : system.receive crdt session = some next) : CursorInv crdt next := by
  have hok := hinv.live session hcurrent hlive
  rw [ChatSystem.receive] at hstep
  split at hstep
  · cases hstep
  · cases hstep
  next frame rest hphase hinbound =>
    obtain ⟨hjoining, hstage⟩ := hok.of_hello hphase
    have hquiet := hjoining.quiet
    rw [hinbound, forall_mem_cons] at hquiet
    have hrest : Joining system { session with inbound := rest } :=
      ⟨hjoining.scan, hjoining.done, hjoining.cursor, hquiet.2⟩
    rw [hinbound] at hstage
    split at hstep
    next header frontier =>
      simp only [some.injEq] at hstep
      subst hstep
      rcases hstage with ⟨-, hstateless⟩ | ⟨houtbound, hstates⟩
      · exact absurd mem_cons_self (hstateless header frontier)
      · obtain ⟨hheader, hfrontier⟩ := hstates header frontier mem_cons_self
        exact hinv.receiveState hrest hlive houtbound hheader hfrontier
    · simp only [some.injEq] at hstep
      subst hstep
      refine hinv.with_session hlive ?_
      rcases hstage with ⟨⟨cursor, houtbound⟩, hstateless⟩ | ⟨houtbound, hstates⟩
      · exact .hello hphase hrest houtbound fun header frontier hmem =>
          hstateless header frontier (mem_cons_of_mem _ hmem)
      · exact .answered hphase hrest houtbound fun header frontier hmem =>
          hstates header frontier (mem_cons_of_mem _ hmem)
  next frame rest hphase hinbound =>
    obtain ⟨hcursor, hstage⟩ := hok.of_backfill hphase
    split at hstep
    next headSeq =>
      simp only [some.injEq] at hstep
      subst hstep
      rcases hstage with ⟨_, _, hrequested⟩ | ⟨sent, excludeOwn, hscanning⟩
      · -- The server has not seen the request, so nothing is done.
        have hquiet := hrequested.quiet (.rowsDone headSeq) (hinbound ▸ mem_cons_self)
        cases hquiet
      · exact hinv.rowsDone hlive hscanning hcursor hinbound
    · simp only [some.injEq] at hstep
      subst hstep
      rcases hstage with ⟨_, _, hrequested⟩ | ⟨sent, excludeOwn, hscanning⟩
      · exact hinv.take_quiet hlive hphase hrequested hcursor hinbound
      · exact hinv.take hlive (.inl hphase) hscanning hcursor hinbound
  next frame rest hphase hinbound =>
    obtain ⟨hcursor, sent, excludeOwn, hscanning⟩ := hok.of_steady hphase
    simp only [some.injEq] at hstep
    subst hstep
    exact hinv.take hlive (.inr hphase) hscanning hcursor hinbound

end Client

section Detached

variable {crdt : Crdt Op} {system next : ChatSystem Op} {session : Session}

/-- What a client does on a connection to a room that was reset says nothing about the
new room. -/
structure Detached (system next : ChatSystem Op) : Prop where
  room : next.room = system.room
  based : next.based = system.based
  caughtUp : next.caughtUp = system.caughtUp
  dead : ∀ session, next.session = some session → session.live = false

theorem CursorInv.of_detached (hinv : CursorInv crdt system)
    (hcurrent : system.session = some session) (hdead : session.live = false)
    (hdetached : Detached system next) : CursorInv crdt next := by
  obtain ⟨hbased, hcaughtUp⟩ := hinv.dead session hcurrent hdead
  have hearlier := hinv.stale hbased
  rw [← hdetached.based] at hbased
  rw [← hdetached.caughtUp] at hcaughtUp
  rw [← hdetached.room] at hearlier
  refine ⟨?_, ?_, ?_, fun _ _ => hearlier, fun _ => hearlier, ?_, fun _ _ _ => ⟨hbased, hcaughtUp⟩⟩
  · rw [hdetached.room]
    exact hinv.checkpoint
  · intro hnext
    simp [hbased] at hnext
  · intro headSeq hhead
    simp [hcaughtUp] at hhead
  · intro later hlater hlive
    simp [hdetached.dead later hlater] at hlive

theorem Detached.startBackfill (client : ChatClient Op) (hdead : session.live = false)
    (header : StateHeader) (after : Nat) :
    Detached system ({ system with client }.startBackfill session header after) where
  room := rfl
  based := by simp [ChatSystem.startBackfill, Session.rebases, hdead]
  caughtUp := by simp [ChatSystem.startBackfill, Session.rebases, hdead]
  dead := by
    rintro later ⟨⟩
    exact hdead

theorem Detached.receive [DecidableEq Op] (hdead : session.live = false)
    (hstep : system.receive crdt session = some next) : Detached system next := by
  have hkeep : ∀ (client : ChatClient Op) (later : Session), later.live = false →
      Detached system { system with client, session := some later } := by
    intro client later hlater
    refine ⟨rfl, rfl, rfl, ?_⟩
    rintro _ ⟨⟩
    exact hlater
  rw [ChatSystem.receive] at hstep
  split at hstep
  · cases hstep
  · cases hstep
  next frame rest hphase hinbound =>
    split at hstep
    next header frontier =>
      simp only [ChatSystem.receiveState, some.injEq] at hstep
      subst hstep
      split
      · refine .startBackfill system.client ?_ _ _
        exact hdead
      · exact hkeep _ _ hdead
    · simp only [some.injEq] at hstep
      exact hstep ▸ hkeep _ _ hdead
  next frame rest hphase hinbound =>
    split at hstep
    next headSeq =>
      simp only [ChatSystem.receiveRowsDone, hdead, some.injEq] at hstep
      subst hstep
      exact hkeep _ _ rfl
    · simp only [some.injEq] at hstep
      exact hstep ▸ hkeep _ _ hdead
  next frame rest hphase hinbound =>
    simp only [some.injEq] at hstep
    exact hstep ▸ hkeep _ _ hdead

theorem Detached.fetched (hdead : session.live = false)
    (hstep : system.fetched crdt session = some next) : Detached system next := by
  rw [ChatSystem.fetched] at hstep
  split at hstep
  next header checkpoint hphase hcheckpoint =>
    split at hstep
    · simp only [some.injEq] at hstep
      subst hstep
      refine ⟨rfl, rfl, rfl, ?_⟩
      rintro _ ⟨⟩
    next sink happlied =>
      simp only [some.injEq] at hstep
      subst hstep
      exact .startBackfill _ hdead header header.checkpointSeq
  · cases hstep

end Detached

end Keel.Chat2
