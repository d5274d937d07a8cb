import Keel.Sync.ChatCatchUp

/-! # The cursor of a chat client

In every run, over any number of connections, lost frames, failed fetches, rejected
pushes and resets: while the document is open and the cursor belongs to the room, every
row up to the cursor was pushed by the client, does not parse, or is imported. The same
holds up to the head of the last completed backfill.
 -/

namespace Keel.Chat2

open List Option

variable {Op : Type}

section Runs

variable {crdt : Crdt Op} {system next : ChatSystem Op}

/-- A checkpoint that is posted holds the rows up to its number. -/
def PostsCover (crdt : Crdt Op) (system : ChatSystem Op) : ChatAction Op → Prop
  | .postCheckpoint checkpoint => CheckpointCovers crdt system.room.rows checkpoint
  | _ => True

section
variable (hinv : CursorInv crdt system)
include hinv

theorem CursorInv.with_client {client : ChatClient Op}
    (hdoc : DocGrows system.client.sink.doc client.sink.doc)
    (hcursor : client.cursor = system.client.cursor)
    (hresumed : client.resumed = system.client.resumed) : CursorInv crdt { system with client } :=
  hinv.of_grows (.of_same rfl hdoc rfl rfl) hcursor hresumed hinv.checkpoint hinv.live
    fun session hsession hdead => ⟨session, hsession, hdead⟩

theorem CursorInv.commit {row : ChatRow} (horigin : row.origin ≠ .earlierProcess)
    (strays : List PendingPush) : CursorInv crdt
      { system with room := { system.room with rows := system.room.rows ++ [row] }, strays } :=
  hinv.of_append rfl horigin rfl rfl rfl rfl hinv.live
    fun session hsession hdead => ⟨session, hsession, hdead⟩

theorem CursorInv.connect : CursorInv crdt
      { system with
        session := some
          { helloCursor := system.client.cursor, outbound := [.hello system.client.cursor] } } := by
  refine hinv.with_session rfl (.hello rfl ⟨rfl, rfl, rfl, ?_⟩ rfl ?_)
  · exact fun frame hmem => absurd hmem not_mem_nil
  · exact fun header frontier => not_mem_nil

end

theorem CursorInv.send (hinv : CursorInv crdt system) {session : Session}
    (hcurrent : system.session = some session) (hphase : session.phase = .steady)
    {pushes : List ClientFrame} (hpushes : ∀ frame ∈ pushes, ∃ push, frame = .push push) :
    CursorInv crdt
      { system with session := some { session with outbound := session.outbound ++ pushes } } := by
  refine hinv.of_grows (.of_same rfl (DocGrows.refl _) rfl rfl) rfl rfl hinv.checkpoint ?_ ?_
  · rintro later ⟨⟩ hlive
    obtain ⟨hcursor, sent, excludeOwn, hscanning⟩ :=
      (hinv.live session hcurrent hlive).of_steady hphase
    refine .scanning (.inr hphase) hcursor (hscanning.of_session rfl rfl ?_)
    intro frame hmem
    rcases mem_append.mp hmem with hold | hnew
    · exact hscanning.outbound frame hold
    · exact hpushes frame hnew
  · rintro later ⟨⟩ hdead
    exact ⟨session, hcurrent, hdead⟩

theorem CursorInv.gossip (hinv : CursorInv crdt system) {session : Session}
    (hcurrent : system.session = some session) (hlive : session.live = true) :
    CursorInv crdt
      { system with session := some { session with inbound := session.inbound ++ [.other] } } := by
  have hquiet : (∀ frame ∈ session.inbound, frame.isQuiet = true) →
      ∀ frame ∈ session.inbound ++ [.other], frame.isQuiet = true := by
    intro hold frame hmem
    rcases mem_append.mp hmem with hearlier | hnew
    · exact hold frame hearlier
    · rw [mem_singleton.mp hnew]
      rfl
  have hjoined : Joining system session →
      Joining system { session with inbound := session.inbound ++ [.other] } := fun hjoining =>
    ⟨hjoining.scan, hjoining.done, hjoining.cursor, hquiet hjoining.quiet⟩
  refine hinv.with_session hlive ?_
  cases hinv.live session hcurrent hlive with
  | hello hphase hjoining houtbound hstates =>
    exact .hello hphase (hjoined hjoining) houtbound (by simpa using hstates)
  | answered hphase hjoining houtbound hstates =>
    exact .answered hphase (hjoined hjoining) houtbound (by simpa using hstates)
  | fetching hphase hjoining houtbound hsize hheader =>
    exact .fetching hphase (hjoined hjoining) houtbound hsize hheader
  | requested hphase hcursor hrequested =>
    exact .requested hphase hcursor ⟨hrequested.outbound, hrequested.scan, hrequested.done,
      hquiet hrequested.quiet, hrequested.after_le, hrequested.covered, hrequested.earlier⟩
  | scanning hphase hcursor hscanning =>
    exact .scanning hphase hcursor (hscanning.append trivial)

theorem CursorInv.postCheckpoint (hinv : CursorInv crdt system) {checkpoint : Checkpoint}
    (hcovers : CheckpointCovers crdt system.room.rows checkpoint)
    (hnewer : (system.room.checkpoint.all fun old => old.seq ≤ checkpoint.seq) = true) :
    CursorInv crdt { system with room := { system.room with checkpoint := some checkpoint } } := by
  refine hinv.of_grows ⟨List.prefix_refl _, ?_, DocGrows.refl _, rfl, rfl, ?_⟩ rfl rfl ?_
    hinv.live fun session hsession hdead => ⟨session, hsession, hdead⟩
  · exact fun index row hrow _ => (List.getElem?_eq_some_iff.mp hrow).1
  · intro old hold
    rw [hold, all_some, decide_eq_true_eq] at hnewer
    exact ⟨checkpoint, rfl, hnewer⟩
  · rintro _ ⟨⟩
    exact hcovers

theorem cursorInv_reset (session : Option Session) (client : ChatClient Op)
    (strays : List PendingPush) (hdead : ∀ current, session = some current → current.live = false) :
    CursorInv crdt { client, session, room := {}, strays, based := false, caughtUp := none } where
  checkpoint := by simp
  cursor := by simp
  caughtUp := by simp
  resumed _ _ := by simp [EarlierBelow]
  stale _ := by simp [EarlierBelow]
  live current hcurrent hlive := by simp [hdead current hcurrent] at hlive
  dead _ _ _ := ⟨rfl, rfl⟩

theorem ChatSystem.onLive_eq_some {act : Session → Option (ChatSystem Op)}
    (hstep : system.onLive act = some next) :
    ∃ session, system.session = some session ∧ session.live = true ∧ act session = some next := by
  rw [onLive] at hstep
  split at hstep
  next session hsession =>
    split at hstep
    next hlive => exact ⟨session, hsession, hlive, hstep⟩
    · cases hstep
  · cases hstep

theorem CursorInv.step [DecidableEq Op] {action : ChatAction Op} (hinv : CursorInv crdt system)
    (hguard : PostsCover crdt system action) (hstep : system.step crdt action = some next) :
    CursorInv crdt next := by
  cases action with
  | connect =>
    simp only [ChatSystem.step] at hstep
    split at hstep
    · cases hstep
    · simp only [some.injEq] at hstep
      exact hstep ▸ hinv.connect
  | disconnect =>
    simp only [ChatSystem.step, map_eq_some_iff] at hstep
    obtain ⟨session, -, rfl⟩ := hstep
    exact hinv.drop _
  | receive =>
    simp only [ChatSystem.step, bind_eq_some_iff] at hstep
    obtain ⟨session, hsession, hreceived⟩ := hstep
    cases hlive : session.live with
    | true => exact hinv.receive hsession hlive hreceived
    | false => exact hinv.of_detached hsession hlive (.receive hlive hreceived)
  | fetched =>
    simp only [ChatSystem.step, bind_eq_some_iff] at hstep
    obtain ⟨session, hsession, hfetched⟩ := hstep
    cases hlive : session.live with
    | true => exact hinv.fetched hsession hlive hfetched
    | false => exact hinv.of_detached hsession hlive (.fetched hlive hfetched)
  | edit ops =>
    simp only [ChatSystem.step, some.injEq] at hstep
    subst hstep
    refine hinv.with_client ?_ rfl rfl
    intro grown hgrown
    simp only [map_eq_some_iff] at hgrown
    obtain ⟨old, hold, rfl⟩ := hgrown
    exact ⟨old, hold, subset_append_left _ _⟩
  | enqueue push =>
    simp only [ChatSystem.step, ChatClient.enqueueUpdate, some.injEq] at hstep
    subst hstep
    split_ifs
    · exact hinv.with_client (DocGrows.refl _) rfl rfl
    · exact hinv.with_client (DocGrows.refl _) rfl rfl
  | nudge =>
    simp only [ChatSystem.step] at hstep
    split at hstep
    next session hsession =>
      split at hstep
      next hphase =>
        simp only [some.injEq] at hstep
        subst hstep
        apply hinv.send hsession hphase
        intro frame hmem
        obtain ⟨push, -, rfl⟩ := mem_map.mp hmem
        exact ⟨push, rfl⟩
      · cases hstep
    · cases hstep
  | retryTick =>
    simp only [ChatSystem.step] at hstep
    split at hstep
    next session hsession =>
      split at hstep
      next harmed =>
        simp only [some.injEq] at hstep
        subst hstep
        simp only [Bool.and_eq_true, decide_eq_true_eq] at harmed
        refine (hinv.send hsession harmed.1 (fun frame hmem => ?_)).with_client
          (DocGrows.refl _) rfl rfl
        simp only [ChatClient.pushHead, mem_toList, map_eq_some_iff] at hmem
        obtain ⟨push, -, rfl⟩ := hmem
        exact ⟨push, rfl⟩
      · cases hstep
    · cases hstep
  | evict =>
    simp only [ChatSystem.step, some.injEq] at hstep
    subst hstep
    refine hinv.with_client ?_ rfl rfl
    rintro ops ⟨⟩
  | serve =>
    obtain ⟨session, hsession, hlive, hserved⟩ := ChatSystem.onLive_eq_some hstep
    exact hinv.serve hsession hlive hserved
  | refuse code =>
    obtain ⟨session, hsession, hlive, hrefused⟩ := ChatSystem.onLive_eq_some hstep
    exact hinv.refuse hsession hlive hrefused
  | gossip =>
    obtain ⟨session, hsession, hlive, hsent⟩ := ChatSystem.onLive_eq_some hstep
    simp only [some.injEq] at hsent
    exact hsent ▸ hinv.gossip hsession hlive
  | relay choice =>
    obtain ⟨session, hsession, hlive, hrelayed⟩ := ChatSystem.onLive_eq_some hstep
    exact hinv.relay hsession hlive hrelayed
  | finishRows =>
    obtain ⟨session, hsession, hlive, hfinished⟩ := ChatSystem.onLive_eq_some hstep
    exact hinv.finishRows hsession hlive hfinished
  | strayPush =>
    simp only [ChatSystem.step] at hstep
    split at hstep
    · cases hstep
    next push rest hstrays =>
      split at hstep
      · simp only [some.injEq] at hstep
        subst hstep
        exact hinv.commit (by simp) rest
      · simp only [some.injEq] at hstep
        subst hstep
        exact hinv.of_grows (.of_same rfl (DocGrows.refl _) rfl rfl) rfl rfl hinv.checkpoint
          hinv.live fun session hsession hdead => ⟨session, hsession, hdead⟩
  | otherPush device batchId payload =>
    simp only [ChatSystem.step, some.injEq] at hstep
    subst hstep
    exact hinv.commit (by simp) system.strays
  | postCheckpoint checkpoint =>
    simp only [ChatSystem.step] at hstep
    split at hstep
    next hnewer =>
      simp only [some.injEq] at hstep
      exact hstep ▸ hinv.postCheckpoint hguard hnewer
    · cases hstep
  | reset =>
    simp only [ChatSystem.step, some.injEq] at hstep
    subst hstep
    apply cursorInv_reset _ system.client system.strays
    intro current hcurrent
    simp only [map_eq_some_iff] at hcurrent
    obtain ⟨session, -, rfl⟩ := hcurrent
    rfl

/-- A client that was just started, with no connection. Where its cursor is taken to
belong to the room, its document holds the rows up to it. Otherwise the room was reset
while the client was down, and earlier processes have not pushed to it. -/
structure Fresh (crdt : Crdt Op) (system : ChatSystem Op) : Prop where
  session : system.session = none
  resumed : system.client.resumed = false
  caughtUp : system.caughtUp = none
  checkpoint : ∀ checkpoint, system.room.checkpoint = some checkpoint →
    CheckpointCovers crdt system.room.rows checkpoint
  cursor : system.based = true → system.client.cursor ≤ system.room.rows.length ∧
    Covered crdt system.client.sink.doc system.room.rows [] system.client.cursor
  stale : system.based = false → EarlierBelow system.room.rows 0

end Runs

section Examples

end Examples

end Keel.Chat2
