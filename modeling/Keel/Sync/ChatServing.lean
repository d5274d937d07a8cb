import Keel.Sync.ChatInvariant

/-! # What a room sends

The server answers a hello with what its room has, scans the log once rows are asked
for, and commits pushes. None of this moves the client's cursor, and every frame it
adds stands for rows that the scan has passed.
 -/

namespace Keel.Chat2

open List Option Bool

variable {Op : Type}

section Server

variable {crdt : Crdt Op} {system next : ChatSystem Op} {session : Session}

theorem Grows.of_same (hroom : next.room = system.room)
    (hdoc : DocGrows system.client.sink.doc next.client.sink.doc)
    (hbased : next.based = system.based) (hcaughtUp : next.caughtUp = system.caughtUp) :
    Grows system next where
  rows := hroom ▸ List.prefix_refl _
  fresh index row hrow _ := by
    rw [hroom] at hrow
    exact (List.getElem?_eq_some_iff.mp hrow).1
  doc := hdoc
  based := hbased
  caughtUp := hcaughtUp
  checkpoint checkpoint hcheckpoint := ⟨checkpoint, hroom ▸ hcheckpoint, Nat.le_refl _⟩

theorem CursorInv.with_session (hinv : CursorInv crdt system) (hlive : session.live = true)
    (hok : SessionOk crdt system session) :
    CursorInv crdt { system with session := some session } := by
  refine hinv.of_grows (.of_same rfl (DocGrows.refl _) rfl rfl) rfl rfl hinv.checkpoint ?_ ?_
  · rintro other ⟨⟩ -
    exact hok
  · rintro other ⟨⟩ hdead
    rw [hlive] at hdead
    cases hdead

variable {row : ChatRow} {excludeOwn : Bool}

theorem Grows.of_append (hrows : next.room.rows = system.room.rows ++ [row])
    (horigin : row.origin ≠ .earlierProcess)
    (hcheckpoint : next.room.checkpoint = system.room.checkpoint)
    (hdoc : next.client.sink.doc = system.client.sink.doc)
    (hbased : next.based = system.based) (hcaughtUp : next.caughtUp = system.caughtUp) :
    Grows system next where
  rows := hrows ▸ prefix_append _ _
  fresh index other hother hearlier := by
    rw [hrows] at hother
    rcases Nat.lt_or_ge index system.room.rows.length with hlt | hge
    · exact hlt
    · rw [getElem?_append_right hge] at hother
      have hmem := mem_of_getElem? hother
      rw [mem_singleton] at hmem
      exact absurd (hmem ▸ hearlier) horigin
  doc := hdoc ▸ DocGrows.refl _
  based := hbased
  caughtUp := hcaughtUp
  checkpoint checkpoint hold := ⟨checkpoint, hcheckpoint ▸ hold, Nat.le_refl _⟩

theorem CheckpointCovers.mono {rows more : List ChatRow} {checkpoint : Checkpoint}
    (hcovers : CheckpointCovers crdt rows checkpoint) (hrows : rows <+: more) :
    CheckpointCovers crdt more checkpoint := by
  obtain ⟨added, rfl⟩ := hrows
  have hold : ∀ {index : Nat} {row : ChatRow}, index < checkpoint.seq →
      (rows ++ added)[index]? = some row → rows[index]? = some row := by
    intro index row hindex hrow
    rwa [getElem?_append_left (Nat.lt_of_lt_of_le hindex hcovers.seq_le)] at hrow
  refine ⟨?_, hcovers.frontier_ne, ?_, ?_⟩
  · rw [length_append]
    exact Nat.le_trans hcovers.seq_le (Nat.le_add_right _ _)
  · intro content hcontent index row added hindex hrow
    exact hcovers.blob content hcontent index row added hindex (hold hindex hrow)
  · intro covered hcovered index row added hindex hrow
    exact hcovers.frontier covered hcovered index row added hindex (hold hindex hrow)

theorem CursorInv.of_append (hinv : CursorInv crdt system)
    (hrows : next.room.rows = system.room.rows ++ [row])
    (horigin : row.origin ≠ .earlierProcess)
    (hcheckpoint : next.room.checkpoint = system.room.checkpoint)
    (hclient : next.client = system.client)
    (hbased : next.based = system.based) (hcaughtUp : next.caughtUp = system.caughtUp)
    (hlive : ∀ session, next.session = some session → session.live = true →
      SessionOk crdt system session)
    (hdead : ∀ session, next.session = some session → session.live = false →
      ∃ old, system.session = some old ∧ old.live = false) : CursorInv crdt next := by
  have hgrows : Grows system next :=
    .of_append hrows horigin hcheckpoint (congrArg (·.sink.doc) hclient) hbased hcaughtUp
  refine hinv.of_grows hgrows (congrArg (·.cursor) hclient) (congrArg (·.resumed) hclient)
    ?_ hlive hdead
  intro checkpoint hnext
  rw [hcheckpoint] at hnext
  exact (hinv.checkpoint checkpoint hnext).mono hgrows.rows

theorem CursorInv.header (hinv : CursorInv crdt system) :
    HeaderOk system.room system.room.header ∧
      FrontierOk crdt system.room.rows system.room.header system.room.frontier := by
  cases hcheckpoint : system.room.checkpoint with
  | none =>
    refine ⟨⟨Nat.le_refl _, ?_, ?_⟩, ?_⟩
    · simp [ChatRoom.header, hcheckpoint]
    · simp [ChatRoom.header, hcheckpoint]
    · simp [FrontierOk, ChatRoom.header, hcheckpoint]
  | some checkpoint =>
    have hcovers := hinv.checkpoint checkpoint hcheckpoint
    refine ⟨⟨Nat.le_refl _, ?_, fun _ => ⟨checkpoint, hcheckpoint, ?_⟩⟩, fun _ => ?_⟩
    · simpa [ChatRoom.header, hcheckpoint] using hcovers.seq_le
    · simp [ChatRoom.header, hcheckpoint]
    · simp only [ChatRoom.header, ChatRoom.frontier, hcheckpoint, map_some,
        getD_some]
      exact ⟨hcovers.frontier_ne, hcovers.frontier⟩

theorem SessionOk.hello_first {cursor : Nat} {rest : List ClientFrame}
    (hsession : SessionOk crdt system session)
    (houtbound : session.outbound = .hello cursor :: rest) :
    session.phase = .hello ∧ rest = [] ∧ Joining system session ∧
      ∀ header frontier, .state header frontier ∉ session.inbound := by
  cases hsession with
  | hello hphase hjoining hhello hstates =>
    rw [houtbound, List.cons.injEq] at hhello
    exact ⟨hphase, hhello.2, hjoining, hstates⟩
  | answered _ _ hother _ | fetching _ _ hother _ _ => simp [houtbound] at hother
  | requested _ _ hrequested =>
    have hother := hrequested.outbound
    simp [houtbound] at hother
  | scanning _ _ hscanning =>
    obtain ⟨push, hpush⟩ := hscanning.head_push houtbound
    cases hpush

theorem SessionOk.rowsReq_first {after : Nat} {rest : List ClientFrame}
    (hsession : SessionOk crdt system session)
    (houtbound : session.outbound = .rowsReq after excludeOwn :: rest) :
    session.phase = .backfill ∧ rest = [] ∧ system.client.cursor ≤ system.room.rows.length ∧
      Requested crdt system session after excludeOwn := by
  cases hsession with
  | hello _ _ hother _ | answered _ _ hother _ | fetching _ _ hother _ _ =>
    simp [houtbound] at hother
  | requested hphase hcursor hrequested =>
    have hrequest := hrequested.outbound
    simp only [houtbound, List.cons.injEq, ClientFrame.rowsReq.injEq] at hrequest
    obtain ⟨⟨rfl, rfl⟩, hrest⟩ := hrequest
    exact ⟨hphase, hrest, hcursor, hrequested⟩
  | scanning _ _ hscanning =>
    obtain ⟨push, hpush⟩ := hscanning.head_push houtbound
    cases hpush

theorem Requested.scanning {after : Nat}
    (hrequested : Requested crdt system session after excludeOwn) :
    Scanning crdt system { session with outbound := [], scan := some (after, excludeOwn) } after
      excludeOwn where
  outbound frame hmem := absurd hmem (not_mem_nil)
  scan := rfl
  sent_le := hrequested.after_le
  covered hbased := (hrequested.covered hbased).mono (Nat.le_refl after) (nil_subset _)
  earlier := hrequested.earlier
  queue := by
    have hquiet := hrequested.quiet
    generalize session.inbound = queue at hquiet
    generalize ([] : List ServerFrame) = earlier
    induction queue generalizing earlier with
    | nil => trivial
    | cons frame rest ih =>
      refine ⟨.of_isQuiet (hquiet frame mem_cons_self), ih ?_ _⟩
      exact fun later hmem => hquiet later (mem_cons_of_mem _ hmem)

theorem CursorInv.serve (hinv : CursorInv crdt system) (hcurrent : system.session = some session)
    (hlive : session.live = true) (hstep : system.serve session = some next) :
    CursorInv crdt next := by
  have hok := hinv.live session hcurrent hlive
  cases houtbound : session.outbound with
  | nil => simp [ChatSystem.serve, houtbound] at hstep
  | cons frame rest =>
    cases frame with
    | hello cursor =>
      simp only [ChatSystem.serve, houtbound, some.injEq] at hstep
      subst hstep
      obtain ⟨hphase, rfl, hjoining, hstates⟩ := hok.hello_first houtbound
      refine hinv.with_session hlive (.answered hphase ?_ rfl ?_)
      · refine ⟨hjoining.scan, hjoining.done, hjoining.cursor, ?_⟩
        intro frame hmem
        rcases mem_append.mp hmem with hold | hnew
        · exact hjoining.quiet frame hold
        · rw [mem_singleton.mp hnew]
          rfl
      · intro header frontier hmem
        rcases mem_append.mp hmem with hold | hnew
        · exact absurd hold (hstates header frontier)
        · simp only [mem_singleton, ServerFrame.state.injEq] at hnew
          obtain ⟨rfl, rfl⟩ := hnew
          exact hinv.header
    | rowsReq after excludeOwn =>
      simp only [ChatSystem.serve, houtbound, some.injEq] at hstep
      subst hstep
      obtain ⟨hphase, rfl, hcursor, hrequested⟩ := hok.rowsReq_first houtbound
      exact hinv.with_session hlive (.scanning (.inl hphase) hcursor hrequested.scanning)
    | push push =>
      obtain ⟨hphase, hcursor, sent, excludeOwn, hscanning⟩ := hok.scanning_of_push houtbound
      have hrest : Scanning crdt system { session with outbound := rest } sent excludeOwn :=
        hscanning.of_session rfl rfl fun frame hmem =>
          hscanning.outbound frame (houtbound ▸ mem_cons_of_mem _ hmem)
      simp only [ChatSystem.serve, houtbound] at hstep
      split at hstep
      · simp only [some.injEq] at hstep
        subst hstep
        refine hinv.of_append rfl (by simp) rfl rfl rfl rfl ?_ ?_
        · rintro other ⟨⟩ -
          exact .scanning hphase hcursor hrest
        · rintro other ⟨⟩ hdead
          exact ⟨session, hcurrent, hdead⟩
      next index passed _ _ hscan =>
        -- The acknowledgement repeats a row that the scan has passed.
        split at hstep
        next hpassed =>
          simp only [some.injEq] at hstep
          subst hstep
          simp only [hscanning.scan, some.injEq, Prod.mk.injEq] at hscan
          simp only [and_eq_true, decide_eq_true_eq, ← hscan.1] at hpassed
          refine hinv.with_session hlive (.scanning hphase hcursor (hrest.append ?_))
          refine ⟨Nat.le_trans hpassed.2 hscanning.sent_le, fun hbased => ?_⟩
          exact (hscanning.covered hbased).mono hpassed.2 (List.Subset.refl _)
        · cases hstep
      · cases hstep

theorem CursorInv.refuse (hinv : CursorInv crdt system) (hcurrent : system.session = some session)
    (hlive : session.live = true) {code : String}
    (hstep : system.refuse session code = some next) : CursorInv crdt next := by
  rw [ChatSystem.refuse] at hstep
  split at hstep
  next push rest houtbound =>
    simp only [some.injEq] at hstep
    subst hstep
    have hok := hinv.live session hcurrent hlive
    obtain ⟨hphase, hcursor, sent, excludeOwn, hscanning⟩ := hok.scanning_of_push houtbound
    have hrest : Scanning crdt system { session with outbound := rest } sent excludeOwn :=
      hscanning.of_session rfl rfl fun frame hmem =>
        hscanning.outbound frame (houtbound ▸ mem_cons_of_mem _ hmem)
    exact hinv.with_session hlive (.scanning hphase hcursor (hrest.append trivial))
  · cases hstep

theorem Scanning.pass {sent : Nat}
    (hscanning : Scanning crdt system session sent excludeOwn)
    (hrow : system.room.rows[sent]? = some row)
    (hpassed : system.based = true → Accounted crdt system.client.sink.doc row ∨
      ServerFrame.row (sent + 1) row.payload ∈ session.inbound) :
    Scanning crdt system { session with scan := some (sent + 1, excludeOwn) } (sent + 1)
      excludeOwn where
  outbound := hscanning.outbound
  scan := rfl
  sent_le := (List.getElem?_eq_some_iff.mp hrow).1
  covered hbased := (hscanning.covered hbased).succ hrow (hpassed hbased)
  earlier := hscanning.earlier
  queue := hscanning.queue

variable (hinv : CursorInv crdt system) (hcurrent : system.session = some session)
    (hlive : session.live = true)
include hinv hcurrent hlive

theorem CursorInv.relay {choice : Relay} (hstep : system.relay session choice = some next) :
    CursorInv crdt next := by
  rw [ChatSystem.relay] at hstep
  split at hstep
  · cases hstep
  next sent excludeOwn hscan =>
    split at hstep
    · cases hstep
    next row hrow =>
      obtain ⟨hphase, hcursor, hscanning⟩ := (hinv.live session hcurrent hlive).scanning_of_scan hscan
      have hlt : sent < system.room.rows.length := (List.getElem?_eq_some_iff.mp hrow).1
      cases choice with
      | row =>
        simp only [some.injEq] at hstep
        subst hstep
        have hframe : FrameOk crdt system session.inbound (.row (sent + 1) row.payload) := by
          refine ⟨hlt, fun hbased => ?_⟩
          refine Covered.succ ?_ hrow (.inr ?_)
          · exact (hscanning.covered hbased).mono (Nat.le_refl sent)
              (List.subset_append_left _ _)
          · exact List.mem_append_right _ (List.mem_singleton_self _)
        have hpassed := (hscanning.append hframe).pass hrow fun _ =>
          .inr (List.mem_append_right _ (List.mem_singleton_self _))
        exact hinv.with_session hlive (.scanning hphase hcursor hpassed)
      | ack =>
        simp only [and_eq_true, decide_eq_true_eq] at hstep
        split at hstep
        next hown =>
          simp only [some.injEq] at hstep
          subst hstep
          have hpassed := hscanning.pass hrow fun _ => .inl (.inl hown.2)
          refine hinv.with_session hlive (.scanning hphase hcursor (hpassed.append ?_))
          exact ⟨hlt, hpassed.covered⟩
        · cases hstep
      | skip =>
        simp only at hstep
        split at hstep
        next hskip =>
          simp only [some.injEq] at hstep
          subst hstep
          refine hinv.with_session hlive (.scanning hphase hcursor (hscanning.pass hrow ?_))
          intro hbased
          refine .inl ?_
          simp only [or_eq_true, and_eq_true, decide_eq_true_eq] at hskip
          cases horigin : row.origin with
          | thisClient => exact .inl horigin
          | earlierProcess =>
            have hexclude : excludeOwn = true := by simpa [horigin, RowOrigin.isOwn] using hskip
            exact hscanning.earlier hexclude hbased sent row hrow horigin
          | otherDevice device => simp [horigin, RowOrigin.isOwn] at hskip
        · cases hstep

theorem CursorInv.finishRows (hstep : system.finishRows session = some next) :
    CursorInv crdt next := by
  rw [ChatSystem.finishRows] at hstep
  split at hstep
  · cases hstep
  next sent excludeOwn hscan =>
    obtain ⟨hphase, hcursor, hscanning⟩ := (hinv.live session hcurrent hlive).scanning_of_scan hscan
    split at hstep
    next hend =>
      simp only [some.injEq] at hstep
      subst hstep
      simp only [and_eq_true, decide_eq_true_eq] at hend
      have hframe : FrameOk crdt system session.inbound (.rowsDone system.room.rows.length) := by
        refine ⟨Nat.le_refl _, ?_, fun hbased => ?_⟩
        · exact fun index row hrow _ => (List.getElem?_eq_some_iff.mp hrow).1
        · exact (hscanning.covered hbased).mono hend.1 (List.Subset.refl _)
      exact hinv.with_session hlive (.scanning hphase hcursor
        ((hscanning.append hframe).of_session rfl rfl hscanning.outbound))
    · cases hstep

end Server

end Keel.Chat2
