import Keel.Sync.RegistrySync

/-! # Replicas converge

A replica knows a server state up to its cursor: every row the server has not
touched since is in the replica as the server has it. The frames in flight on an
established connection carry the replica from what it knows to the server's rows.
Both are kept by every step, so that a replica with nothing in flight and nothing
queued displays the server's rows.
-/

namespace Keel

open List Option

section Knowledge

/-- What a replica with these rows and this cursor knows of the server. -/
structure Known (server : RegistryServer) (rows : Rows) (cursor : Nat) : Prop where
  cursor_le : cursor ≤ server.seq
  seen : ∀ kind id row, rowAt server.rows kind id = some row → row.seq ≤ cursor →
    rowAt rows kind id = some row
  keys : ∀ kind id, (rowAt rows kind id).isSome = true → (rowAt server.rows kind id).isSome = true

/-- Applying the frames in order ends with the server's rows, and every cursor
reached on the way is one the replica can resume from. -/
def Follows (server : RegistryServer) : Rows → Nat → List ServerFrame → Prop
  | rows, cursor, [] =>
    cursor ≤ server.seq ∧ ∀ kind id, rowAt rows kind id = rowAt server.rows kind id
  | rows, cursor, .rows seq incoming :: rest =>
    Known server rows cursor ∧ Follows server (putRows rows incoming) (max cursor seq) rest
  | rows, cursor, .ack _ seq _ :: rest =>
    Known server rows cursor ∧ Follows server rows (max cursor seq) rest
  | rows, cursor, .error :: rest => Known server rows cursor ∧ Follows server rows cursor rest
  | _, _, .state _ _ _ _ :: _ => False

variable {server next : RegistryServer} {rows : Rows} {cursor : Nat} {frames : List ServerFrame}

section
variable (hfollows : Follows server rows cursor frames)
include hfollows

theorem Follows.known : Known server rows cursor := by
  cases frames with
  | nil =>
    obtain ⟨hcursor, hrows⟩ := hfollows
    exact ⟨hcursor, fun kind id row hrow _ => (hrows kind id).trans hrow,
      fun kind id hsome => hrows kind id ▸ hsome⟩
  | cons frame rest =>
    cases frame with
    | state => exact hfollows.elim
    | rows | ack | error => exact hfollows.1

theorem Follows.append (extra : List ServerFrame)
    (hknown : ∀ rows cursor, Known server rows cursor → Known next rows cursor)
    (hextra : ∀ rows cursor, Follows server rows cursor [] → Follows next rows cursor extra) :
    Follows next rows cursor (frames ++ extra) := by
  induction frames generalizing rows cursor with
  | nil => exact hextra rows cursor hfollows
  | cons frame rest ih =>
    cases frame with
    | state => exact hfollows.elim
    | rows seq incoming | ack batch seq applied | error =>
      exact ⟨hknown _ _ hfollows.1, ih hfollows.2⟩

theorem Follows.append_ack (batch : String) (applied : Nat) :
    Follows server rows cursor (frames ++ [.ack batch server.seq applied]) := by
  apply hfollows.append _ (fun _ _ hknown => hknown)
  intro rows cursor hdone
  exact ⟨hdone.known, max_le hdone.1 (le_refl _), hdone.2⟩

end

theorem Known.setGcFloor (hknown : Known server rows cursor) (floor : Nat) :
    Known { server with gcFloor := floor } rows cursor :=
  ⟨hknown.cursor_le, hknown.seen, hknown.keys⟩

theorem Follows.setGcFloor (hfollows : Follows server rows cursor frames) (floor : Nat) :
    Follows { server with gcFloor := floor } rows cursor frames := by
  have hsame := hfollows.append [] (fun _ _ hknown => hknown.setGcFloor floor)
    fun _ _ hdone => hdone
  rwa [append_nil] at hsame

end Knowledge

section Push

variable {server : RegistryServer} {ops : List RowOp}

theorem RegistryServer.touch_seq {state : List RegistryRow × Nat} {op : RowOp}
    (hstate : ∀ row ∈ state.1, row.seq = server.seq + 1) :
    ∀ row ∈ (server.touch state op).1, row.seq = server.seq + 1 := by
  simp only [touch]
  split
  · exact hstate
  next next changed _ =>
    split
    · exact hstate
    · intro row hrow
      rcases mem_append.mp hrow with hold | hnew
      · exact hstate row (mem_of_mem_filter hold)
      · rw [mem_singleton.mp hnew]

theorem RegistryServer.push_touched_seq :
    ∀ row ∈ (server.push ops).2.1, row.seq = server.seq + 1 := by
  have hfold : ∀ (ops : List RowOp) (state : List RegistryRow × Nat),
      (∀ row ∈ state.1, row.seq = server.seq + 1) →
      ∀ row ∈ (ops.foldl server.touch state).1, row.seq = server.seq + 1 := by
    intro ops
    induction ops with
    | nil => exact fun _ hstate => hstate
    | cons op rest ih => exact fun state hstate => ih _ (touch_seq hstate)
  simp only [push]
  split
  · exact hfold ops _ (by simp)
  · exact hfold ops _ (by simp)

/-- A batch with no effect leaves the server as it is; any other files the touched
rows under the next sequence number. -/
theorem RegistryServer.push_cases (server : RegistryServer) (ops : List RowOp) :
    ((server.push ops).2.2 = 0 ∧ (server.push ops).1 = server) ∨
      ((server.push ops).2.2 > 0 ∧ (server.push ops).1 =
        { server with rows := putRows server.rows (server.push ops).2.1, seq := server.seq + 1 }) := by
  simp only [push]
  split
  next happlied => exact .inr ⟨happlied, rfl⟩
  next hnone => exact .inl ⟨Nat.eq_zero_of_not_pos hnone, rfl⟩

/-- The server files rows under a new sequence number. -/
structure Advances (server next : RegistryServer) (touched : List RegistryRow) : Prop where
  seq : next.seq = server.seq + 1
  rows : next.rows = putRows server.rows touched
  fresh : ∀ row ∈ touched, row.seq = server.seq + 1

variable {next : RegistryServer} {touched : List RegistryRow} {rows : Rows} {cursor : Nat}

theorem Known.advance (hknown : Known server rows cursor) (hadvances : Advances server next touched) :
    Known next rows cursor := by
  refine ⟨?_, ?_, ?_⟩
  · rw [hadvances.seq]
    exact Nat.le_succ_of_le hknown.cursor_le
  · intro kind id row hrow hseq
    rw [hadvances.rows] at hrow
    -- A row of the new batch is newer than any cursor.
    rcases rowAt_putRows_cases hrow with ⟨hmem, -⟩ | hold
    · have hfresh := hadvances.fresh row hmem
      have hle := hknown.cursor_le
      omega
    · exact hknown.seen kind id row hold hseq
  · intro kind id hsome
    rw [hadvances.rows]
    obtain ⟨row, hrow⟩ := isSome_iff_exists.mp (hknown.keys kind id hsome)
    exact isSome_rowAt_putRows hrow

theorem Follows.advance {frames : List ServerFrame} (hfollows : Follows server rows cursor frames)
    (hadvances : Advances server next touched) :
    Follows next rows cursor (frames ++ [.rows next.seq touched]) := by
  apply hfollows.append _ (fun _ _ hknown => hknown.advance hadvances)
  intro rows cursor hdone
  refine ⟨hdone.known.advance hadvances, max_le ?_ (le_refl _), fun kind id => ?_⟩
  · exact (hdone.known.advance hadvances).cursor_le
  · rw [hadvances.rows]
    exact rowAt_putRows_congr touched fun _ => hdone.2 kind id

end Push

section Handshake

variable {server : RegistryServer} {rows : Rows} {cursor : Nat}

variable (hfiled : Filed server.rows)
include hfiled

/-- The rows after the cursor, laid over what the replica knows, are the server's
rows. -/
theorem Known.delta (hknown : Known server rows cursor) (kind id : String) :
    rowAt (putRows rows ((allRows server.rows).filter fun row => row.seq > cursor)) kind id =
      rowAt server.rows kind id := by
  have htable : ∀ row ∈ (allRows server.rows).filter (fun row => row.seq > cursor),
      rowAt server.rows row.kind row.id = some row := fun row hrow =>
    (mem_allRows_iff hfiled row).mp (mem_of_mem_filter hrow)
  by_cases hsent : ∃ row ∈ (allRows server.rows).filter (fun row => row.seq > cursor),
      row.kind = kind ∧ row.id = id
  · exact rowAt_putRows_of_mem htable hsent
  · push Not at hsent
    rw [rowAt_putRows_of_absent fun row hrow hkey => hsent row hrow hkey.1 hkey.2]
    cases hrow : rowAt server.rows kind id with
    | none =>
      cases hold : rowAt rows kind id with
      | none => rfl
      | some row =>
        have hkey := hknown.keys kind id (by rw [hold]; rfl)
        rw [hrow] at hkey
        cases hkey
    | some row =>
      obtain ⟨rfl, rfl⟩ := hfiled kind id row hrow
      refine hknown.seen row.kind row.id row hrow (not_lt.mp fun hnew => ?_)
      refine hsent row (mem_filter.mpr ⟨?_, by simpa using hnew⟩) rfl rfl
      exact (mem_allRows_iff hfiled row).mpr hrow

theorem rowAt_full (kind id : String) :
    rowAt (putRows ∅ ((allRows server.rows).filter fun _ => true)) kind id =
      rowAt server.rows kind id := by
  rw [filter_true]
  by_cases hsent : ∃ row ∈ allRows server.rows, row.kind = kind ∧ row.id = id
  · exact rowAt_putRows_of_mem (fun row hrow => (mem_allRows_iff hfiled row).mp hrow) hsent
  · push Not at hsent
    rw [rowAt_putRows_of_absent fun row hrow hkey => hsent row hrow hkey.1 hkey.2, rowAt_empty]
    cases hrow : rowAt server.rows kind id with
    | none => rfl
    | some row =>
      obtain ⟨rfl, rfl⟩ := hfiled kind id row hrow
      exact absurd rfl (hsent row ((mem_allRows_iff hfiled row).mpr hrow) rfl)

theorem hello_follows (hknown : Known server rows cursor) {asked : Option Nat}
    (hasked : asked = none ∨ asked = some cursor) :
    ∃ full floor incoming, server.hello asked = .state server.seq full floor incoming ∧
      Follows server (putRows (if full then ∅ else rows) incoming) server.seq [] := by
  refine ⟨_, _, _, rfl, le_refl _, fun kind id => ?_⟩
  rcases hasked with rfl | rfl
  · simpa using rowAt_full hfiled kind id
  · cases hfull : (decide (cursor < server.gcFloor) || decide (cursor > server.seq)) with
    | true => simpa [hfull] using rowAt_full hfiled kind id
    | false => simpa [hfull] using hknown.delta hfiled kind id

end Handshake

section Sessions

def ServerFrame.isState : ServerFrame → Bool
  | .state _ _ _ _ => true
  | _ => false

def ClientFrame.isHello : ClientFrame → Bool
  | .hello _ => true
  | _ => false

/-- A connection goes through three phases: the hello is on its way, its answer is
on its way, or the replica has applied the answer. -/
inductive SessionInv (server : RegistryServer) (rows : Rows) (cursor : Nat) :
    RegistrySession → Prop where
  | dialing {asked : Option Nat} {frames : List ServerFrame}
      (hasked : asked = none ∨ asked = some cursor)
      (hframes : ∀ frame ∈ frames, frame.isState = false) :
      SessionInv server rows cursor ⟨[.hello asked], frames, false, false⟩
  | answered {early late : List ServerFrame} {seq floor : Nat} {full : Bool}
      {incoming : List RegistryRow} (hearly : ∀ frame ∈ early, frame.isState = false)
      (hseq : cursor ≤ seq)
      (hlate : Follows server (putRows (if full then ∅ else rows) incoming) seq late) :
      SessionInv server rows cursor ⟨[], early ++ .state seq full floor incoming :: late, true, false⟩
  | joined {pushes : List ClientFrame} {frames : List ServerFrame}
      (hpushes : ∀ frame ∈ pushes, frame.isHello = false)
      (hfollows : Follows server rows cursor frames) :
      SessionInv server rows cursor ⟨pushes, frames, true, true⟩

variable {server next : RegistryServer} {touched : List RegistryRow} {rows : Rows} {cursor : Nat}
  {session : RegistrySession}

theorem SessionInv.advance (hsession : SessionInv server rows cursor session)
    (hadvances : Advances server next touched) :
    SessionInv next rows cursor
      { session with toClient := session.toClient ++ [.rows next.seq touched] } := by
  cases hsession with
  | dialing hasked hframes =>
    refine .dialing hasked fun frame hframe => ?_
    rcases mem_append.mp hframe with hold | hnew
    · exact hframes frame hold
    · rw [mem_singleton.mp hnew]
      rfl
  | answered hearly hseq hlate =>
    rw [append_assoc, cons_append]
    exact .answered hearly hseq (hlate.advance hadvances)
  | joined hpushes hfollows => exact .joined hpushes (hfollows.advance hadvances)

theorem SessionInv.setGcFloor (hsession : SessionInv server rows cursor session) (floor : Nat) :
    SessionInv { server with gcFloor := floor } rows cursor session := by
  cases hsession with
  | dialing hasked hframes => exact .dialing hasked hframes
  | answered hearly hseq hlate => exact .answered hearly hseq (hlate.setGcFloor floor)
  | joined hpushes hfollows => exact .joined hpushes (hfollows.setGcFloor floor)

theorem SessionInv.hello {asked : Option Nat} {frames : List ServerFrame} (hfiled : Filed server.rows)
    (hknown : Known server rows cursor) (hasked : asked = none ∨ asked = some cursor)
    (hframes : ∀ frame ∈ frames, frame.isState = false) :
    SessionInv server rows cursor ⟨[], frames ++ [server.hello asked], true, false⟩ := by
  obtain ⟨full, floor, incoming, hstate, hfollows⟩ := hello_follows hfiled hknown hasked
  rw [hstate]
  exact .answered hframes hknown.cursor_le hfollows

end Sessions

section System

variable {Client : Type}

/-- Every replica can resume from its cursor, and every connection carries its
replica to the server's rows. -/
structure SyncInv (system : RegistrySystem Client) : Prop where
  filed : Filed system.server.rows
  known : ∀ client, Known system.server (system.docs client).authoritative (system.docs client).serverSeq
  sessions : ∀ client session, system.sessions client = some session →
    SessionInv system.server (system.docs client).authoritative (system.docs client).serverSeq session

variable {system : RegistrySystem Client} {client : Client}

theorem SyncInv.start (devices : Client → String) : SyncInv (RegistrySystem.start devices) := by
  refine ⟨filed_empty, fun client => ⟨le_refl _, ?_, ?_⟩, fun client session hsession => ?_⟩
  · intro kind id row hrow
    simp [RegistrySystem.start] at hrow
  · intro kind id hsome
    simp [RegistrySystem.start, RegistryDoc.new] at hsome
  · cases hsession

theorem SyncInv.merge (hinv : SyncInv system) (ops : List RowOp) : SyncInv (system.merge ops) := by
  rcases system.server.push_cases ops with ⟨hnone, hsame⟩ | ⟨happlied, hserver⟩
  · have hmerge : system.merge ops = system := by
      simp only [RegistrySystem.merge, hsame, hnone, gt_iff_lt, lt_irrefl, if_false]
    rw [hmerge]
    exact hinv
  · have hadvances : Advances system.server (system.server.push ops).1 (system.server.push ops).2.1 := by
      refine ⟨?_, ?_, RegistryServer.push_touched_seq⟩
      · rw [hserver]
      · rw [hserver]
    have hmerge : system.merge ops =
        { system with
          server := (system.server.push ops).1
          sessions := RegistrySystem.broadcast system.sessions
            (.rows (system.server.push ops).1.seq (system.server.push ops).2.1) } := by
      simp only [RegistrySystem.merge, if_pos happlied]
    rw [hmerge]
    refine ⟨?_, fun other => (hinv.known other).advance hadvances, fun other value hvalue => ?_⟩
    · rw [hadvances.rows]
      exact hinv.filed.putRows _
    · obtain ⟨session, hsession, rfl⟩ := map_eq_some_iff.mp hvalue
      exact (hinv.sessions other session hsession).advance hadvances

theorem joined_merge {session : RegistrySession} {ops : List RowOp}
    (hjoined : ∀ value, system.sessions client = some value → value.joined = true)
    (hsession : (system.merge ops).sessions client = some session) : session.joined = true := by
  simp only [RegistrySystem.merge] at hsession
  split at hsession
  · obtain ⟨old, hold, rfl⟩ := map_eq_some_iff.mp hsession
    exact hjoined old hold
  · exact hjoined session hsession

variable [DecidableEq Client]

section
variable (hinv : SyncInv system)
include hinv

theorem SyncInv.setDoc {doc : RegistryDoc}
    (hrows : doc.authoritative = (system.docs client).authoritative)
    (hcursor : doc.serverSeq = (system.docs client).serverSeq) :
    SyncInv (system.setDoc client doc) := by
  have hdoc : ∀ other, ((system.setDoc client doc).docs other).authoritative =
      (system.docs other).authoritative ∧
      ((system.setDoc client doc).docs other).serverSeq = (system.docs other).serverSeq := by
    intro other
    by_cases hother : other = client
    · subst hother
      simp [RegistrySystem.setDoc, hrows, hcursor]
    · simp [RegistrySystem.setDoc, hother]
  refine ⟨hinv.filed, fun other => ?_, fun other session hsession => ?_⟩
  · rw [(hdoc other).1, (hdoc other).2]
    exact hinv.known other
  · rw [(hdoc other).1, (hdoc other).2]
    exact hinv.sessions other session hsession

theorem SyncInv.setSession {session : Option RegistrySession}
    (hsession : ∀ value, session = some value →
      SessionInv system.server (system.docs client).authoritative (system.docs client).serverSeq value) :
    SyncInv (system.setSession client session) := by
  refine ⟨hinv.filed, hinv.known, fun other value hvalue => ?_⟩
  by_cases hother : other = client
  · subst hother
    exact hsession value (by simpa [RegistrySystem.setSession] using hvalue)
  · exact hinv.sessions other value (by simpa [RegistrySystem.setSession, hother] using hvalue)

theorem SyncInv.setBoth {doc : RegistryDoc} {session : RegistrySession}
    (hknown : Known system.server doc.authoritative doc.serverSeq)
    (hsession : SessionInv system.server doc.authoritative doc.serverSeq session) :
    SyncInv ((system.setDoc client doc).setSession client (some session)) := by
  refine ⟨hinv.filed, fun other => ?_, fun other value hvalue => ?_⟩
  · by_cases hother : other = client
    · subst hother
      simpa [RegistrySystem.setDoc, RegistrySystem.setSession] using hknown
    · simpa [RegistrySystem.setDoc, RegistrySystem.setSession, hother] using hinv.known other
  · by_cases hother : other = client
    · subst hother
      have hvalue : session = value := by simpa [RegistrySystem.setSession] using hvalue
      subst hvalue
      simpa [RegistrySystem.setDoc, RegistrySystem.setSession] using hsession
    · have hvalue : system.sessions other = some value := by
        simpa [RegistrySystem.setDoc, RegistrySystem.setSession, hother] using hvalue
      simpa [RegistrySystem.setDoc, RegistrySystem.setSession, hother] using
        hinv.sessions other value hvalue

theorem SyncInv.reply_ack (batch : String) (applied : Nat)
    (hjoined : ∀ session, system.sessions client = some session → session.joined = true) :
    SyncInv (system.reply client (.ack batch system.server.seq applied)) := by
  apply hinv.setSession
  intro value hvalue
  obtain ⟨session, hsession, rfl⟩ := map_eq_some_iff.mp hvalue
  have hphase := hinv.sessions client session hsession
  have hjoin := hjoined session hsession
  cases hphase with
  | dialing | answered => cases hjoin
  | joined hpushes hfollows => exact .joined hpushes (hfollows.append_ack batch applied)

end

theorem LocalWrite.run_frame (doc : RegistryDoc) (write : LocalWrite) :
    (write.run doc).authoritative = doc.authoritative ∧ (write.run doc).serverSeq = doc.serverSeq := by
  cases write with
  | enqueueOps ops now =>
    obtain ⟨batches, hqueued⟩ := doc.enqueueOps_enqueued ops now
    exact ⟨hqueued.authoritative, hqueued.serverSeq⟩
  | write kind id op set now =>
    obtain ⟨batches, hqueued⟩ := (doc.writeOp kind id op set (now 0)).1.enqueueOps_enqueued
      [(doc.writeOp kind id op set (now 0)).2] fun tick => now (tick + 1)
    exact ⟨hqueued.authoritative, hqueued.serverSeq⟩
  | deleteRowOps keys now =>
    obtain ⟨batches, hqueued⟩ := (doc.deleteOps keys (now 0)).1.enqueueOps_enqueued
      (doc.deleteOps keys (now 0)).2 fun tick => now (tick + 1)
    exact ⟨hqueued.authoritative, hqueued.serverSeq⟩

theorem applyState_frame (doc : RegistryDoc) {seq : Nat} (full : Bool) (floor : Nat)
    (rows visit : List RegistryRow) (now : Nat → Int) (hseq : doc.serverSeq ≤ seq) :
    (doc.applyState seq full floor rows visit now).1.authoritative =
        putRows (if full then ∅ else doc.authoritative) rows ∧
      (doc.applyState seq full floor rows visit now).1.serverSeq = seq := by
  obtain ⟨middle, batches, hqueued, -, -, -, hcursor, hrows⟩ :=
    doc.applyState_enqueued seq full floor rows visit now
  rw [hqueued.authoritative, hqueued.serverSeq, hrows, hcursor]
  simp [hseq]

theorem SessionInv.receive {server : RegistryServer} {doc : RegistryDoc} {session : RegistrySession}
    {frame : ServerFrame} {rest : List ServerFrame}
    (hknown : Known server doc.authoritative doc.serverSeq)
    (hsession : SessionInv server doc.authoritative doc.serverSeq session)
    (hframes : session.toClient = frame :: rest) (visit : List RegistryRow) (now : Nat → Int) :
    let received := doc.receive session.joined visit now frame
    Known server received.1.authoritative received.1.serverSeq ∧
      SessionInv server received.1.authoritative received.1.serverSeq
        { session with toClient := rest, joined := received.2 } := by
  have hmax : ∀ seq, (if seq > doc.serverSeq then seq else doc.serverSeq) = max doc.serverSeq seq := by
    intro seq
    split <;> omega
  cases hsession with
  | @dialing asked frames hasked hearly =>
    obtain rfl : frames = frame :: rest := hframes
    rw [forall_mem_cons] at hearly
    cases frame with
    | state => cases hearly.1
    | rows | ack | error => exact ⟨hknown, .dialing hasked hearly.2⟩
  | @answered early late seq floor full incoming hearly hseq hlate =>
    cases early with
    | nil =>
      obtain ⟨rfl, rfl⟩ := List.cons.inj hframes
      obtain ⟨hrows, hcursor⟩ := applyState_frame doc full floor incoming visit now hseq
      simp only [RegistryDoc.receive, hrows, hcursor]
      exact ⟨hlate.known, .joined (by simp) hlate⟩
    | cons head early =>
      obtain ⟨rfl, rfl⟩ := List.cons.inj hframes
      rw [forall_mem_cons] at hearly
      cases head with
      | state => cases hearly.1
      | rows | ack | error => exact ⟨hknown, .answered hearly.2 hseq hlate⟩
  | @joined pushes frames hpushes hfollows =>
    obtain rfl : frames = frame :: rest := hframes
    cases frame with
    | state => exact hfollows.elim
    | rows seq incoming | ack batch seq applied =>
      have hnext := hfollows.2
      rw [← hmax] at hnext
      exact ⟨hnext.known, .joined hpushes hnext⟩
    | error => exact ⟨hknown, .joined hpushes hfollows.2⟩

theorem reply_setSession (session : RegistrySession) (frame : ServerFrame) :
    (system.setSession client (some session)).reply client frame =
      system.setSession client (some { session with toClient := session.toClient ++ [frame] }) := by
  simp [RegistrySystem.reply, RegistrySystem.setSession]

theorem SyncInv.serve {next : RegistrySystem Client} (hinv : SyncInv system)
    (hstep : system.step (.serve client) = some next) : SyncInv next := by
  simp only [RegistrySystem.step] at hstep
  split at hstep
  · cases hstep
  next session hsession =>
    have hphase := hinv.sessions client session hsession
    split at hstep
    · cases hstep
    next cursor rest hhello =>
      cases hstep
      cases hphase with
      | answered => cases hhello
      | @joined pushes frames hpushes =>
        obtain rfl : pushes = .hello cursor :: rest := hhello
        rw [forall_mem_cons] at hpushes
        cases hpushes.1
      | @dialing asked frames hasked hframes =>
        obtain ⟨hcursor, rfl⟩ := List.cons.inj hhello
        cases hcursor
        rw [reply_setSession]
        apply hinv.setSession
        intro value hvalue
        cases hvalue
        exact .hello hinv.filed (hinv.known client) hasked hframes
    next batch ops rest hpush =>
      cases hphase with
      | answered | dialing => cases hpush
      | @joined pushes frames hpushes hfollows =>
        obtain rfl : pushes = .push batch ops :: rest := hpush
        rw [forall_mem_cons] at hpushes
        simp only [if_true] at hstep
        cases hstep
        have htaken : SyncInv (system.setSession client (some ⟨rest, frames, true, true⟩)) := by
          apply hinv.setSession
          intro value hvalue
          cases hvalue
          exact .joined hpushes.2 hfollows
        apply (htaken.merge ops).reply_ack batch _
        intro session hmerged
        refine joined_merge (fun value hvalue => ?_) hmerged
        simp only [RegistrySystem.setSession, Function.update_self, Option.some.injEq] at hvalue
        rw [← hvalue]

theorem SyncInv.step {next : RegistrySystem Client} {action : SyncAction Client}
    (hinv : SyncInv system) (hstep : system.step action = some next) : SyncInv next := by
  cases action with
  | localWrite client write =>
    cases hstep
    obtain ⟨hrows, hcursor⟩ := write.run_frame (system.docs client)
    exact hinv.setDoc hrows hcursor
  | connect client =>
    simp only [RegistrySystem.step] at hstep
    split at hstep
    · cases hstep
    · cases hstep
      apply hinv.setSession
      intro value hvalue
      cases hvalue
      refine .dialing ?_ (by simp)
      rw [RegistryDoc.helloCursor]
      split
      · exact .inl rfl
      · exact .inr rfl
  | serve client => exact hinv.serve hstep
  | serveSevered index =>
    simp only [RegistrySystem.step] at hstep
    split at hstep
    · cases hstep
    next session _ =>
      split at hstep
      · cases hstep
      · cases hstep
        exact ⟨hinv.filed, hinv.known, hinv.sessions⟩
      next batch ops rest _ =>
        have hsame : SyncInv { system with
            severed := system.severed.set index { session with toServer := rest } } :=
          ⟨hinv.filed, hinv.known, hinv.sessions⟩
        split at hstep
        · cases hstep
          exact hsame.merge ops
        · cases hstep
          exact hsame
  | receive client visit now =>
    simp only [RegistrySystem.step] at hstep
    split at hstep
    · cases hstep
    next session hsession =>
      split at hstep
      · cases hstep
      next frame rest hframes =>
        split at hstep
        · cases hstep
          obtain ⟨hknown, hnext⟩ := SessionInv.receive (hinv.known client)
            (hinv.sessions client session hsession) hframes visit now
          exact hinv.setBoth hknown hnext
        · cases hstep
  | pushPending client =>
    simp only [RegistrySystem.step] at hstep
    split at hstep
    · cases hstep
    next session hsession =>
      have hphase := hinv.sessions client session hsession
      cases hphase with
      | dialing | answered => cases hstep
      | @joined pushes frames hpushes hfollows =>
        cases hstep
        refine hinv.setBoth (hinv.known client) (.joined (fun frame hframe => ?_) hfollows)
        rcases mem_append.mp hframe with hold | hnew
        · exact hpushes frame hold
        · obtain ⟨entry, -, rfl⟩ := mem_map.mp hnew
          rfl
  | disconnect client delivered =>
    simp only [RegistrySystem.step] at hstep
    split at hstep
    · cases hstep
    next session hsession =>
      cases hstep
      have hmarked : SyncInv (system.setDoc client (system.docs client).markDisconnected) :=
        hinv.setDoc rfl rfl
      have hdropped : SyncInv ((system.setDoc client
          (system.docs client).markDisconnected).setSession client none) :=
        hmarked.setSession (by simp)
      exact ⟨hdropped.filed, hdropped.known, hdropped.sessions⟩
  | setGcFloor floor =>
    cases hstep
    refine ⟨hinv.filed, fun other => ?_, fun other session hsession => ?_⟩
    · exact (hinv.known other).setGcFloor floor
    · exact (hinv.sessions other session hsession).setGcFloor floor

/-- The row of the server as a replica should display it. -/
def RegistryServer.liveRow (server : RegistryServer) (kind id : String) : Option RegistryRow :=
  (rowAt server.rows kind id).filter fun row => !row.deleted

/-- In every run, a connected replica with nothing queued and no frame on its way to
it displays exactly the server's live rows. -/
theorem quiescent_overlay_eq_liveRow {devices : Client → String}
    {trace : List (SyncAction Client)} {final : RegistrySystem Client} {session : RegistrySession}
    (hrun : Trace.run RegistrySystem.step (.start devices) trace = some final)
    (hsession : final.sessions client = some session) (hconnected : session.joined = true)
    (hpending : (final.docs client).pending = []) (hquiet : session.toClient = []) :
    ∀ kind id, (final.docs client).overlayRow kind id = final.server.liveRow kind id := by
  have hinv : SyncInv final :=
    Trace.run_invariant (fun _ _ _ hinv hstep => hinv.step hstep) (SyncInv.start devices) hrun
  intro kind id
  have hphase := hinv.sessions client session hsession
  cases hphase with
  | dialing | answered => cases hconnected
  | @joined pushes frames hpushes hfollows =>
    obtain rfl : frames = [] := hquiet
    rw [RegistryDoc.overlayRow, RegistryServer.liveRow, ← hfollows.2 kind id,
      RegistryDoc.overlaid, hpending]
    rfl

end System

section Example

def namedChat : RegistryRow :=
  { kind := "chats", id := "c1", seq := 1, deleted := false, delHlc := none
    fields := Std.ExtTreeMap.ofList [("title", Json.string "first")]
    clocks := Std.ExtTreeMap.ofList [("title", encodeHlc 1000 0 "d1")] }

/-- One device names a chat, pushes it and loses the connection before the
acknowledgement; it connects again and pushes once more. Another device connects
in between. -/
def namingTrace : List (SyncAction Bool) :=
  [.connect true, .serve true, .receive true [] fun _ => 1000,
    .localWrite true (.write "chats" "c1" .upsert (Std.ExtTreeMap.ofList [("title", Json.string "first")])
      fun _ => 1000),
    .pushPending true, .serve true, .disconnect true 0,
    .connect false, .serve false, .receive false [] fun _ => 1000,
    .connect true, .serve true, .receive true [] fun _ => 1000, .pushPending true, .serve true,
    .receive true [namedChat] fun _ => 1000]

def namingDevice : Bool → String
  | true => "d1"
  | false => "d2"

theorem quiescent_overlay_naming :
    ∃ final : RegistrySystem Bool,
      Trace.run RegistrySystem.step (.start namingDevice) namingTrace = some final ∧
        ((final.docs false).overlayRow "chats" "c1") = some namedChat ∧
        ∀ kind id, (final.docs true).overlayRow kind id = final.server.liveRow kind id := by
  have hcompletes : (Trace.run RegistrySystem.step (.start namingDevice) namingTrace).isSome = true := by
    decide
  obtain ⟨final, hrun⟩ := isSome_iff_exists.mp hcompletes
  have hother : (Trace.run RegistrySystem.step (.start namingDevice) namingTrace).bind
      (fun final => (final.docs false).overlayRow "chats" "c1") = some namedChat := by decide
  have hsession : ((Trace.run RegistrySystem.step (.start namingDevice) namingTrace).bind
      fun final => final.sessions true).map (fun session => (session.joined,
        session.toClient.length)) =
      some (true, 0) := by decide
  have hpending : (Trace.run RegistrySystem.step (.start namingDevice) namingTrace).map
      (fun final => (final.docs true).pending) = some [] := by decide
  rw [hrun] at hother hsession hpending
  obtain ⟨session, hsession, hphase⟩ := map_eq_some_iff.mp hsession
  obtain ⟨hjoined, hquiet⟩ := Prod.mk.inj hphase
  exact ⟨final, hrun, hother, quiescent_overlay_eq_liveRow hrun hsession hjoined
    (Option.some.inj hpending) (length_eq_zero_iff.mp hquiet)⟩

end Example

end Keel
