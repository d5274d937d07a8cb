import Keel.Foundation.Lists
import Keel.Engine.CommandDrain

/-! # At-most-once execution of durable commands

The claim and the selection of a command are separate steps, and a drain does
not look at whether its claim inserted the ledger row. Executions are at most
once in every run in which the claims of commands to be run insert their rows.
One drain at a time claims that way by itself, across every crash.
-/

namespace Keel

open List Function

/-- Every command of the document with a host outcome is in the ledger. -/
def Covered (store : DocsStore SessionDoc) (doc : SessionDoc) : Prop :=
  ∀ entry ∈ doc.commands, entry.status.isHostOutcome = true → store.isProcessed entry.id = true

namespace Covered

variable {store : DocsStore SessionDoc} {doc : SessionDoc}

theorem mono {larger : DocsStore SessionDoc} (hcovered : Covered store doc)
    (hlarger : ∀ id, store.isProcessed id = true → larger.isProcessed id = true) :
    Covered larger doc :=
  fun entry hentry houtcome => hlarger entry.id (hcovered entry hentry houtcome)

theorem init (store : DocsStore SessionDoc) (chatId : String) : Covered store (.init chatId) := by
  simp [Covered, SessionDoc.init]

theorem queueCommand (hcovered : Covered store doc) {entry : SessionCommandEntry}
    (hpending : entry.status = .pending) : Covered store (doc.queueCommand entry) := by
  intro command hcommand houtcome
  simp only [SessionDoc.queueCommand, mem_append, mem_singleton] at hcommand
  rcases hcommand with hcommand | rfl
  · exact hcovered command hcommand houtcome
  · simp [hpending, SessionCommandStatus.isHostOutcome] at houtcome

/-- An outcome written under a claimed id, or a cancellation, keeps coverage. -/
theorem resolveCommand (hcovered : Covered store doc) {commandId : String}
    {status : SessionCommandStatus} (resolution : Option String)
    (hclaimed : status.isHostOutcome = true → store.isProcessed commandId = true) :
    Covered store (Keel.resolveCommand doc commandId status resolution) := by
  unfold Keel.resolveCommand SessionDoc.setCommandStatus
  split
  next written hwritten =>
    split at hwritten
    · cases hwritten
      intro command hcommand houtcome
      rcases Lists.mem_of_mem_lookmap hcommand with hcommand | ⟨entry, -, hupdated⟩
      · exact hcovered command hcommand houtcome
      · split at hupdated
        next heq =>
          cases hupdated
          exact heq ▸ hclaimed houtcome
        · cases hupdated
    · cases hwritten
  · exact hcovered

theorem rebuild [LineDiff] [Serde] {rebuilt : ThinRebuild}
    (hrebuild : rebuildThinDoc doc = .ok rebuilt) : Covered store rebuilt.doc := by
  intro entry hentry houtcome
  simp [pending_of_mem_rebuild hrebuild hentry, SessionCommandStatus.isHostOutcome] at houtcome

end Covered

namespace HostState

variable {P : Type}

/-- The claim of a command to be run finds its id unclaimed. -/
def claimsFresh (state : HostState P) : HostAction P → Bool
  | .mark pass _ true =>
    match state.phase pass with
    | some (.evaluated entry .execute) => !state.store.isProcessed entry.id
    | _ => true
  | _ => true

/-- Ids handed to the executor or claimed for it are in the ledger, a claimed id
has not run, and it is claimed by one pass. -/
structure ClaimedOnce (state : HostState P) : Prop where
  executed_nodup : state.executed.Nodup
  executed_processed : ∀ id ∈ state.executed, state.store.isProcessed id = true
  claim_processed : ∀ pass id, state.claim pass = some id → state.store.isProcessed id = true
  claim_fresh : ∀ pass id, state.claim pass = some id → id ∉ state.executed
  claim_unique : ∀ pass other id, state.claim pass = some id → state.claim other = some id →
    pass = other

theorem claimedOnce_boot (store : DocsStore SessionDoc) : ClaimedOnce (boot store : HostState P) where
  executed_nodup := .nil
  executed_processed := by simp [boot]
  claim_processed := by simp [boot, claim, phase]
  claim_fresh := by simp [boot, claim, phase]
  claim_unique := by simp [boot, claim, phase]

theorem ClaimedOnce.mono {state next : HostState P} (hstate : ClaimedOnce state)
    (hexecuted : next.executed = state.executed)
    (hprocessed : next.store.processed = state.store.processed)
    (hclaims : ∀ pass id, next.claim pass = some id → state.claim pass = some id) :
    ClaimedOnce next := by
  have hsame := DocsStore.isProcessed_congr hprocessed
  refine ⟨hexecuted ▸ hstate.executed_nodup, ?_, ?_, ?_, ?_⟩
  · intro id hid
    rw [hsame]
    exact hstate.executed_processed id (hexecuted ▸ hid)
  · intro pass id hclaim
    rw [hsame]
    exact hstate.claim_processed pass id (hclaims pass id hclaim)
  · intro pass id hclaim
    rw [hexecuted]
    exact hstate.claim_fresh pass id (hclaims pass id hclaim)
  · intro pass other id hclaim hother
    exact hstate.claim_unique pass other id (hclaims pass id hclaim) (hclaims other id hother)

theorem ClaimedOnce.quiet {state next : HostState P} (hstate : ClaimedOnce state)
    (hquiet : Quiet state next) : ClaimedOnce next := by
  apply hstate.mono hquiet.executed_eq hquiet.processed_eq
  intro pass id hclaim
  obtain ⟨entry, hphase, rfl⟩ := phase_of_claim hclaim
  exact claim_of_phase (hquiet.phase_eq pass _ hphase rfl)

variable [DecidableEq P]

theorem claim_update {state next : HostState P} {pass : P} {value : PassPhase}
    (hphase : next.phase = update state.phase pass (some value)) {other : P} {id : String}
    (hclaim : next.claim other = some id) :
    (other = pass ∧ ∃ entry, value = .marked entry .execute ∧ entry.id = id) ∨
      (other ≠ pass ∧ state.claim other = some id) := by
  obtain ⟨entry, hentry, rfl⟩ := phase_of_claim hclaim
  rw [hphase] at hentry
  by_cases heq : other = pass
  · subst heq
    rw [update_self] at hentry
    exact .inl ⟨rfl, entry, Option.some.inj hentry, rfl⟩
  · rw [update_of_ne heq] at hentry
    exact .inr ⟨heq, claim_of_phase hentry⟩

/-- A fresh claim keeps the invariant: nothing ran or was claimed under its id. -/
theorem ClaimedOnce.mark {state next : HostState P} (hstate : ClaimedOnce state) {pass : P}
    {nowMs : Int} {entry : SessionCommandEntry} {disposition : CommandDisposition}
    (hfresh : disposition = .execute → state.store.isProcessed entry.id = false)
    (hexecuted : next.executed = state.executed)
    (hstore : next.store = (state.store.markProcessed entry.id nowMs).1)
    (hphase : next.phase = update state.phase pass (some (.marked entry disposition))) :
    ClaimedOnce next := by
  have hgrow : ∀ id, state.store.isProcessed id = true → next.store.isProcessed id = true := by
    intro id hid
    simp [hstore, hid]
  have hunclaimed : ∀ other, disposition = .execute → state.claim other ≠ some entry.id := by
    intro other hdisposition hclaim
    have hprocessed := hstate.claim_processed other entry.id hclaim
    rw [hfresh hdisposition] at hprocessed
    cases hprocessed
  refine ⟨hexecuted ▸ hstate.executed_nodup, ?_, ?_, ?_, ?_⟩
  · intro id hid
    exact hgrow id (hstate.executed_processed id (hexecuted ▸ hid))
  · intro other id hclaim
    rcases claim_update hphase hclaim with ⟨-, marked, hmarked, rfl⟩ | ⟨-, hclaim⟩
    · cases hmarked
      simp [hstore]
    · exact hgrow id (hstate.claim_processed other id hclaim)
  · intro other id hclaim hmem
    rw [hexecuted] at hmem
    rcases claim_update hphase hclaim with ⟨-, marked, hmarked, rfl⟩ | ⟨-, hclaim⟩
    · cases hmarked
      have hprocessed := hstate.executed_processed entry.id hmem
      rw [hfresh rfl] at hprocessed
      cases hprocessed
    · exact hstate.claim_fresh other id hclaim hmem
  · intro first second id hfirst hsecond
    rcases claim_update hphase hfirst with ⟨rfl, marked, hmarked, rfl⟩ | ⟨-, hfirst⟩
    · cases hmarked
      rcases claim_update hphase hsecond with ⟨rfl, -⟩ | ⟨-, hsecond⟩
      · rfl
      · exact absurd hsecond (hunclaimed second rfl)
    · rcases claim_update hphase hsecond with ⟨rfl, marked, hmarked, rfl⟩ | ⟨-, hsecond⟩
      · cases hmarked
        exact absurd hfirst (hunclaimed first rfl)
      · exact hstate.claim_unique first second id hfirst hsecond

theorem ClaimedOnce.execute {state next : HostState P} (hstate : ClaimedOnce state) {pass : P}
    {entry : SessionCommandEntry} (hmarked : state.phase pass = some (.marked entry .execute))
    (hexecuted : next.executed = entry.id :: state.executed)
    (hstore : next.store = state.store)
    (hphase : next.phase = update state.phase pass (some (.executing entry))) :
    ClaimedOnce next := by
  have hclaimed := claim_of_phase hmarked
  have hkept : ∀ other id, next.claim other = some id →
      other ≠ pass ∧ state.claim other = some id := by
    intro other id hclaim
    rcases claim_update hphase hclaim with ⟨-, _, hexecuting, -⟩ | hkept
    · cases hexecuting
    · exact hkept
  refine ⟨?_, ?_, ?_, ?_, ?_⟩
  · rw [hexecuted]
    exact nodup_cons.mpr ⟨hstate.claim_fresh pass _ hclaimed, hstate.executed_nodup⟩
  · intro id hid
    rw [hstore]
    rcases mem_cons.mp (hexecuted ▸ hid) with rfl | hid
    · exact hstate.claim_processed pass _ hclaimed
    · exact hstate.executed_processed id hid
  · intro other id hclaim
    exact hstore ▸ hstate.claim_processed other id (hkept other id hclaim).2
  · intro other id hclaim hmem
    obtain ⟨hne, hold⟩ := hkept other id hclaim
    rcases mem_cons.mp (hexecuted ▸ hmem) with rfl | hmem
    · exact hne (hstate.claim_unique other pass _ hold hclaimed)
    · exact hstate.claim_fresh other id hold hmem
  · intro first second id hfirst hsecond
    exact hstate.claim_unique first second id (hkept first id hfirst).2 (hkept second id hsecond).2

theorem ClaimedOnce.step [LineDiff] [Serde] {state next : HostState P} {action : HostAction P}
    (hstate : ClaimedOnce state) (hfresh : state.claimsFresh action = true)
    (hstep : state.step action = some next) : ClaimedOnce next := by
  rcases step_cases hstep with hquiet |
    ⟨pass, nowMs, entry, commands, disposition, -, -, -, hexecuted, hstore, hphase⟩ |
    ⟨pass, nowMs, entry, disposition, rfl, hevaluated, hexecuted, hstore, hphase⟩ |
    ⟨pass, entry, hmarked, hexecuted, hstore, hphase⟩
  · exact hstate.quiet hquiet
  · apply hstate.mono hexecuted (congrArg DocsStore.processed hstore)
    intro other id hclaim
    rcases claim_update hphase hclaim with ⟨-, _, hevaluated, -⟩ | ⟨-, hclaim⟩
    · cases hevaluated
    · exact hclaim
  -- The guard speaks about marks of commands to be run, the only ones that claim.
  · refine hstate.mark ?_ hexecuted hstore hphase
    rintro rfl
    simpa [claimsFresh, hevaluated] using hfresh
  · exact hstate.execute hmarked hexecuted hstore hphase

/-- Concurrent drains over one store run every command at most once, provided
each claim of a command to be run inserts its ledger row. -/
theorem executed_nodup_of_claimsFresh [LineDiff] [Serde] (store : DocsStore SessionDoc)
    (trace : List (HostAction P)) (final : HostState P)
    (hfresh : Trace.Guarded HostState.step (fun state action => state.claimsFresh action = true)
      (boot store) trace)
    (hrun : Trace.run HostState.step (boot store) trace = some final) :
    final.executed.Nodup := by
  have hclaimed : ClaimedOnce final :=
    Trace.guarded_invariant (fun _ _ _ hstate hguard hstep => hstate.step hguard hstep)
      (claimedOnce_boot store) hfresh hrun
  exact hclaimed.executed_nodup

/-- What a pass that stands at a phase relies on: a command evaluated to run is
unclaimed, and a command acted on is claimed. -/
def PhaseSound (store : DocsStore SessionDoc) : PassPhase → Prop
  | .evaluated entry .execute => store.isProcessed entry.id = false
  | .marked entry _ | .executing entry => store.isProcessed entry.id = true
  | _ => True

/-- Open and saved documents are covered by the ledger, and passes are sound. -/
structure LedgerCovers (state : HostState P) : Prop where
  live : ∀ chatId doc, state.handles chatId = some doc → Covered state.store doc
  saved : ∀ row ∈ state.store.snapshots, Covered state.store row.bytes
  pass : ∀ pass phase, state.phase pass = some phase → PhaseSound state.store phase

namespace LedgerCovers

variable {state : HostState P}

omit [DecidableEq P] in
theorem boot {store : DocsStore SessionDoc}
    (hsaved : ∀ row ∈ store.snapshots, Covered store row.bytes) :
    LedgerCovers (HostState.boot store : HostState P) where
  live := by simp [HostState.boot]
  saved := hsaved
  pass := by simp [HostState.boot, phase]

theorem setPass (hstate : LedgerCovers state) (moved : P) {value : Option Pass}
    (hvalue : ∀ current, value = some current → PhaseSound state.store current.phase) :
    LedgerCovers (state.setPass moved value) where
  live := hstate.live
  saved := hstate.saved
  pass other phase hphase := by
    rw [phase_setPass] at hphase
    by_cases heq : other = moved
    · subst heq
      rw [update_self, Option.map_eq_some_iff] at hphase
      obtain ⟨current, hcurrent, rfl⟩ := hphase
      exact hvalue current hcurrent
    · rw [update_of_ne heq] at hphase
      exact hstate.pass other phase hphase

section
omit [DecidableEq P]

theorem setDoc (hstate : LedgerCovers state) (chatId : String) {doc : SessionDoc}
    (hdoc : Covered state.store doc) : LedgerCovers (state.setDoc chatId doc) where
  live other found hfound := by
    by_cases heq : other = chatId
    · subst heq
      simp only [HostState.setDoc, update_self, Option.some.injEq] at hfound
      exact hfound ▸ hdoc
    · simp only [HostState.setDoc, update_of_ne heq] at hfound
      exact hstate.live other found hfound
  saved := hstate.saved
  pass := hstate.pass

theorem withStore (hstate : LedgerCovers state) {store : DocsStore SessionDoc}
    (hprocessed : store.processed = state.store.processed)
    (hsaved : ∀ row ∈ store.snapshots, Covered state.store row.bytes) :
    LedgerCovers { state with store } := by
  have hsame := DocsStore.isProcessed_congr hprocessed
  refine ⟨?_, ?_, ?_⟩
  · intro chatId doc hdoc
    exact (hstate.live chatId doc hdoc).mono (by simp [hsame])
  · intro row hrow
    exact (hsaved row hrow).mono (by simp [hsame])
  · intro pass phase hphase
    have hsound := hstate.pass pass phase hphase
    cases phase with
    | scanning | selected entry commands => trivial
    | evaluated entry disposition =>
      cases disposition with
      | execute => simpa only [PhaseSound, hsame] using hsound
      | skip | expired | superseded => trivial
    | marked entry disposition | executing entry => simpa only [PhaseSound, hsame] using hsound

theorem openChat (hstate : LedgerCovers state) (chatId : String) :
    LedgerCovers (state.openChat chatId) := by
  unfold HostState.openChat
  split
  · exact hstate
  · apply hstate.setDoc chatId
    cases hload : state.store.loadSnapshot chatId with
    | none => exact Covered.init _ _
    | some doc =>
      obtain ⟨row, hrow, rfl⟩ := DocsStore.mem_of_loadSnapshot hload
      exact hstate.saved row hrow

theorem passSound (hstate : LedgerCovers state) {pass : P} {current : Pass}
    (hcurrent : state.passes pass = some current) : PhaseSound state.store current.phase :=
  hstate.pass pass current.phase (by simp [phase, hcurrent])

end

theorem mark [Subsingleton P] (hstate : LedgerCovers state) (pass : P) (current : Pass)
    (entry : SessionCommandEntry) (disposition : CommandDisposition) (nowMs : Int) :
    LedgerCovers
      { state.setPass pass (some { current with phase := .marked entry disposition }) with
        store := (state.store.markProcessed entry.id nowMs).1 } := by
  have hgrow : ∀ id, state.store.isProcessed id = true →
      (state.store.markProcessed entry.id nowMs).1.isProcessed id = true := by
    intro id hid
    simp [hid]
  refine ⟨fun chatId doc hdoc => (hstate.live chatId doc hdoc).mono hgrow, ?_, ?_⟩
  · intro row hrow
    rw [DocsStore.snapshots_markProcessed] at hrow
    exact (hstate.saved row hrow).mono hgrow
  · intro other phase hphase
    obtain rfl := Subsingleton.elim other pass
    change (state.setPass other _).phase other = some phase at hphase
    rw [phase_setPass, update_self] at hphase
    cases hphase
    simp [PhaseSound]

omit [DecidableEq P] in
/-- The thin document holds only pending commands, and the rollback copy is a
saved document. -/
theorem rebuild [LineDiff] [Serde] (hstate : LedgerCovers state) {chatId : String}
    {doc : SessionDoc} {rebuilt : ThinRebuild} {store : DocsStore SessionDoc}
    (hrebuilt : rebuildThinDoc doc = .ok rebuilt)
    (hstore : store = state.store ∨ ∃ old rollbackId, state.store.loadSnapshot chatId = some old ∧
      store = state.store.saveSnapshot rollbackId old) :
    LedgerCovers { state with
      store := store.saveSnapshotWithCursor chatId rebuilt.doc 0 thinDocEpoch
      handles := update state.handles chatId none } := by
  have hprocessed : store.processed = state.store.processed := by
    rcases hstore with rfl | ⟨old, rollbackId, -, rfl⟩
    · rfl
    · exact DocsStore.processed_saveSnapshot ..
  have hrows : ∀ row ∈ store.snapshots, Covered state.store row.bytes := by
    rcases hstore with rfl | ⟨old, rollbackId, hold, rfl⟩
    · exact hstate.saved
    · intro row hrow
      rcases DocsStore.mem_saveSnapshot hrow with hrow | rfl
      · exact hstate.saved row hrow
      · obtain ⟨source, hsource, hbytes⟩ := DocsStore.mem_of_loadSnapshot hold
        exact hbytes ▸ hstate.saved source hsource
  have hsaved : LedgerCovers { state with
      store := store.saveSnapshotWithCursor chatId rebuilt.doc 0 thinDocEpoch } := by
    refine hstate.withStore hprocessed ?_
    intro row hrow
    rcases DocsStore.mem_saveSnapshotWithCursor hrow with hrow | hbytes
    · exact hrows row hrow
    · exact hbytes ▸ Covered.rebuild hrebuilt
  refine ⟨?_, hsaved.saved, hsaved.pass⟩
  intro other found hfound
  by_cases heq : other = chatId
  · simp [heq] at hfound
  · simp only [update_of_ne heq] at hfound
    exact hsaved.live other found hfound

theorem step [LineDiff] [Serde] [Subsingleton P] {next : HostState P} {action : HostAction P}
    (hstate : LedgerCovers state) (hstep : state.step action = some next) :
    LedgerCovers next := by
  cases action with
  | openChat chatId =>
    cases hstep
    exact hstate.openChat chatId
  | queue chatId entry =>
    simp only [HostState.step, Option.bind_eq_bind, Option.bind_eq_some_iff, Option.pure_def,
      Option.some.injEq] at hstep
    obtain ⟨⟨⟩, hpending, doc, hdoc, rfl⟩ := hstep
    exact hstate.setDoc chatId
      ((hstate.live chatId doc hdoc).queueCommand (by simpa [guard] using hpending))
  | cancel chatId commandId deviceId =>
    simp only [HostState.step, Option.bind_eq_bind, Option.bind_eq_some_iff, Option.pure_def,
      Option.some.injEq] at hstep
    obtain ⟨doc, hdoc, entry, -, -, -, rfl⟩ := hstep
    exact hstate.setDoc chatId ((hstate.live chatId doc hdoc).resolveCommand none
      (by simp [SessionCommandStatus.isHostOutcome]))
  | start pass chatId =>
    simp only [HostState.step, Option.bind_eq_bind, Option.bind_eq_some_iff, Option.pure_def,
      Option.some.injEq] at hstep
    obtain ⟨-, -, -, -, rfl⟩ := hstep
    apply hstate.setPass pass
    rintro current ⟨⟩
    trivial
  | select pass =>
    obtain ⟨value, rfl, hvalue⟩ := select_cases hstep
    apply hstate.setPass pass
    rintro current rfl
    obtain ⟨entry, commands, hselected⟩ := hvalue current.phase rfl
    simp [hselected, PhaseSound]
  | evaluate pass nowMs =>
    obtain ⟨current, entry, commands, disposition, -, -, rfl, hunclaimed⟩ := evaluate_cases hstep
    apply hstate.setPass pass
    rintro moved ⟨⟩
    cases disposition with
    | execute => exact hunclaimed rfl
    | skip | expired | superseded => trivial
  | mark pass nowMs written =>
    obtain ⟨current, entry, disposition, -, -, hnext⟩ := mark_cases hstep
    rcases hnext with ⟨-, rfl⟩ | ⟨-, rfl⟩
    · exact hstate.setPass pass (by simp)
    · exact hstate.mark pass current entry disposition nowMs
  | settle pass =>
    obtain ⟨current, entry, disposition, doc, hcurrent, hphase, hdoc, skipped, hnext⟩ :=
      settle_cases hstep
    have hclaimed : state.store.isProcessed entry.id = true := by
      simpa [hphase, PhaseSound] using hstate.passSound hcurrent
    rcases hnext with rfl | ⟨status, rfl⟩
    · apply hstate.setPass pass
      rintro moved ⟨⟩
      trivial
    · refine (hstate.setDoc current.chatId ((hstate.live _ doc hdoc).resolveCommand none
        fun _ => hclaimed)).setPass pass ?_
      rintro moved ⟨⟩
      trivial
  | execute pass =>
    obtain ⟨current, entry, hcurrent, hphase, rfl⟩ := execute_cases hstep
    have hclaimed : state.store.isProcessed entry.id = true := by
      simpa [hphase, PhaseSound] using hstate.passSound hcurrent
    have hmoved : LedgerCovers
        (state.setPass pass (some { current with phase := .executing entry })) := by
      apply hstate.setPass pass
      rintro moved ⟨⟩
      exact hclaimed
    exact ⟨hmoved.live, hmoved.saved, hmoved.pass⟩
  | finish pass applied resolution =>
    obtain ⟨current, entry, doc, hcurrent, hphase, hdoc, status, rfl⟩ := finish_cases hstep
    have hclaimed : state.store.isProcessed entry.id = true := by
      simpa [hphase, PhaseSound] using hstate.passSound hcurrent
    refine (hstate.setDoc current.chatId ((hstate.live _ doc hdoc).resolveCommand resolution
      fun _ => hclaimed)).setPass pass ?_
    rintro moved ⟨⟩
    trivial
  | save chatId =>
    simp only [HostState.step, Option.bind_eq_bind, Option.bind_eq_some_iff, Option.pure_def,
      Option.some.injEq] at hstep
    obtain ⟨doc, hdoc, rfl⟩ := hstep
    apply hstate.withStore (DocsStore.processed_saveSnapshot ..)
    intro row hrow
    rcases DocsStore.mem_saveSnapshot hrow with hrow | rfl
    · exact hstate.saved row hrow
    · exact hstate.live chatId _ hdoc
  | rebuild chatId =>
    obtain ⟨doc, rebuilt, store, hdoc, hrebuilt, hstore, rfl⟩ := rebuild_cases hstep
    exact hstate.rebuild hrebuilt hstore
  | crash =>
    cases hstep
    exact ⟨by simp, hstate.saved, by simp [phase]⟩

end LedgerCovers

omit [DecidableEq P] in
theorem LedgerCovers.claimsFresh {state : HostState P} (hstate : LedgerCovers state)
    (action : HostAction P) : state.claimsFresh action = true := by
  unfold HostState.claimsFresh
  split
  next pass nowMs =>
    split
    next entry hphase =>
      have hunclaimed : state.store.isProcessed entry.id = false := hstate.pass pass _ hphase
      simp [hunclaimed]
    · rfl
  · rfl

/-- One drain at a time: over every run with crashes, restarts and rebuilds no
command is executed twice, and every open or saved command with a host outcome
is in the processed ledger. -/
theorem singleDrain_atMostOnce [LineDiff] [Serde] (store : DocsStore SessionDoc)
    (hsaved : ∀ row ∈ store.snapshots, Covered store row.bytes)
    (trace : List (HostAction Unit)) (final : HostState Unit)
    (hrun : Trace.run HostState.step (boot store) trace = some final) :
    final.executed.Nodup ∧
      (∀ chatId doc, final.handles chatId = some doc → Covered final.store doc) ∧
      ∀ row ∈ final.store.snapshots, Covered final.store row.bytes := by
  have hpreserved : ∀ (state : HostState Unit) action next, LedgerCovers state →
      state.step action = some next → LedgerCovers next :=
    fun _ _ _ hstate hstep => hstate.step hstep
  have hboot : LedgerCovers (boot store : HostState Unit) := LedgerCovers.boot hsaved
  have hcovers : LedgerCovers final := Trace.run_invariant hpreserved hboot hrun
  have hfresh : Trace.Guarded HostState.step
      (fun state action => state.claimsFresh action = true) (boot store) trace :=
    Trace.guarded_of_invariant hpreserved (fun _ action _ hstate _ => hstate.claimsFresh action)
      hboot hrun
  have hclaimed : ClaimedOnce final :=
    Trace.guarded_invariant (fun _ _ _ hstate hguard hstep => hstate.step hguard hstep)
      (claimedOnce_boot store) hfresh hrun
  exact ⟨hclaimed.executed_nodup, hcovers.live, hcovers.saved⟩

section Examples

local instance : LineDiff := .replaceAll
local instance : Serde := .verbatim

/-- A pending interrupt, issued at time zero by this device. -/
def interruptCommand (id : String) : SessionCommandEntry :=
  { id, payload := .interrupt, issuedBy := "device", issuedAt := 0, basedOn := none,
    expiresAt := none, status := .pending, resolution := none }

/-- Two drains of one chat, one iteration after the other. -/
def oneAfterTheOther : List (HostAction Bool) :=
  [.openChat "chat", .queue "chat" (interruptCommand "c1"), .start true "chat",
    .start false "chat", .select true, .evaluate true 1, .mark true 1 true, .execute true,
    .queue "chat" (interruptCommand "c2"), .select false, .evaluate false 2, .mark false 2 true,
    .execute false, .finish true true none, .finish false true none]

theorem executed_nodup_oneAfterTheOther :
    ∃ final : HostState Bool,
      Trace.run HostState.step (boot ⟨[], []⟩) oneAfterTheOther = some final ∧
      final.executed = ["c2", "c1"] ∧ final.executed.Nodup := by
  have hexecuted : (Trace.run HostState.step (boot ⟨[], []⟩) oneAfterTheOther).map
      HostState.executed = some ["c2", "c1"] := by decide
  obtain ⟨final, hrun, hfinal⟩ := Option.map_eq_some_iff.mp hexecuted
  exact ⟨final, hrun, hfinal,
    executed_nodup_of_claimsFresh ⟨[], []⟩ oneAfterTheOther final (by decide) hrun⟩

/-- The process dies while a command executes; the next process drains the saved
document, rebuilds it, and drains again. -/
def crashWhileExecuting : List (HostAction Unit) :=
  [.openChat "chat", .queue "chat" (interruptCommand "c1"), .save "chat", .start () "chat",
    .select (), .evaluate () 1, .mark () 1 true, .execute (), .crash,
    .openChat "chat", .queue "chat" (interruptCommand "c2"), .start () "chat", .select (),
    .evaluate () 2, .mark () 2 true, .execute (), .finish () false none, .rebuild "chat", .crash,
    .openChat "chat", .start () "chat", .select ()]

theorem singleDrain_atMostOnce_crashWhileExecuting :
    ∃ final : HostState Unit,
      Trace.run HostState.step (boot ⟨[], []⟩) crashWhileExecuting = some final ∧
      final.executed = ["c2", "c1"] ∧ final.executed.Nodup := by
  have hexecuted : (Trace.run HostState.step (boot ⟨[], []⟩) crashWhileExecuting).map
      HostState.executed = some ["c2", "c1"] := by decide
  obtain ⟨final, hrun, hfinal⟩ := Option.map_eq_some_iff.mp hexecuted
  exact ⟨final, hrun, hfinal,
    (singleDrain_atMostOnce ⟨[], []⟩ (by simp) crashWhileExecuting final hrun).1⟩

/-- Both drains select and evaluate the command before either claims it. -/
def bothSelectFirst : List (HostAction Bool) :=
  [.openChat "chat", .queue "chat" (interruptCommand "c1"), .start true "chat",
    .start false "chat", .select true, .select false, .evaluate true 1, .evaluate false 1,
    .mark true 1 true, .mark false 1 true, .execute true, .execute false]

theorem concurrentDrains_executeTwice :
    ¬ ∀ (store : DocsStore SessionDoc) (trace : List (HostAction Bool)) (final : HostState Bool),
      Trace.run HostState.step (boot store) trace = some final → final.executed.Nodup := by
  intro honce
  have hexecuted : (Trace.run HostState.step (boot ⟨[], []⟩) bothSelectFirst).map
      HostState.executed = some ["c1", "c1"] := by decide
  obtain ⟨final, hrun, hfinal⟩ := Option.map_eq_some_iff.mp hexecuted
  have hnodup := honce ⟨[], []⟩ bothSelectFirst final hrun
  rw [hfinal] at hnodup
  exact absurd hnodup (by decide)

end Examples

end HostState

end Keel
