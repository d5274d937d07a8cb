import Mathlib.Data.Option.Basic
import Keel.Foundation.Trace
import Keel.Doc.Rebuild
import Keel.Sync.Store

/-! # Draining the durable command ledger

Any number of drain passes run over the open session documents and one local
store. A pass repeats four separate steps: read the commands and select one,
evaluate it, claim its id in the ledger, and act on the disposition. Between any
two of them other passes move, composers queue and cancel commands, snapshots
are saved or rebuilt, and the process may crash. A crash keeps the store and
drops passes and open documents.

Store reads answer from the rows. A pass is started only on a chat this device
hosts, with the executor wired.
-/

namespace Keel

open Option Function

/-- Where one iteration of a drain pass stands. -/
inductive PassPhase where
  | scanning
  | selected (entry : SessionCommandEntry) (commands : List SessionCommandEntry)
  | evaluated (entry : SessionCommandEntry) (disposition : CommandDisposition)
  | marked (entry : SessionCommandEntry) (disposition : CommandDisposition)
  | executing (entry : SessionCommandEntry)
deriving DecidableEq

/-- The id of a command that is going to run once the pass gets there. -/
def PassPhase.intends : PassPhase → Option String
  | .evaluated entry .execute | .marked entry .execute => some entry.id
  | _ => none

structure Pass where
  chatId : String
  /-- Entries this pass decided to leave alone. -/
  skipped : List String
  phase : PassPhase

/-- The ledger host: one durable store, the open documents, the drain passes in
flight, and the ids handed to the executor so far, latest first. -/
structure HostState (P : Type) where
  store : DocsStore SessionDoc
  handles : String → Option SessionDoc
  passes : P → Option Pass
  executed : List String

inductive HostAction (P : Type) where
  | openChat (chatId : String)
  | queue (chatId : String) (entry : SessionCommandEntry)
  | cancel (chatId commandId deviceId : String)
  | start (pass : P) (chatId : String)
  | select (pass : P)
  | evaluate (pass : P) (nowMs : Int)
  /-- `written` is false when the ledger write fails. -/
  | mark (pass : P) (nowMs : Int) (written : Bool)
  | settle (pass : P)
  | execute (pass : P)
  | finish (pass : P) (applied : Bool) (resolution : Option String)
  | save (chatId : String)
  | rebuild (chatId : String)
  | crash
deriving DecidableEq

/-- The first pending command that is neither skipped nor claimed. -/
def selectCommand (commands : List SessionCommandEntry) (skipped : List String)
    (isProcessed : String → Bool) : Option SessionCommandEntry :=
  commands.find? fun entry =>
    decide (entry.status = .pending) && !skipped.contains entry.id && !isProcessed entry.id

/-- The context a drain evaluates against; turns are the doc's entries. -/
def drainContext [Serde] (store : DocsStore SessionDoc) (doc : SessionDoc)
    (commands : List SessionCommandEntry) (nowMs : Int) : EvaluationContext :=
  let messages := doc.readEntries
  { isProcessed := store.isProcessed
    nowMs
    entries := commands
    currentTurnId := messages.getLast?.map SessionMessageEntry.id
    turnIsPast := fun turnId => messages.any fun message => message.id == turnId }

/-- A failed outcome write is logged and leaves the document as it is. -/
def resolveCommand (doc : SessionDoc) (commandId : String) (status : SessionCommandStatus)
    (resolution : Option String) : SessionDoc :=
  match doc.setCommandStatus commandId status resolution with
  | .ok doc => doc
  | .error _ => doc

namespace HostState

variable {P : Type} [DecidableEq P]

def setPass (state : HostState P) (pass : P) (value : Option Pass) : HostState P :=
  { state with passes := update state.passes pass value }

def setDoc (state : HostState P) (chatId : String) (doc : SessionDoc) : HostState P :=
  { state with handles := update state.handles chatId (some doc) }

/-- Opening a chat loads its snapshot or starts an empty document. -/
def openChat (state : HostState P) (chatId : String) : HostState P :=
  match state.handles chatId with
  | some _ => state
  | none => state.setDoc chatId ((state.store.loadSnapshot chatId).getD (.init chatId))

/-- One read of the commands and the ledger. A pass that finds nothing ends. -/
def select (state : HostState P) (pass : P) : Option (HostState P) := do
  let current ← state.passes pass
  guard (current.phase = .scanning)
  let doc ← state.handles current.chatId
  let commands := doc.readCommands
  match selectCommand commands current.skipped state.store.isProcessed with
  | none => return state.setPass pass none
  | some entry => return state.setPass pass (some { current with phase := .selected entry commands })

def evaluate [Serde] (state : HostState P) (pass : P) (nowMs : Int) : Option (HostState P) := do
  let current ← state.passes pass
  let .selected entry commands := current.phase | none
  let doc ← state.handles current.chatId
  let disposition := evaluateCommand entry (drainContext state.store doc commands nowMs)
  return state.setPass pass (some { current with phase := .evaluated entry disposition })

/-- Claim the id before acting on it. A failed write halts the pass. Whether
the claim inserted the row is not looked at. -/
def mark (state : HostState P) (pass : P) (nowMs : Int) (written : Bool) :
    Option (HostState P) := do
  let current ← state.passes pass
  let .evaluated entry disposition := current.phase | none
  if written then
    return { state.setPass pass (some { current with phase := .marked entry disposition }) with
      store := (state.store.markProcessed entry.id nowMs).1 }
  else return state.setPass pass none

/-- The dispositions that do not run the command. -/
def settle (state : HostState P) (pass : P) : Option (HostState P) := do
  let current ← state.passes pass
  let .marked entry disposition := current.phase | none
  let doc ← state.handles current.chatId
  match disposition with
  | .skip =>
    return state.setPass pass (some { current with
      skipped := entry.id :: current.skipped, phase := .scanning })
  | .expired =>
    return (state.setDoc current.chatId (resolveCommand doc entry.id .expired none)).setPass pass
      (some { current with phase := .scanning })
  | .superseded =>
    return (state.setDoc current.chatId (resolveCommand doc entry.id .superseded none)).setPass
      pass (some { current with phase := .scanning })
  | .execute => none

def execute (state : HostState P) (pass : P) : Option (HostState P) := do
  let current ← state.passes pass
  let .marked entry .execute := current.phase | none
  return { state.setPass pass (some { current with phase := .executing entry }) with
    executed := entry.id :: state.executed }

/-- The executor returned; its outcome is written and the pass reads again. -/
def finish (state : HostState P) (pass : P) (applied : Bool) (resolution : Option String) :
    Option (HostState P) := do
  let current ← state.passes pass
  let .executing entry := current.phase | none
  let doc ← state.handles current.chatId
  let status := if applied then .applied else .rejected
  return (state.setDoc current.chatId (resolveCommand doc entry.id status resolution)).setPass pass
    (some { current with phase := .scanning })

/-- The rebuilt document replaces the saved lineage, the old one is kept once
under a rollback id, and the open document is dropped. -/
def rebuild [LineDiff] [Serde] (state : HostState P) (chatId : String) : Option (HostState P) := do
  let doc ← state.handles chatId
  let .ok rebuilt := rebuildThinDoc doc | none
  let rollbackId := chatId ++ ".pre-chat2"
  let store := match state.store.loadSnapshot rollbackId, state.store.loadSnapshot chatId with
    | none, some old => state.store.saveSnapshot rollbackId old
    | _, _ => state.store
  -- The next open loads the rebuilt lineage from the store.
  return { state with
    store := store.saveSnapshotWithCursor chatId rebuilt.doc 0 thinDocEpoch
    handles := update state.handles chatId none }

def step [LineDiff] [Serde] (state : HostState P) : HostAction P → Option (HostState P)
  | .openChat chatId => some (state.openChat chatId)
  | .queue chatId entry => do
      guard (entry.status = .pending)
      let doc ← state.handles chatId
      return state.setDoc chatId (doc.queueCommand entry)
  | .cancel chatId commandId deviceId => do
      let doc ← state.handles chatId
      let entry ← doc.commands.find? fun entry => entry.id == commandId
      guard (canComposerCancel entry deviceId)
      return state.setDoc chatId (resolveCommand doc commandId .cancelled none)
  | .start pass chatId => do
      guard (state.passes pass = none)
      guard (state.handles chatId).isSome
      return state.setPass pass (some { chatId, skipped := [], phase := .scanning })
  | .select pass => state.select pass
  | .evaluate pass nowMs => state.evaluate pass nowMs
  | .mark pass nowMs written => state.mark pass nowMs written
  | .settle pass => state.settle pass
  | .execute pass => state.execute pass
  | .finish pass applied resolution => state.finish pass applied resolution
  | .save chatId => do
      let doc ← state.handles chatId
      return { state with store := state.store.saveSnapshot chatId doc }
  | .rebuild chatId => state.rebuild chatId
  | .crash => some { state with handles := fun _ => none, passes := fun _ => none }

/-- A host that just started over a store. -/
def boot (store : DocsStore SessionDoc) : HostState P :=
  { store, handles := fun _ => none, passes := fun _ => none, executed := [] }

def phase (state : HostState P) (pass : P) : Option PassPhase :=
  (state.passes pass).map Pass.phase

/-- The id a pass has claimed and is about to run. -/
def claim (state : HostState P) (pass : P) : Option String :=
  match state.phase pass with
  | some (.marked entry .execute) => some entry.id
  | _ => none

section

omit [DecidableEq P]

theorem claim_of_phase {state : HostState P} {pass : P} {entry : SessionCommandEntry}
    (hphase : state.phase pass = some (.marked entry .execute)) :
    state.claim pass = some entry.id := by
  simp [claim, hphase]

theorem phase_of_claim {state : HostState P} {pass : P} {id : String}
    (hclaim : state.claim pass = some id) :
    ∃ entry, state.phase pass = some (.marked entry .execute) ∧ entry.id = id := by
  simp only [claim] at hclaim
  split at hclaim
  next entry hphase => exact ⟨entry, hphase, by simpa using hclaim⟩
  · cases hclaim

end

@[simp] theorem phase_setPass (state : HostState P) (pass : P) (value : Option Pass) :
    (state.setPass pass value).phase =
      update state.phase pass (value.map Pass.phase) := by
  funext other
  by_cases heq : other = pass
  · subst heq
    simp [phase, setPass]
  · simp [phase, setPass, heq]

variable {state next : HostState P} {pass : P}

theorem select_cases (hstep : state.select pass = some next) :
    ∃ value, next = state.setPass pass value ∧
      ∀ phase ∈ value.map Pass.phase, ∃ entry commands, phase = .selected entry commands := by
  simp only [select, bind_eq_bind, bind_eq_some_iff, pure_def] at hstep
  obtain ⟨current, -, -, -, doc, -, hnext⟩ := hstep
  split at hnext
  · refine ⟨none, by simpa using hnext.symm, ?_⟩
    simp
  next entry _ =>
    refine ⟨_, by simpa using hnext.symm, ?_⟩
    intro phase hphase
    exact ⟨entry, doc.readCommands, by simpa using hphase.symm⟩

theorem evaluate_cases [Serde] {nowMs : Int} (hstep : state.evaluate pass nowMs = some next) :
    ∃ (current : Pass) (entry : SessionCommandEntry) (commands : List SessionCommandEntry)
      (disposition : CommandDisposition), state.passes pass = some current ∧
      current.phase = .selected entry commands ∧
      next = state.setPass pass (some { current with phase := .evaluated entry disposition }) ∧
      (disposition = .execute → state.store.isProcessed entry.id = false) := by
  simp only [evaluate, bind_eq_bind, bind_eq_some_iff, pure_def] at hstep
  obtain ⟨current, hcurrent, hnext⟩ := hstep
  split at hnext
  next entry commands hphase =>
    obtain ⟨doc, -, hnext⟩ := bind_eq_some_iff.mp hnext
    exact ⟨current, entry, commands, _, hcurrent, hphase, (Option.some.inj hnext).symm,
      not_isProcessed_of_execute⟩
  · cases hnext

theorem mark_cases {nowMs : Int} {written : Bool}
    (hstep : state.mark pass nowMs written = some next) :
    ∃ current entry disposition, state.passes pass = some current ∧
      current.phase = .evaluated entry disposition ∧
      ((written = false ∧ next = state.setPass pass none) ∨
        (written = true ∧ next =
          { state.setPass pass (some { current with phase := .marked entry disposition }) with
            store := (state.store.markProcessed entry.id nowMs).1 })) := by
  simp only [mark, bind_eq_bind, bind_eq_some_iff, pure_def] at hstep
  obtain ⟨current, hcurrent, hnext⟩ := hstep
  split at hnext
  next entry disposition hphase =>
    refine ⟨current, entry, disposition, hcurrent, hphase, ?_⟩
    cases written with
    | false => exact .inl ⟨rfl, by simpa using hnext.symm⟩
    | true => exact .inr ⟨rfl, by simpa using hnext.symm⟩
  · cases hnext

theorem settle_cases (hstep : state.settle pass = some next) :
    ∃ current entry disposition doc, state.passes pass = some current ∧
      current.phase = .marked entry disposition ∧ state.handles current.chatId = some doc ∧
      ∃ skipped, (next = state.setPass pass (some ⟨current.chatId, skipped, .scanning⟩) ∨
        ∃ status, next = (state.setDoc current.chatId
          (resolveCommand doc entry.id status none)).setPass pass
            (some ⟨current.chatId, skipped, .scanning⟩)) := by
  simp only [settle, bind_eq_bind, bind_eq_some_iff, pure_def] at hstep
  obtain ⟨current, hcurrent, hnext⟩ := hstep
  split at hnext
  next entry disposition hphase =>
    obtain ⟨doc, hdoc, hnext⟩ := bind_eq_some_iff.mp hnext
    refine ⟨current, entry, disposition, doc, hcurrent, hphase, hdoc, ?_⟩
    cases disposition with
    | skip => exact ⟨_, .inl (Option.some.inj hnext).symm⟩
    | expired | superseded => exact ⟨_, .inr ⟨_, (Option.some.inj hnext).symm⟩⟩
    | execute => cases hnext
  · cases hnext

theorem execute_cases (hstep : state.execute pass = some next) :
    ∃ current entry, state.passes pass = some current ∧
      current.phase = .marked entry .execute ∧
      next = { state.setPass pass (some { current with phase := .executing entry }) with
        executed := entry.id :: state.executed } := by
  simp only [execute, bind_eq_bind, bind_eq_some_iff, pure_def] at hstep
  obtain ⟨current, hcurrent, hnext⟩ := hstep
  split at hnext
  next entry hphase =>
    exact ⟨current, entry, hcurrent, hphase, (Option.some.inj hnext).symm⟩
  · cases hnext

theorem finish_cases {applied : Bool}
    {resolution : Option String} (hstep : state.finish pass applied resolution = some next) :
    ∃ current entry doc, state.passes pass = some current ∧ current.phase = .executing entry ∧
      state.handles current.chatId = some doc ∧
      ∃ status, next = (state.setDoc current.chatId
        (resolveCommand doc entry.id status resolution)).setPass pass
          (some { current with phase := .scanning }) := by
  simp only [finish, bind_eq_bind, bind_eq_some_iff, pure_def] at hstep
  obtain ⟨current, hcurrent, hnext⟩ := hstep
  split at hnext
  next entry hphase =>
    obtain ⟨doc, hdoc, hnext⟩ := bind_eq_some_iff.mp hnext
    exact ⟨current, entry, doc, hcurrent, hphase, hdoc, _, (Option.some.inj hnext).symm⟩
  · cases hnext

omit [DecidableEq P] in
/-- The store of a rebuild: the thin snapshot over the saved ones, of which the
rollback copy is one. -/
theorem rebuild_cases [LineDiff] [Serde] {chatId : String}
    (hstep : state.rebuild chatId = some next) :
    ∃ doc rebuilt store, state.handles chatId = some doc ∧ rebuildThinDoc doc = .ok rebuilt ∧
      (store = state.store ∨ ∃ old rollbackId, state.store.loadSnapshot chatId = some old ∧
        store = state.store.saveSnapshot rollbackId old) ∧
      next = { state with
        store := store.saveSnapshotWithCursor chatId rebuilt.doc 0 thinDocEpoch
        handles := update state.handles chatId none } := by
  simp only [rebuild, bind_eq_bind, bind_eq_some_iff, pure_def] at hstep
  obtain ⟨doc, hdoc, hnext⟩ := hstep
  split at hnext
  next rebuilt hrebuilt =>
    refine ⟨doc, rebuilt, _, hdoc, hrebuilt, ?_, (Option.some.inj hnext).symm⟩
    split
    next old _ hold => exact .inr ⟨old, _, hold, rfl⟩
    · exact .inl rfl
  · cases hnext

/-- A step that decides nothing: the execution log and the ledger stay, and no
pass comes closer to running a command. -/
structure Quiet (state next : HostState P) : Prop where
  executed_eq : next.executed = state.executed
  processed_eq : next.store.processed = state.store.processed
  phase_eq : ∀ pass phase, next.phase pass = some phase → phase.intends.isSome →
    state.phase pass = some phase

theorem quiet_setPass (state : HostState P) (pass : P) {value : Option Pass}
    (hvalue : ∀ phase ∈ value.map Pass.phase, phase.intends = none) :
    Quiet state (state.setPass pass value) where
  executed_eq := rfl
  processed_eq := rfl
  phase_eq other phase hphase hintends := by
    by_cases heq : other = pass
    · subst heq
      rw [phase_setPass, update_self] at hphase
      simp [hvalue phase hphase] at hintends
    · rwa [phase_setPass, update_of_ne heq] at hphase

section
omit [DecidableEq P]

theorem quiet_setDoc (state : HostState P) (chatId : String) (doc : SessionDoc) :
    Quiet state (state.setDoc chatId doc) :=
  ⟨rfl, rfl, fun _ _ hphase _ => hphase⟩

theorem Quiet.trans {middle : HostState P} (hfirst : Quiet state middle)
    (hsecond : Quiet middle next) : Quiet state next where
  executed_eq := hsecond.executed_eq.trans hfirst.executed_eq
  processed_eq := hsecond.processed_eq.trans hfirst.processed_eq
  phase_eq pass phase hphase hintends :=
    hfirst.phase_eq pass phase (hsecond.phase_eq pass phase hphase hintends) hintends

theorem quiet_openChat (state : HostState P) (chatId : String) :
    Quiet state (state.openChat chatId) := by
  unfold openChat
  split
  · exact ⟨rfl, rfl, fun _ _ hphase _ => hphase⟩
  · exact quiet_setDoc state chatId _

end

attribute [local simp] PassPhase.intends

theorem quiet_resolve (state : HostState P) (pass : P) (chatId : String) (doc : SessionDoc)
    (current : Pass) (hphase : current.phase = .scanning) :
    Quiet state ((state.setDoc chatId doc).setPass pass (some current)) :=
  (quiet_setDoc state chatId doc).trans (quiet_setPass _ pass (by simp [hphase]))

/-- Every step is quiet, evaluates a selected command, claims an evaluated one,
or runs a claimed one. -/
theorem step_cases [LineDiff] [Serde] {action : HostAction P}
    (hstep : state.step action = some next) :
    Quiet state next ∨
    (∃ pass nowMs entry commands disposition, action = .evaluate pass nowMs ∧
      state.phase pass = some (.selected entry commands) ∧
      (disposition = .execute → state.store.isProcessed entry.id = false) ∧
      next.executed = state.executed ∧ next.store = state.store ∧
      next.phase = update state.phase pass (some (.evaluated entry disposition))) ∨
    (∃ pass nowMs entry disposition, action = .mark pass nowMs true ∧
      state.phase pass = some (.evaluated entry disposition) ∧
      next.executed = state.executed ∧
      next.store = (state.store.markProcessed entry.id nowMs).1 ∧
      next.phase = update state.phase pass (some (.marked entry disposition))) ∨
    (∃ pass entry, state.phase pass = some (.marked entry .execute) ∧
      next.executed = entry.id :: state.executed ∧ next.store = state.store ∧
      next.phase = update state.phase pass (some (.executing entry))) := by
  cases action with
  | openChat chatId =>
    cases hstep
    exact .inl (quiet_openChat state chatId)
  | queue chatId entry =>
    simp only [step, bind_eq_bind, bind_eq_some_iff, pure_def,
      some.injEq] at hstep
    obtain ⟨-, -, doc, -, rfl⟩ := hstep
    exact .inl (quiet_setDoc state chatId _)
  | cancel chatId commandId deviceId =>
    simp only [step, bind_eq_bind, bind_eq_some_iff, pure_def,
      some.injEq] at hstep
    obtain ⟨doc, -, entry, -, -, -, rfl⟩ := hstep
    exact .inl (quiet_setDoc state chatId _)
  | start pass chatId =>
    simp only [step, bind_eq_bind, bind_eq_some_iff, pure_def,
      some.injEq] at hstep
    obtain ⟨-, -, -, -, rfl⟩ := hstep
    exact .inl (quiet_setPass state pass (by simp))
  | select pass =>
    obtain ⟨value, rfl, hvalue⟩ := select_cases hstep
    refine .inl (quiet_setPass state pass ?_)
    intro phase hphase
    obtain ⟨_, _, rfl⟩ := hvalue phase hphase
    rfl
  | evaluate pass nowMs =>
    obtain ⟨current, entry, commands, disposition, hcurrent, hphase, rfl, hunclaimed⟩ :=
      evaluate_cases hstep
    refine .inr (.inl ⟨pass, nowMs, entry, commands, disposition, rfl, ?_, hunclaimed, rfl,
      rfl, ?_⟩)
    · simp [phase, hcurrent, hphase]
    · exact phase_setPass state pass _
  | mark pass nowMs written =>
    obtain ⟨current, entry, disposition, hcurrent, hphase, hnext⟩ := mark_cases hstep
    rcases hnext with ⟨-, rfl⟩ | ⟨rfl, rfl⟩
    · exact .inl (quiet_setPass state pass (by simp))
    · refine .inr (.inr (.inl ⟨pass, nowMs, entry, disposition, rfl, ?_, rfl, rfl, ?_⟩))
      · simp [phase, hcurrent, hphase]
      · exact phase_setPass state pass _
  | settle pass =>
    obtain ⟨current, entry, disposition, doc, -, -, -, skipped, hnext⟩ := settle_cases hstep
    rcases hnext with rfl | ⟨status, rfl⟩
    · exact .inl (quiet_setPass state pass (by simp))
    · exact .inl (quiet_resolve state pass _ _ _ rfl)
  | execute pass =>
    obtain ⟨current, entry, hcurrent, hphase, rfl⟩ := execute_cases hstep
    refine .inr (.inr (.inr ⟨pass, entry, ?_, rfl, rfl, ?_⟩))
    · simp [phase, hcurrent, hphase]
    · exact phase_setPass state pass _
  | finish pass applied resolution =>
    obtain ⟨current, entry, doc, -, -, -, status, rfl⟩ := finish_cases hstep
    exact .inl (quiet_resolve state pass _ _ _ rfl)
  | save chatId =>
    simp only [step, bind_eq_bind, bind_eq_some_iff, pure_def,
      some.injEq] at hstep
    obtain ⟨doc, -, rfl⟩ := hstep
    exact .inl ⟨rfl, DocsStore.processed_saveSnapshot .., fun _ _ hphase _ => hphase⟩
  | rebuild chatId =>
    obtain ⟨doc, rebuilt, store, -, -, hstore, rfl⟩ := rebuild_cases hstep
    refine .inl ⟨rfl, ?_, fun _ _ hphase _ => hphase⟩
    rcases hstore with rfl | ⟨old, rollbackId, -, rfl⟩
    · rfl
    · exact DocsStore.processed_saveSnapshot ..
  | crash =>
    cases hstep
    exact .inl ⟨rfl, rfl, by simp [phase]⟩

end HostState

end Keel
