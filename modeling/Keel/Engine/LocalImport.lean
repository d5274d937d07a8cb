import Keel.Engine.CommandDrain
import Keel.Engine.RunJournal

/-! # Importing a local profile into a synced one

The importer copies spaces, then chat by chat the document snapshot, the journal
files and the registry row, and merges the source's command ledger last. Its
steps interleave with the drains of the target profile. A step may fail, which
skips the chat or the merge and is reported in the summary; a crash ends the
run, and a later run starts over with the chats whose row is missing.

The registry is written in memory and saved separately. The upload roots and
the marker of completed imports are not modeled.
-/

namespace Keel

open Option Function

/-- A registry row of a chat, with the fields an import reads or writes. -/
structure ChatRow where
  id : String
  title : Option String
  /-- The sync room generation. -/
  roomGen : Option Nat

structure SpaceRow where
  id : String
  name : String

/-- The journal and resume file names of a chat. -/
def journalPaths (chatId : String) : String × String :=
  let stem := sanitizeId chatId
  (stem ++ ".jsonl", stem ++ ".resume")

/-- The profile an import reads. -/
structure SourceProfile where
  store : DocsStore SessionDoc
  spaces : List SpaceRow
  chats : List ChatRow
  /-- Names of the files in the journals directory. -/
  journals : List String

/-- The next step of the chat being copied. -/
inductive ImportStage where
  | snapshot
  | journal
  | resume
  | row
deriving DecidableEq

/-- An import in flight; the head of `pendingChats` is being copied. -/
structure Importer where
  pendingSpaces : List SpaceRow
  pendingChats : List ChatRow
  stage : ImportStage
  /-- Whether the current chat's journal was copied. -/
  copied : Bool
  importedChats : Nat
  importedSpaces : Nat
  skippedChats : Nat
  skippedSpaces : Nat
  journalsCopied : Nat
  /-- Present once the ledger merge was attempted. -/
  ledgerRowsMerged : Option Nat
  errors : List String

/-- The target profile, the import in flight and the summary of the last one. -/
structure ImportState (P : Type) where
  host : HostState P
  chats : List ChatRow
  spaces : List SpaceRow
  /-- The registry rows a restart finds. -/
  saved : List ChatRow × List SpaceRow
  journals : List String
  importer : Option Importer
  summary : Option Importer

/-- An import step carries its failure, if it fails. -/
inductive ImportAction (P : Type) where
  | host (action : HostAction P)
  | begin
  | importSpace (failure : Option String)
  | importSnapshot (failure : Option String)
  | importJournal (failure : Option String)
  | importResume (failure : Option String)
  | importRow (failure : Option String)
  | mergeLedger (failure : Option String)
  | finish (failure : Option String)
  | saveRegistry
  | crash

/-- A failed step reports the chat and moves on to the next one. -/
def Importer.failChat (importer : Importer) (chat : ChatRow) (failure : String) : Importer :=
  { importer with
    pendingChats := importer.pendingChats.tail, stage := .snapshot, copied := false
    errors := importer.errors ++ ["chat " ++ chat.id ++ ": " ++ failure] }

def upsertChat (rows : List ChatRow) (row : ChatRow) : List ChatRow :=
  row :: rows.filter fun other => other.id != row.id

def upsertSpace (rows : List SpaceRow) (row : SpaceRow) : List SpaceRow :=
  row :: rows.filter fun other => other.id != row.id

namespace ImportState

variable {P : Type} [DecidableEq P]

/-- Rows already in the target are skipped. -/
def begin (source : SourceProfile) (state : ImportState P) : Importer :=
  let pendingChats := source.chats.filter fun chat =>
    !state.chats.any fun row => row.id == chat.id
  let pendingSpaces := source.spaces.filter fun space =>
    !state.spaces.any fun row => row.id == space.id
  { pendingSpaces, pendingChats, stage := .snapshot, copied := false
    importedChats := 0, importedSpaces := 0
    skippedChats := source.chats.length - pendingChats.length
    skippedSpaces := source.spaces.length - pendingSpaces.length
    journalsCopied := 0, ledgerRowsMerged := none, errors := [] }

def importSpace (state : ImportState P) (importer : Importer) (failure : Option String) :
    Option (ImportState P) :=
  match importer.pendingSpaces, failure with
  | [], _ => none
  | space :: rest, none =>
    some { state with
      spaces := upsertSpace state.spaces space
      importer := some { importer with
        pendingSpaces := rest, importedSpaces := importer.importedSpaces + 1 } }
  | space :: rest, some err =>
    some { state with importer := some { importer with
      pendingSpaces := rest
      errors := importer.errors ++ ["space " ++ space.id ++ ": " ++ err] } }

/-- The snapshot lands at cursor zero in the thin lineage, unless the target has
one already. -/
def importSnapshot (source : SourceProfile) (state : ImportState P) (importer : Importer)
    (chat : ChatRow) : ImportState P :=
  let store := match source.store.loadSnapshot chat.id with
    | some bytes =>
      if state.host.store.hasSnapshot chat.id then state.host.store
      else state.host.store.saveSnapshotWithCursor chat.id bytes 0 thinDocEpoch
    | none => state.host.store
  { state with
    host := { state.host with store }
    importer := some { importer with stage := .journal } }

def copyFile (source target : List String) (name : String) : List String × Bool :=
  if source.contains name && !target.contains name then (name :: target, true)
  else (target, false)

def importJournal (source : SourceProfile) (state : ImportState P) (importer : Importer)
    (chat : ChatRow) : ImportState P :=
  let (journals, copied) := copyFile source.journals state.journals (journalPaths chat.id).1
  { state with journals, importer := some { importer with stage := .resume, copied } }

def importResume (source : SourceProfile) (state : ImportState P) (importer : Importer)
    (chat : ChatRow) : ImportState P :=
  let (journals, _) := copyFile source.journals state.journals (journalPaths chat.id).2
  { state with journals, importer := some { importer with stage := .row } }

/-- The row makes the chat visible, in the thin room generation. -/
def importRow (state : ImportState P) (importer : Importer) (chat : ChatRow) : ImportState P :=
  { state with
    chats := upsertChat state.chats { chat with roomGen := some thinDocEpoch }
    importer := some { importer with
      pendingChats := importer.pendingChats.tail, stage := .snapshot, copied := false
      importedChats := importer.importedChats + 1
      journalsCopied := importer.journalsCopied + if importer.copied then 1 else 0 } }

/-- One step of copying the current chat. -/
def chatStep (state : ImportState P) (stage : ImportStage) (failure : Option String)
    (copy : Importer → ChatRow → ImportState P) : Option (ImportState P) := do
  let importer ← state.importer
  guard (importer.pendingSpaces = [] ∧ importer.stage = stage)
  let chat ← importer.pendingChats.head?
  match failure with
  | none => return copy importer chat
  | some err => return { state with importer := some (importer.failChat chat err) }

def mergeLedger (source : SourceProfile) (state : ImportState P) (importer : Importer)
    (failure : Option String) : Option (ImportState P) := do
  guard (importer.pendingSpaces = [] ∧ importer.pendingChats = [] ∧
    importer.ledgerRowsMerged = none)
  match failure with
  | none =>
    let (store, merged) :=
      state.host.store.importProcessedCommands source.store.processedCommands
    return { state with
      host := { state.host with store }
      importer := some { importer with ledgerRowsMerged := some merged } }
  | some err =>
    return { state with importer := some { importer with
      ledgerRowsMerged := some 0
      errors := importer.errors ++ ["command ledger: " ++ err] } }

def step [LineDiff] [Serde] (source : SourceProfile) (state : ImportState P) :
    ImportAction P → Option (ImportState P)
  | .host action => do
      -- A crash takes the importer down too and has its own action.
      guard (action ≠ .crash)
      let host ← state.host.step action
      return { state with host }
  | .begin => do
      guard (state.importer = none)
      return { state with importer := some (state.begin source) }
  | .importSpace failure => do
      let importer ← state.importer
      state.importSpace importer failure
  | .importSnapshot failure => state.chatStep .snapshot failure (state.importSnapshot source)
  | .importJournal failure => state.chatStep .journal failure (state.importJournal source)
  | .importResume failure => state.chatStep .resume failure (state.importResume source)
  | .importRow failure => state.chatStep .row failure state.importRow
  | .mergeLedger failure => do
      let importer ← state.importer
      state.mergeLedger source importer failure
  | .finish failure => do
      let importer ← state.importer
      guard importer.ledgerRowsMerged.isSome
      let errors := match failure with
        | none => importer.errors
        | some err => importer.errors ++ ["import marker: " ++ err]
      return { state with importer := none, summary := some { importer with errors } }
  | .saveRegistry => some { state with saved := (state.chats, state.spaces) }
  | .crash => do
      let host ← state.host.step .crash
      return { state with
        host, chats := state.saved.1, spaces := state.saved.2, importer := none }

/-- A target profile that just started over a store and its saved registry. -/
def boot (store : DocsStore SessionDoc) (chats : List ChatRow) (spaces : List SpaceRow)
    (journals : List String) : ImportState P :=
  { host := .boot store, chats, spaces, saved := (chats, spaces), journals, importer := none
    summary := none }

variable {state next : ImportState P} {source : SourceProfile}

omit [DecidableEq P] in
theorem chatStep_host {stage : ImportStage} {failure : Option String}
    {copy : Importer → ChatRow → ImportState P}
    (hstep : state.chatStep stage failure copy = some next)
    (hcopy : ∀ importer chat, (copy importer chat).host.executed = state.host.executed ∧
      (copy importer chat).host.phase = state.host.phase) :
    next.host.executed = state.host.executed ∧ next.host.phase = state.host.phase := by
  simp only [chatStep, bind_eq_bind, bind_eq_some_iff, pure_def] at hstep
  obtain ⟨importer, -, -, -, chat, -, hnext⟩ := hstep
  cases failure with
  | none =>
    cases hnext
    exact hcopy importer chat
  | some err =>
    cases hnext
    exact ⟨rfl, rfl⟩

/-- Every step is a step of the target's drains or leaves their passes and the
execution log alone. -/
theorem step_cases [LineDiff] [Serde]
    {action : ImportAction P} (hstep : state.step source action = some next) :
    (∃ hostAction, (action = .host hostAction ∨ (action = .crash ∧ hostAction = .crash)) ∧
      state.host.step hostAction = some next.host) ∨
    (next.host.executed = state.host.executed ∧ next.host.phase = state.host.phase) := by
  cases action with
  | host action =>
    simp only [step, bind_eq_bind, bind_eq_some_iff, pure_def,
      some.injEq] at hstep
    obtain ⟨-, -, host, hhost, rfl⟩ := hstep
    exact .inl ⟨action, .inl rfl, hhost⟩
  | crash =>
    simp only [step, bind_eq_bind, bind_eq_some_iff, pure_def,
      some.injEq] at hstep
    obtain ⟨host, hhost, rfl⟩ := hstep
    exact .inl ⟨.crash, .inr ⟨rfl, rfl⟩, hhost⟩
  | begin =>
    simp only [step, bind_eq_bind, bind_eq_some_iff, pure_def,
      some.injEq] at hstep
    obtain ⟨-, -, rfl⟩ := hstep
    exact .inr ⟨rfl, rfl⟩
  | importSpace failure =>
    simp only [step, importSpace, bind_eq_bind, bind_eq_some_iff] at hstep
    obtain ⟨importer, -, hnext⟩ := hstep
    split at hnext
    · cases hnext
    · cases hnext
      exact .inr ⟨rfl, rfl⟩
    · cases hnext
      exact .inr ⟨rfl, rfl⟩
  | importSnapshot failure | importJournal failure | importResume failure | importRow failure =>
    exact .inr (chatStep_host hstep fun _ _ => ⟨rfl, rfl⟩)
  | mergeLedger failure =>
    simp only [step, mergeLedger, bind_eq_bind, bind_eq_some_iff,
      pure_def] at hstep
    obtain ⟨importer, -, -, -, hnext⟩ := hstep
    cases failure with
    | none | some err =>
      cases hnext
      exact .inr ⟨rfl, rfl⟩
  | finish failure =>
    simp only [step, bind_eq_bind, bind_eq_some_iff, pure_def,
      some.injEq] at hstep
    obtain ⟨importer, -, -, -, rfl⟩ := hstep
    exact .inr ⟨rfl, rfl⟩
  | saveRegistry =>
    cases hstep
    exact .inr ⟨rfl, rfl⟩

/-- A drain of the target that evaluates a command the source has claimed finds
it in the target's ledger. A completed merge makes this true of all of them. -/
def mergedFirst (source : SourceProfile) (state : ImportState P) : ImportAction P → Bool
  | .host (.evaluate pass _) =>
    match state.host.phase pass with
    | some (.selected entry _) =>
      !source.store.isProcessed entry.id || state.host.store.isProcessed entry.id
    | _ => true
  | _ => true

/-- No command the source has claimed ran in the target or is about to. -/
structure Spared (source : SourceProfile) (host : HostState P) : Prop where
  executed : ∀ id ∈ host.executed, source.store.isProcessed id = false
  intended : ∀ pass phase id, host.phase pass = some phase → phase.intends = some id →
    source.store.isProcessed id = false

omit [DecidableEq P] in
theorem Spared.quiet {host next : HostState P}
    (hspared : Spared source host) (hquiet : HostState.Quiet host next) : Spared source next where
  executed id hid := hspared.executed id (hquiet.executed_eq ▸ hid)
  intended pass phase id hphase hintends :=
    hspared.intended pass phase id (hquiet.phase_eq pass phase hphase (by simp [hintends])) hintends

theorem Spared.update {source : SourceProfile} {host next : HostState P}
    (hspared : Spared source host) {pass : P} {phase : PassPhase}
    (hexecuted : ∀ id ∈ next.executed, source.store.isProcessed id = false)
    (hphase : next.phase = update host.phase pass (some phase))
    (hintends : ∀ id, phase.intends = some id → source.store.isProcessed id = false) :
    Spared source next where
  executed := hexecuted
  intended other moved id hmoved hid := by
    rw [hphase] at hmoved
    by_cases heq : other = pass
    · subst heq
      rw [update_self] at hmoved
      cases hmoved
      exact hintends id hid
    · rw [update_of_ne heq] at hmoved
      exact hspared.intended other moved id hmoved hid

/-- A drain step spares the source's commands when evaluations come after the
merge. -/
theorem Spared.hostStep [LineDiff] [Serde] {host next : HostState P}
    {action : HostAction P} (hspared : Spared source host)
    (hmerged : ∀ pass nowMs entry commands, action = .evaluate pass nowMs →
      host.phase pass = some (.selected entry commands) →
      source.store.isProcessed entry.id = true → host.store.isProcessed entry.id = true)
    (hstep : host.step action = some next) : Spared source next := by
  rcases HostState.step_cases hstep with hquiet |
    ⟨pass, nowMs, entry, commands, disposition, haction, hselected, hunclaimed, hexecuted, -,
      hphase⟩ |
    ⟨pass, nowMs, entry, disposition, -, hevaluated, hexecuted, -, hphase⟩ |
    ⟨pass, entry, hmarked, hexecuted, -, hphase⟩
  · exact hspared.quiet hquiet
  · apply hspared.update (hexecuted ▸ hspared.executed) hphase
    intro id hid
    cases disposition with
    | execute =>
      cases hid
      cases hsource : source.store.isProcessed entry.id with
      | false => rfl
      | true =>
        have hclaimed := hmerged pass nowMs entry commands haction hselected hsource
        rw [hunclaimed rfl] at hclaimed
        cases hclaimed
    | skip | expired | superseded => cases hid
  · apply hspared.update (hexecuted ▸ hspared.executed) hphase
    intro id hid
    cases disposition with
    | execute => exact hspared.intended pass _ id hevaluated hid
    | skip | expired | superseded => cases hid
  · refine hspared.update ?_ hphase (by simp [PassPhase.intends])
    intro id hid
    rcases List.mem_cons.mp (hexecuted ▸ hid) with rfl | hid
    · exact hspared.intended pass _ entry.id hmarked rfl
    · exact hspared.executed id hid

theorem Spared.step [LineDiff] [Serde] {source : SourceProfile} {state next : ImportState P}
    {action : ImportAction P} (hspared : Spared source state.host)
    (hmerged : state.mergedFirst source action = true)
    (hstep : state.step source action = some next) : Spared source next.host := by
  rcases step_cases hstep with ⟨hostAction, haction, hhost⟩ | ⟨hexecuted, hphase⟩
  · refine hspared.hostStep ?_ hhost
    rintro pass nowMs entry commands rfl hselected hsource
    rcases haction with rfl | ⟨-, hcrash⟩
    · simpa [mergedFirst, hselected, hsource] using hmerged
    · cases hcrash
  · exact ⟨hexecuted ▸ hspared.executed, hphase ▸ hspared.intended⟩

omit [DecidableEq P] in
/-- After a completed merge the target's ledger holds every claim of the source. -/
theorem isProcessed_mergeLedger {importer : Importer}
    (hmerge : state.mergeLedger source importer none = some next) {id : String}
    (hid : source.store.isProcessed id = true) : next.host.store.isProcessed id = true := by
  simp only [mergeLedger, bind_eq_bind, bind_eq_some_iff, pure_def,
    some.injEq] at hmerge
  obtain ⟨-, -, rfl⟩ := hmerge
  rw [DocsStore.isProcessed_importProcessedCommands]
  exact Bool.or_eq_true_iff.mpr (.inl hid)

/-- Imports, crashes and re-runs interleaved with the target's drains run no
command the source has claimed, provided each of them is evaluated only after
the ledger merge brought its claim over. -/
theorem import_neverReexecutes [LineDiff] [Serde] (source : SourceProfile)
    (store : DocsStore SessionDoc) (chats : List ChatRow) (spaces : List SpaceRow)
    (journals : List String) (trace : List (ImportAction P)) (final : ImportState P)
    (hmerged : Trace.Guarded (ImportState.step source)
      (fun state action => state.mergedFirst source action = true)
      (boot store chats spaces journals) trace)
    (hrun : Trace.run (ImportState.step source) (boot store chats spaces journals) trace =
      some final) :
    ∀ id ∈ final.host.executed, source.store.isProcessed id = false := by
  have hspared : Spared source final.host := by
    refine Trace.guarded_invariant (fun _ _ _ hstate hguard hstep => Spared.step hstate hguard hstep)
      ?_ hmerged hrun
    exact ⟨by simp [boot, HostState.boot], by simp [boot, HostState.boot, HostState.phase]⟩
  exact hspared.executed

section Examples

local instance : LineDiff := .replaceAll
local instance : Serde := .verbatim

/-- A command the source claimed and never resolved. -/
def strandedCommand : SessionCommandEntry :=
  { id := "c1", payload := .interrupt, issuedBy := "device", issuedAt := 0, basedOn := none,
    expiresAt := none, status := .pending, resolution := none }

/-- A profile whose process died between the claim and the outcome. -/
def strandedProfile : SourceProfile where
  store :=
    { snapshots := [⟨"chat", (SessionDoc.init "chat").queueCommand strandedCommand, 0, 0⟩]
      processed := [("c1", 1)] }
  spaces := []
  chats := [⟨"chat", none, none⟩]
  journals := []

def importChat : List (ImportAction Unit) :=
  [.begin, .importSnapshot none, .importJournal none, .importResume none, .importRow none]

/-- Open the chat and drain one command. -/
def drainOnce : List (ImportAction Unit) :=
  [.host (.openChat "chat"), .host (.start () "chat"), .host (.select ()),
    .host (.evaluate () 2), .host (.mark () 2 true), .host (.execute ())]

/-- A merge that fails, a crash, a re-run that merges, and then the drain. -/
def mergeOnRerun : List (ImportAction Unit) :=
  importChat ++ [.saveRegistry, .mergeLedger (some "database is locked"), .crash, .begin,
    .mergeLedger none, .finish none, .host (.openChat "chat"), .host (.start () "chat"),
    .host (.queue "chat" { strandedCommand with id := "c2" }), .host (.select ()),
    .host (.evaluate () 2), .host (.mark () 2 true), .host (.execute ())]

theorem import_neverReexecutes_mergeOnRerun :
    ∃ final : ImportState Unit,
      Trace.run (ImportState.step strandedProfile) (boot ⟨[], []⟩ [] [] []) mergeOnRerun =
        some final ∧
      final.host.executed = ["c2"] ∧
      ∀ id ∈ final.host.executed, strandedProfile.store.isProcessed id = false := by
  have hexecuted : (Trace.run (ImportState.step strandedProfile) (boot ⟨[], []⟩ [] [] [])
      mergeOnRerun).map (fun state => state.host.executed) = some ["c2"] := by decide
  obtain ⟨final, hrun, hfinal⟩ := map_eq_some_iff.mp hexecuted
  exact ⟨final, hrun, hfinal, import_neverReexecutes strandedProfile ⟨[], []⟩ [] [] []
    mergeOnRerun final (by decide) hrun⟩

/-- The row lands, the target drains the chat, and the merge would come next. -/
theorem drainBeforeMerge_reexecutes :
    ¬ ∀ (source : SourceProfile) (store : DocsStore SessionDoc) (chats : List ChatRow)
      (spaces : List SpaceRow) (journals : List String) (trace : List (ImportAction Unit))
      (final : ImportState Unit),
      Trace.run (ImportState.step source) (boot store chats spaces journals) trace = some final →
      ∀ id ∈ final.host.executed, source.store.isProcessed id = false := by
  intro hspared
  have hexecuted : (Trace.run (ImportState.step strandedProfile) (boot ⟨[], []⟩ [] [] [])
      (importChat ++ drainOnce)).map (fun state => state.host.executed) = some ["c1"] := by decide
  obtain ⟨final, hrun, hfinal⟩ := map_eq_some_iff.mp hexecuted
  have hunclaimed := hspared strandedProfile ⟨[], []⟩ [] [] [] _ final hrun "c1"
    (hfinal ▸ List.mem_singleton_self _)
  exact absurd hunclaimed (by decide)

end Examples

end ImportState

end Keel
