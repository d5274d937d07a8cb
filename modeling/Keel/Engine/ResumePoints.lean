import Keel.Foundation.Trace
import Keel.Engine.JournalRecovery

/-! # Resume points

A dispatch resumes the chat's last harness session. Its id and directory are kept three times: in
the live cache, in the workspace row, and in the journal, which is scanned when the other two are
gone. Session starts carry their own directory; the id of a terminal event is scoped by the
directory of the run in the cache, and by the last session start in the journal.
-/

namespace Keel

open List

structure HarnessSessionRef where
  sessionId : String
  cwd : String

/-- The scan of a journal: the directory of the last session start, and the last session id. -/
def noteSession (scan : String × Option HarnessSessionRef) :
    AgentEvent → String × Option HarnessSessionRef
  | .sessionStarted _ _ _ cwd sessionId _ =>
    (cwd, if sessionId.isEmpty then scan.2 else some { sessionId, cwd })
  | .done _ _ _ (some sessionId) =>
    (scan.1, if sessionId.isEmpty then scan.2 else some { sessionId, cwd := scan.1 })
  | _ => scan

def scanSessions (events : List AgentEvent) : String × Option HarnessSessionRef :=
  events.foldl noteSession ("", none)

namespace RunJournal

/-- The scan of a chat's journal; an unreadable one names no session. -/
def scanSessions (codec : JournalCodec) (chatId : String) (journal : RunJournal) :
    String × Option HarnessSessionRef :=
  match journal.replay codec chatId 0 with
  | .error _ => ("", none)
  | .ok lines => Keel.scanSessions (lines.map Prod.snd)

def harnessSession (codec : JournalCodec) (chatId : String) (journal : RunJournal) :
    Option HarnessSessionRef :=
  (journal.scanSessions codec chatId).2

end RunJournal

/-- Where the engine keeps a chat's harness session. -/
structure ResumeStore where
  harnessSession : Option HarnessSessionRef
  /-- The chat has a workspace row. -/
  hasRow : Bool
  /-- The session id and directory of the row. -/
  row : Option (String × Option String)
  journal : RunJournal
  /-- Engine restarts so far. -/
  restarts : Nat

inductive ResumeAction where
  /-- A run that was launched from `runCwd` takes in an event. -/
  | event (runCwd : String) (event : AgentEvent)
  /-- A dispatch looks up the session to resume. -/
  | dispatch (cwd : String)
  /-- The engine restarts. The debounced write of the row may have landed. -/
  | restart (landed : Bool)
  /-- Boot recovery closes the journal. -/
  | recover (note : String)

namespace ResumeStore

variable (codec : JournalCodec) (chatId : String)

def rememberHarnessSession (store : ResumeStore) (sessionId cwd : String) : ResumeStore :=
  if sessionId.isEmpty then store
  else { store with
    harnessSession := some { sessionId, cwd }
    row := if store.hasRow then some (sessionId, some cwd) else store.row }

def scan (store : ResumeStore) : String × Option HarnessSessionRef :=
  store.journal.scanSessions codec chatId

def journalHarnessSession (store : ResumeStore) : Option HarnessSessionRef :=
  store.journal.harnessSession codec chatId

/-- A session is resumed in its own directory only, or when it has none. -/
def cwdOk (sessionCwd cwd : String) : Bool := sessionCwd.isEmpty || sessionCwd == cwd

/-- The session id to resume for a run launched from `cwd`. -/
def resumeFor (store : ResumeStore) (cwd : String) : ResumeStore × Option String :=
  match store.harnessSession with
  | some known =>
    (store, if !known.sessionId.isEmpty && cwdOk known.cwd cwd then some known.sessionId
      else none)
  | none =>
    match store.row with
    | some (sessionId, sessionCwd) =>
      (store, if !sessionId.isEmpty && cwdOk (sessionCwd.getD "") cwd then some sessionId
        else none)
    | none =>
      match store.journalHarnessSession codec chatId with
      | none => (store, none)
      | some found =>
        -- The hit is cached, so that later dispatches skip the scan.
        (store.rememberHarnessSession found.sessionId found.cwd,
          if cwdOk found.cwd cwd then some found.sessionId else none)

def publish (store : ResumeStore) (event : AgentEvent) : ResumeStore :=
  { store with journal := (store.journal.append codec chatId event).1 }

/-- What the run loop remembers of an event. -/
def noteEvent (store : ResumeStore) (runCwd : String) : AgentEvent → ResumeStore
  | .sessionStarted _ _ _ cwd sessionId _ => store.rememberHarnessSession sessionId cwd
  | .done _ _ _ (some sessionId) => store.rememberHarnessSession sessionId runCwd
  | _ => store

/-- The live cache is gone, and no journal file is open. -/
def restart (store : ResumeStore) (landed : Bool) : ResumeStore :=
  { store with
    harnessSession := none
    row := if landed then store.row else none
    journal.openFiles := ∅
    restarts := store.restarts + 1 }

/-- The journal's session is remembered, and the run that died is closed. -/
def recoverStale (store : ResumeStore) (note : String) : ResumeStore :=
  let remembered := match store.journalHarnessSession codec chatId with
    | none => store
    | some found => store.rememberHarnessSession found.sessionId found.cwd
  remembered.publish codec chatId (.done .interrupted none (some note) none)

def step (store : ResumeStore) : ResumeAction → Option ResumeStore
  | .event runCwd event => some ((store.noteEvent runCwd event).publish codec chatId event)
  | .dispatch cwd => some (store.resumeFor codec chatId cwd).1
  | .restart landed => some (store.restart landed)
  | .recover note => some (store.recoverStale codec chatId note)

def init (hasRow : Bool) (journal : RunJournal) : ResumeStore :=
  { harnessSession := none, hasRow, row := none, journal, restarts := 0 }

end ResumeStore

def ResumeAction.published : ResumeAction → List AgentEvent
  | .event _ taken => [taken]
  | .recover note => [.done .interrupted none (some note) none]
  | .dispatch _ | .restart _ => []

section Scan

theorem scanSessions_concat (events : List AgentEvent) (event : AgentEvent) :
    scanSessions (events ++ [event]) = noteSession (scanSessions events) event :=
  foldl_concat ..

theorem scanSessions_named {events : List AgentEvent} {found : HarnessSessionRef}
    (hfound : (scanSessions events).2 = some found) : found.sessionId.isEmpty = false := by
  induction events using List.reverseRecOn with
  | nil => cases hfound
  | append_singleton events event ih =>
    rw [scanSessions_concat] at hfound
    unfold noteSession at hfound
    split at hfound
    next cwd sessionId _ =>
      by_cases hempty : sessionId.isEmpty = true
      · exact ih (by simpa [hempty] using hfound)
      · obtain rfl : { sessionId, cwd } = found := by simpa [hempty] using hfound
        simpa using hempty
    next sessionId =>
      by_cases hempty : sessionId.isEmpty = true
      · exact ih (by simpa [hempty] using hfound)
      · obtain rfl : { sessionId, cwd := _ } = found := by simpa [hempty] using hfound
        simpa using hempty
    · exact ih hfound

theorem numbered_events (events : List AgentEvent) : (numbered events).map Prod.snd = events := by
  induction events using List.reverseRecOn with
  | nil => rfl
  | append_singleton events event ih =>
    rw [numbered_concat, map_append, ih, map_singleton]

end Scan

namespace ResumeStore

/-- The cache, or nothing after a restart, and the row name the session. -/
structure Points (store : ResumeStore) (point : Option HarnessSessionRef) : Prop where
  held : store.harnessSession = point ∨ store.harnessSession = none ∧ 0 < store.restarts
  row : ∀ sessionId cwd, store.row = some (sessionId, cwd) →
    point = some { sessionId, cwd := cwd.getD "" }

/-- The cache holds the session the journal names, or nothing after a restart; so does the row; and
a dispatch from any directory resumes the same session before and after a restart. -/
structure Agrees (codec : JournalCodec) (chatId : String) (store : ResumeStore) : Prop where
  points : store.Points (store.journalHarnessSession codec chatId)
  resumes : ∀ landed cwd, ((store.restart landed).resumeFor codec chatId cwd).2 =
    (store.resumeFor codec chatId cwd).2

/-- A terminal event that names a session comes from a run in the directory of the last session
start. -/
def Scoped (codec : JournalCodec) (chatId : String) (store : ResumeStore) : ResumeAction → Prop
  | .event runCwd (.done _ _ _ (some sessionId)) =>
    sessionId.isEmpty = false → runCwd = (store.scan codec chatId).1
  | _ => True

/-- The journal holds the events, and what is remembered has an id. -/
structure Stored (codec : JournalCodec) (chatId : String) (events : List AgentEvent)
    (store : ResumeStore) : Prop where
  journal : JournalInv codec chatId events store.journal
  named : ∀ known ∈ store.harnessSession, known.sessionId.isEmpty = false
  rowNamed : ∀ sessionId cwd, store.row = some (sessionId, cwd) → sessionId.isEmpty = false
  noRow : store.hasRow = false → store.row = none

variable {codec : JournalCodec} {chatId : String} {events : List AgentEvent} {store : ResumeStore}
  {point : Option HarnessSessionRef}

section
variable (hstored : Stored codec chatId events store)
include hstored

theorem Stored.scan (hlines : ∀ line ∈ numbered events, codec.Prints line) :
    store.scan codec chatId = scanSessions events := by
  have hall : ((numbered events).filter fun line =>
      line.1 > if 0 > events.length then 0 else 0) = numbered events :=
    filter_eq_self.mpr fun line hline => by
      simpa using Nat.lt_of_succ_le (numbered_seq_le hline).1
  rw [ResumeStore.scan, RunJournal.scanSessions, hstored.journal.replay hlines 0, hall]
  simp only [numbered_events]

theorem Stored.session (hlines : ∀ line ∈ numbered events, codec.Prints line) :
    store.journalHarnessSession codec chatId = (Keel.scanSessions events).2 :=
  congrArg Prod.snd (hstored.scan hlines)

theorem Stored.remember (sessionId cwd : String) :
    Stored codec chatId events (store.rememberHarnessSession sessionId cwd) := by
  unfold rememberHarnessSession
  split
  · exact hstored
  next hnamed =>
    refine ⟨hstored.journal, ?_, ?_, ?_⟩
    · rintro known ⟨⟩
      simpa using hnamed
    · intro other found hrow
      simp only at hrow
      split at hrow
      · cases hrow
        simpa using hnamed
      · exact hstored.rowNamed other found hrow
    · intro (hnone : store.hasRow = false)
      simpa [hnone] using hstored.noRow hnone

theorem Stored.publish (hlines : ∀ line ∈ numbered events, codec.Prints line) (event : AgentEvent) :
    Stored codec chatId (events ++ [event]) (store.publish codec chatId event) :=
  ⟨hstored.journal.append_self hlines, hstored.named, hstored.rowNamed, hstored.noRow⟩

theorem Stored.points_remember {sessionId : String} (hnamed : sessionId.isEmpty = false)
    (cwd : String) : (store.rememberHarnessSession sessionId cwd).Points point ↔
      point = some { sessionId, cwd } := by
  rw [rememberHarnessSession, if_neg (by simp [hnamed])]
  constructor
  · intro hpoints
    rcases hpoints.held with hheld | ⟨hnone, -⟩
    · exact hheld.symm
    · cases hnone
  · rintro rfl
    refine ⟨.inl rfl, fun other found hrow => ?_⟩
    cases hhas : store.hasRow with
    | true =>
      simp only [hhas, if_true, Option.some.injEq, Prod.mk.injEq] at hrow
      obtain ⟨rfl, rfl⟩ := hrow
      rfl
    | false =>
      simp only [hhas, Bool.false_eq_true, if_false, hstored.noRow hhas] at hrow
      cases hrow

end

def resumeAt (point : Option HarnessSessionRef) (cwd : String) : Option String :=
  point.bind fun known => if cwdOk known.cwd cwd then some known.sessionId else none

theorem Stored.resumeFor (hstored : Stored codec chatId events store)
    (hpoints : store.Points (store.journalHarnessSession codec chatId)) (cwd : String) :
    (store.resumeFor codec chatId cwd).2 =
      resumeAt (store.journalHarnessSession codec chatId) cwd := by
  unfold ResumeStore.resumeFor
  split
  next known hknown =>
    have hpoint := hpoints.held.resolve_right fun hnone => by simp [hknown] at hnone
    simp [← hpoint, hknown, resumeAt, hstored.named known hknown]
  · split
    next sessionId sessionCwd hrow =>
      simp [hpoints.row sessionId sessionCwd hrow, resumeAt,
        hstored.rowNamed sessionId sessionCwd hrow]
    · split
      next hjournal => simp [hjournal, resumeAt]
      next found hjournal => simp [hjournal, resumeAt]

theorem Stored.restart (hstored : Stored codec chatId events store) (landed : Bool) :
    Stored codec chatId events (store.restart landed) := by
  refine ⟨hstored.journal.closeAll, nofun, ?_, ?_⟩
  · cases landed with
    | true => exact hstored.rowNamed
    | false => exact nofun
  · cases landed with
    | true => exact hstored.noRow
    | false => exact fun _ => rfl

theorem Points.restart (hpoints : store.Points point) (landed : Bool) :
    (store.restart landed).Points point := by
  refine ⟨.inr ⟨rfl, Nat.succ_pos _⟩, ?_⟩
  cases landed with
  | true => exact hpoints.row
  | false => exact nofun

/-- Where cache and row name the journal's session, a restart changes no resumption. -/
theorem Stored.agrees_iff (hstored : Stored codec chatId events store) :
    store.Agrees codec chatId ↔ store.Points (store.journalHarnessSession codec chatId) := by
  refine ⟨Agrees.points, fun hpoints => ⟨hpoints, fun landed cwd => ?_⟩⟩
  rw [hstored.resumeFor hpoints]
  exact (hstored.restart landed).resumeFor (hpoints.restart landed) cwd

theorem publish_points (event : AgentEvent) :
    (store.publish codec chatId event).Points point ↔ store.Points point :=
  ⟨fun hpoints => ⟨hpoints.held, hpoints.row⟩, fun hpoints => ⟨hpoints.held, hpoints.row⟩⟩

theorem Stored.step (hstored : Stored codec chatId events store)
    (hlines : ∀ line ∈ numbered events, codec.Prints line) {action : ResumeAction}
    {next : ResumeStore} (hstep : store.step codec chatId action = some next) :
    Stored codec chatId (events ++ action.published) next := by
  cases action with
  | event runCwd event =>
    cases hstep
    refine Stored.publish ?_ hlines event
    unfold noteEvent
    split
    · exact hstored.remember _ _
    · exact hstored.remember _ _
    · exact hstored
  | dispatch cwd =>
    cases hstep
    rw [ResumeAction.published, append_nil]
    unfold ResumeStore.resumeFor
    split
    · exact hstored
    · split
      · exact hstored
      · split
        · exact hstored
        · exact hstored.remember _ _
  | restart landed =>
    cases hstep
    rw [ResumeAction.published, append_nil]
    exact hstored.restart landed
  | recover note =>
    cases hstep
    refine Stored.publish ?_ hlines _
    split
    · exact hstored
    · exact hstored.remember _ _

section
variable (hstored : Stored codec chatId events store) (hagrees : store.Agrees codec chatId)
include hstored hagrees

/-- Only a terminal event of a run in another directory drives the two apart. -/
theorem Stored.agrees_step {action : ResumeAction}
    (hlines : ∀ line ∈ numbered (events ++ action.published), codec.Prints line)
    {next : ResumeStore} (hstep : store.step codec chatId action = some next) :
    next.Agrees codec chatId ↔ store.Scoped codec chatId action := by
  have hbefore : ∀ line ∈ numbered events, codec.Prints line := fun line hline =>
    hlines line (mem_numbered_append hline _)
  have hnext := hstored.step hbefore hstep
  have hpoints := hagrees.points
  rw [hnext.agrees_iff, hnext.session hlines]
  rw [hstored.session hbefore] at hpoints
  cases action with
  | event runCwd event =>
    cases hstep
    rw [ResumeAction.published, scanSessions_concat, publish_points]
    cases event with
    | sessionStarted harness model tools cwd sessionId assistantMessageId =>
      refine iff_of_true ?_ trivial
      cases hempty : sessionId.isEmpty with
      | true => simpa [noteEvent, noteSession, rememberHarnessSession, hempty] using hpoints
      | false => simp [noteEvent, noteSession, hstored.points_remember hempty, hempty]
    | done status result error named =>
      cases named with
      | none => exact iff_of_true hpoints trivial
      | some sessionId =>
        cases hempty : sessionId.isEmpty with
        | true =>
          refine iff_of_true ?_ (by simp [Scoped, hempty])
          simpa [noteEvent, noteSession, rememberHarnessSession, hempty] using hpoints
        | false =>
          simp [noteEvent, noteSession, hstored.points_remember hempty, hempty, Scoped,
            hstored.scan hbefore, eq_comm]
    | _ => exact iff_of_true hpoints trivial
  | dispatch cwd =>
    cases hstep
    rw [ResumeAction.published, append_nil]
    refine iff_of_true ?_ trivial
    unfold ResumeStore.resumeFor
    split
    · exact hpoints
    · split
      · exact hpoints
      · split
        · exact hpoints
        next found hfound =>
          rw [hstored.session hbefore] at hfound
          exact (hstored.points_remember (scanSessions_named hfound) found.cwd).mpr hfound
  | restart landed =>
    cases hstep
    rw [ResumeAction.published, append_nil]
    exact iff_of_true (hpoints.restart landed) trivial
  | recover note =>
    cases hstep
    rw [ResumeAction.published, scanSessions_concat]
    refine iff_of_true ((publish_points _).mpr ?_) trivial
    split
    · exact hpoints
    next found hfound =>
      rw [hstored.session hbefore] at hfound
      exact (hstored.points_remember (scanSessions_named hfound) found.cwd).mpr hfound

theorem Stored.always_iff_guarded {trace : List ResumeAction}
    (hlines : ∀ line ∈ numbered (events ++ trace.flatMap ResumeAction.published), codec.Prints line) :
    Trace.Always (ResumeStore.step codec chatId) (Agrees codec chatId) store trace ↔
      Trace.Guarded (ResumeStore.step codec chatId) (Scoped codec chatId) store trace := by
  induction trace generalizing events store with
  | nil => exact ⟨fun _ => trivial, fun _ => hagrees⟩
  | cons action rest ih =>
    obtain ⟨next, hstep⟩ : ∃ next, store.step codec chatId action = some next := by
      cases action <;> exact ⟨_, rfl⟩
    rw [flatMap_cons, ← append_assoc] at hlines
    have htook : ∀ line ∈ numbered (events ++ action.published), codec.Prints line :=
      fun line hline => hlines line (mem_numbered_append hline _)
    have hbefore : ∀ line ∈ numbered events, codec.Prints line := fun line hline =>
      htook line (mem_numbered_append hline _)
    have hkeeps := hstored.agrees_step hagrees htook hstep
    have hnext := hstored.step hbefore hstep
    rw [Trace.always_cons_of_step hstep, Trace.guarded_cons_of_step hstep]
    constructor
    · intro ⟨_, hrest⟩
      exact ⟨hkeeps.mp hrest.head, (ih hnext hrest.head hlines).mp hrest⟩
    · intro ⟨hguard, hrest⟩
      exact ⟨hagrees, (ih hnext (hkeeps.mpr hguard) hlines).mpr hrest⟩

end

section Examples

end Examples

end ResumeStore

end Keel
