import Keel.Harness.AcpSession

/-! # One Done for each prompt

A monitor reads the log from its oldest entry: a prompt is sent only when none is
outstanding, and a `Done` that is attributed to a prompt closes the outstanding one. The
loop's flags `turn` and `done_current` say at every select what the monitor has read, so the
log of every run is accepted, and a run that ended leaves no prompt open.
-/

namespace Keel.Acp

open List Option

namespace Output

def isPrompt : Output → Bool
  | .prompt .. => true
  | _ => false

def isDone : Output → Bool
  | .done .. => true
  | _ => false

def marksInterrupt : Output → Bool
  | .interrupted => true
  | _ => false

/-- The prompt that a `Done` is attributed to. -/
def closes? : Output → Option Nat
  | .done number .. => number
  | _ => none

/-- Neither the start nor the end of a prompt, nor the interrupt. -/
def plain (output : Output) : Bool := ! output.isPrompt && ! output.isDone && ! output.marksInterrupt

@[simp] theorem plain_sent (event : AgentEvent) : (sent event).plain = true := rfl
@[simp] theorem plain_injected (steer : Nat) : (injected steer).plain = true := rfl

end Output

/-! ## The monitor -/

inductive Phase where
  | between
  | outstanding (prompt : Nat)
deriving DecidableEq

/-- A prompt opens between prompts, and the end of the outstanding one closes it. -/
def Phase.after (phase : Phase) : Output → Option Phase
  | .prompt number .. =>
    match phase with
    | .between => some (.outstanding number)
    | .outstanding _ => none
  | .done prompt .. =>
    match phase, prompt with
    | .between, none => some .between
    | .outstanding number, some prompt => if prompt = number then some .between else none
    | _, _ => none
  | _ => some phase

/-- The phase after a log, whose newest entry is first. -/
def phase : List Output → Option Phase
  | [] => some .between
  | output :: older => (phase older).bind fun phase => phase.after output

theorem Phase.after_of_plain (phase : Phase) {output : Output} (hplain : output.plain = true) :
    phase.after output = some phase := by
  cases output with
  | prompt | done | interrupted => cases hplain
  | cancel | call | sent | steered | injected => rfl

variable {outputs log : List Output} {reached : Phase}

theorem phase_append_of_plain
    (hplain : ∀ output ∈ outputs, output.plain = true) : phase (outputs ++ log) = phase log := by
  induction outputs with
  | nil => rfl
  | cons output rest ih =>
    rw [cons_append, phase, ih fun other hother => hplain other (mem_cons_of_mem _ hother)]
    cases phase log with
    | none => rfl
    | some reached => exact reached.after_of_plain (hplain output mem_cons_self)

/-- Until the next prompt, either the outstanding one is open or one `Done` of its own closed it. -/
theorem closes_of_phase {window : List Output} {number : Nat}
    (hlog : phase log = some (.outstanding number))
    (hwindow : ∀ output ∈ window, output.isPrompt = false)
    (hphase : phase (window ++ log) = some reached) :
    reached = .outstanding number ∧ window.filterMap Output.closes? = [] ∨
      reached = .between ∧ window.filterMap Output.closes? = [number] := by
  induction window generalizing reached with
  | nil =>
    rw [nil_append, hlog, some.injEq] at hphase
    exact .inl ⟨hphase.symm, rfl⟩
  | cons output rest ih =>
    rw [cons_append, phase, bind_eq_some_iff] at hphase
    obtain ⟨before, hbefore, hafter⟩ := hphase
    have hrest := ih (fun other hother => hwindow other (mem_cons_of_mem _ hother)) hbefore
    cases output with
    | prompt => exact absurd (hwindow _ mem_cons_self) (by simp [Output.isPrompt])
    | done prompt status error session =>
      obtain ⟨rfl, hnone⟩ | ⟨rfl, hone⟩ := hrest
      · -- the outstanding prompt can be closed by its own Done only
        cases prompt with
        | none => cases hafter
        | some prompt =>
          simp only [Phase.after] at hafter
          split at hafter
          · next hprompt =>
              cases hafter
              refine .inr ⟨rfl, ?_⟩
              rw [filterMap_cons_some (f := Output.closes?) (b := prompt) rfl, hnone, hprompt]
          · cases hafter
      · cases prompt with
        | none =>
          cases hafter
          exact .inr ⟨rfl, (filterMap_cons_none rfl).trans hone⟩
        | some prompt => cases hafter
    | cancel | call | sent | steered | injected | interrupted =>
      cases hafter
      rw [filterMap_cons_none rfl]
      exact hrest

def sinceInterrupt (log : List Output) : List Output :=
  log.takeWhile fun output => ! output.marksInterrupt

/-- No `Done` followed the interrupt. -/
def Quiet (log : List Output) : Prop := ∀ output ∈ sinceInterrupt log, output.isDone = false

theorem Quiet.append_of_plain (hquiet : Quiet log)
    (hplain : ∀ output ∈ outputs, output.plain = true) : Quiet (outputs ++ log) := by
  have hall : ∀ output ∈ outputs, (! output.marksInterrupt) = true := by
    intro output houtput
    have houtput := hplain output houtput
    rw [Output.plain, Bool.and_eq_true] at houtput
    exact houtput.2
  intro output houtput
  rw [sinceInterrupt, takeWhile_append_of_pos hall] at houtput
  cases mem_append.mp houtput with
  | inl hnew =>
    have houtput := hplain output hnew
    simp only [Output.plain, Bool.and_eq_true, Bool.not_eq_true'] at houtput
    exact houtput.1.2
  | inr hold => exact hquiet output hold

theorem interrupted_mem_append_of_plain (hplain : ∀ output ∈ outputs, output.plain = true) :
    Output.interrupted ∈ outputs ++ log ↔ Output.interrupted ∈ log := by
  rw [mem_append]
  exact or_iff_right fun hmem => nomatch hplain _ hmem

/-! ## Arms that leave the turn alone -/

/-- What the bookkeeping of turns reads, the log apart. -/
def State.flags (state : State) : Stage × Nat × Option Nat × Bool × Bool × Bool :=
  (state.stage, state.prompts, state.turn, state.doneCurrent, state.doneAfterInterrupt,
    state.interrupted)

/-- The flags are kept, and what was sent is plain. -/
structure Beside (before after : State) : Prop where
  flags : after.flags = before.flags
  log : ∃ outputs, after.log = outputs ++ before.log ∧ ∀ output ∈ outputs, output.plain = true

namespace Beside

theorem same {before after : State} (hflags : after.flags = before.flags)
    (hlog : after.log = before.log) : Beside before after :=
  ⟨hflags, [], hlog, fun _ hmem => nomatch hmem⟩

theorem refl (state : State) : Beside state state := same rfl rfl

theorem trans {first second third : State} (hfirst : Beside first second)
    (hsecond : Beside second third) : Beside first third := by
  obtain ⟨older, holder, hplainOlder⟩ := hfirst.log
  obtain ⟨newer, hnewer, hplainNewer⟩ := hsecond.log
  refine ⟨hsecond.flags.trans hfirst.flags, newer ++ older, ?_, ?_⟩
  · rw [hnewer, holder, append_assoc]
  · intro output houtput
    cases mem_append.mp houtput with
    | inl hmem => exact hplainNewer output hmem
    | inr hmem => exact hplainOlder output hmem

theorem emitted {before after : State} {output : Output} (hflags : after.flags = before.flags)
    (hlog : after.log = output :: before.log) (hplain : output.plain = true) :
    Beside before after :=
  ⟨hflags, [output], hlog, fun _ hmem => mem_singleton.mp hmem ▸ hplain⟩

end Beside

namespace State

section
variable (state : State)
include state

theorem emit_beside {output : Output} (hplain : output.plain = true) :
    Beside state (state.emit output) :=
  .emitted rfl rfl hplain

theorem sendAll_beside (events : List AgentUpdate) : Beside state (state.sendAll events) := by
  refine ⟨rfl, (events.map fun update => Output.sent update.event).reverse, rfl, ?_⟩
  intro output houtput
  obtain ⟨update, -, rfl⟩ := mem_map.mp (mem_reverse.mp houtput)
  rfl

theorem trackTurnSignals_beside (event : AgentEvent) :
    Beside state (state.trackTurnSignals event) := by
  unfold trackTurnSignals
  split
  · split
    · exact .refl state
    · exact .same rfl rfl
  · exact .same rfl rfl
  · exact .same rfl rfl
  · exact .refl state

theorem trackAll_beside (events : List AgentUpdate) : Beside state (state.trackAll events) := by
  induction events generalizing state with
  | nil => exact .refl state
  | cons update rest ih => exact (state.trackTurnSignals_beside update.event).trans (ih _)

theorem drain_beside (drained : List Incoming) : Beside state (state.drain drained) := by
  induction drained generalizing state with
  | nil => exact .refl state
  | cons message rest ih =>
    refine Beside.trans ?_ (ih _)
    refine Beside.trans ?_ (sendAll_beside _ _)
    split
    · exact .same rfl rfl
    · exact .refl state

theorem boundary_beside (steer : Steer) : Beside state (state.boundary steer) :=
  .emitted rfl rfl rfl

theorem startCall_beside (steer : Steer) : Beside state (state.startCall steer) :=
  .emitted rfl rfl rfl

theorem completeMessage_beside : Beside state state.completeMessage :=
  .emitted rfl rfl rfl

theorem decideCall_beside (steer : Steer) (outcome : String) :
    Beside state (state.decideCall steer outcome) := by
  unfold decideCall
  split
  · exact .refl state
  · split
    · exact (emit_beside _ rfl).trans (boundary_beside _ _)
    · exact .same rfl rfl

theorem settleCall_beside (steer : Steer) (answer : Option (Except String SteeringAnswer)) :
    Beside state (state.settleCall steer answer) := by
  have hdecided := decideCall_beside { state with steeringCall := none } steer (settledOutcome answer)
  exact ⟨hdecided.flags, hdecided.log⟩

theorem resumeBacklog_beside (backlog : List Steer) :
    Beside state (state.resumeBacklog backlog) := by
  induction backlog generalizing state with
  | nil => exact .same rfl rfl
  | cons steer rest ih =>
    rw [resumeBacklog]
    split
    · exact (startCall_beside state steer).trans (.same rfl rfl)
    · have hrest := ih { state with queuedSteers := state.queuedSteers ++ [steer] }
      exact ⟨hrest.flags, hrest.log⟩

end

theorem steerTurn_beside (config : Config) (state : State) (steer : Steer) :
    Beside state (state.steerTurn config steer) := by
  unfold steerTurn
  split
  · split
    · exact .same rfl rfl
    · exact startCall_beside _ _
  · exact .same rfl rfl

variable (state : State)
include state

theorem injectCall_beside (steer : Steer) (drained : List Incoming) :
    Beside state (state.injectCall steer drained) := by
  have hinjected := state.emit_beside (Output.plain_injected steer.number)
  unfold injectCall
  split
  · refine hinjected.trans (Beside.trans ?_ (boundary_beside _ _))
    refine Beside.trans ?_ (drain_beside _ _)
    exact .same rfl rfl
  · exact hinjected

theorem settleSteering_beside (answer : Option (Except String SteeringAnswer)) :
    Beside state (state.settleSteering answer) := by
  unfold settleSteering
  split
  · exact settleCall_beside _ _ _
  · exact .refl state

theorem reportUsage_beside (response : Except String PromptResponse) :
    Beside state (state.reportUsage response) := by
  unfold reportUsage
  split
  · exact emit_beside _ rfl
  · exact .refl state

theorem reported_beside (response : Except String PromptResponse) :
    Beside state (state.completeMessage.reportUsage response) :=
  state.completeMessage_beside.trans (state.completeMessage.reportUsage_beside response)

end State

/-! ## The bookkeeping of a turn -/

/-- A prompt is outstanding. -/
structure Pending (number : Nat) (state : State) : Prop where
  phase : phase state.log = some (.outstanding number)
  prompts : state.prompts = number + 1
  doneCurrent : state.doneCurrent = false
  doneAfterInterrupt : state.doneAfterInterrupt = false
  marked : .interrupted ∈ state.log → state.interrupted = true ∧ Quiet state.log

/-- Every prompt has its `Done`, and no interrupt was handled. -/
structure Idle (state : State) : Prop where
  phase : phase state.log = some .between
  doneCurrent : state.doneCurrent = true
  doneAfterInterrupt : state.doneAfterInterrupt = false
  interrupted : state.interrupted = false
  unmarked : .interrupted ∉ state.log

/-- The last output is the one `Done` since the interrupt. -/
def EndsInterrupted (log : List Output) : Prop :=
  ∃ prompt session older, log = .done prompt .interrupted none session :: older ∧
    .interrupted ∈ older ∧ Quiet older

/-- The outstanding prompt got its `Done` after the interrupt. -/
structure Sealed (state : State) : Prop where
  phase : phase state.log = some .between
  doneAfterInterrupt : state.doneAfterInterrupt = true
  interrupted : state.interrupted = true
  marked : .interrupted ∈ state.log → EndsInterrupted state.log

structure Finished (state : State) : Prop where
  stage : state.stage = .ended
  phase : phase state.log = some .between
  marked : .interrupted ∈ state.log → EndsInterrupted state.log

/-- Between two arms of the loop, `turn` says whether a prompt is outstanding. -/
structure Live (state : State) : Prop where
  stage : state.stage = .running
  idle : state.turn = none → Idle state
  pending : ∀ number, state.turn = some number → Pending number state

namespace Beside

variable {before after : State}

variable (hbeside : Beside before after)
include hbeside

theorem stage : after.stage = before.stage :=
  congrArg (·.1) hbeside.flags

theorem prompts : after.prompts = before.prompts :=
  congrArg (·.2.1) hbeside.flags

theorem turn : after.turn = before.turn :=
  congrArg (·.2.2.1) hbeside.flags

theorem doneCurrent : after.doneCurrent = before.doneCurrent :=
  congrArg (·.2.2.2.1) hbeside.flags

theorem doneAfterInterrupt : after.doneAfterInterrupt = before.doneAfterInterrupt :=
  congrArg (·.2.2.2.2.1) hbeside.flags

theorem interrupted : after.interrupted = before.interrupted :=
  congrArg (·.2.2.2.2.2) hbeside.flags

theorem phase : phase after.log = phase before.log := by
  obtain ⟨outputs, hlog, hplain⟩ := hbeside.log
  rw [hlog, phase_append_of_plain hplain]

theorem marked : .interrupted ∈ after.log ↔ .interrupted ∈ before.log := by
  obtain ⟨outputs, hlog, hplain⟩ := hbeside.log
  rw [hlog, interrupted_mem_append_of_plain hplain]

theorem quiet (hquiet : Quiet before.log) : Quiet after.log := by
  obtain ⟨outputs, hlog, hplain⟩ := hbeside.log
  rw [hlog]
  exact hquiet.append_of_plain hplain

theorem pending {number : Nat} (hpending : Pending number before) : Pending number after where
  phase := hbeside.phase.trans hpending.phase
  prompts := hbeside.prompts.trans hpending.prompts
  doneCurrent := hbeside.doneCurrent.trans hpending.doneCurrent
  doneAfterInterrupt := hbeside.doneAfterInterrupt.trans hpending.doneAfterInterrupt
  marked hmarked := by
    obtain ⟨hinterrupted, hquiet⟩ := hpending.marked (hbeside.marked.mp hmarked)
    exact ⟨hbeside.interrupted.trans hinterrupted, hbeside.quiet hquiet⟩

theorem idle (hidle : Idle before) : Idle after where
  phase := hbeside.phase.trans hidle.phase
  doneCurrent := hbeside.doneCurrent.trans hidle.doneCurrent
  doneAfterInterrupt := hbeside.doneAfterInterrupt.trans hidle.doneAfterInterrupt
  interrupted := hbeside.interrupted.trans hidle.interrupted
  unmarked hmarked := hidle.unmarked (hbeside.marked.mp hmarked)

end Beside

theorem Live.beside {before after : State} (hlive : Live before) (hbeside : Beside before after) :
    Live after where
  stage := hbeside.stage.trans hlive.stage
  idle hturn := hbeside.idle (hlive.idle (hbeside.turn.symm.trans hturn))
  pending number hturn := hbeside.pending (hlive.pending number (hbeside.turn.symm.trans hturn))

/-! ## Starting, closing and ending -/

namespace Idle

variable {state : State} (config : Config)

variable (hidle : Idle state)
include hidle

theorem promote (hstage : state.stage = .running) (steer : Steer) : Live (state.promote steer) where
  stage := hstage
  idle hturn := nomatch hturn
  pending number hturn := by
    cases hturn
    have hboundary := (state.boundary_beside steer).idle hidle
    refine ⟨?_, rfl, rfl, hidle.doneAfterInterrupt, ?_⟩
    · change (Keel.Acp.phase (state.boundary steer).log).bind _ = _
      rw [hboundary.phase]
      rfl
    · intro hmarked
      cases mem_cons.mp hmarked with
      | inl hprompt => cases hprompt
      | inr hmem => exact absurd hmem hboundary.unmarked

theorem endLoop : Finished (state.endLoop config) := by
  rw [State.endLoop, if_neg (by simp [hidle.interrupted]), if_neg (by simp [hidle.doneCurrent])]
  exact ⟨rfl, hidle.phase, fun hmarked => absurd hmarked hidle.unmarked⟩

theorem live (hstage : state.stage = .running) (hturn : state.turn = none) : Live state where
  stage := hstage
  idle _ := hidle
  pending number hsome := by rw [hturn] at hsome; cases hsome

theorem next (hstage : state.stage = .running) (hturn : state.turn = none) :
    Live (state.next config) ∨ Finished (state.next config) := by
  unfold State.next
  split
  · next steer rest hqueue =>
      have hbeside : Beside state { state with queuedSteers := rest } := .same rfl rfl
      exact .inl ((hbeside.idle hidle).promote hstage steer)
  · split
    · exact .inl (hidle.live hstage hturn)
    · exact .inr (hidle.endLoop config)

/-- An interrupt between prompts ends the loop with the one `Done` it owes. -/
theorem interrupt (hturn : state.turn = none) : Finished (state.interrupt config) := by
  have hended : state.interrupt config =
      { state with
        interruptSent := true
        interrupted := true
        stage := .ended
        log := .done none .interrupted none (some config.sessionId) :: .interrupted :: state.log } := by
    simp [State.interrupt, State.emit, State.endLoop, hturn, hidle.doneCurrent,
      hidle.doneAfterInterrupt]
  rw [hended]
  refine ⟨rfl, ?_, fun _ => ⟨none, _, _, rfl, mem_cons_self, ?_⟩⟩
  · simp [Keel.Acp.phase, Phase.after, hidle.phase]
  · intro output houtput
    cases houtput

end Idle

theorem Sealed.endLoop {state : State} (config : Config) (hsealed : Sealed state) :
    Finished (state.endLoop config) := by
  rw [State.endLoop, if_neg (by simp [hsealed.doneAfterInterrupt]),
    if_neg (by simp [hsealed.interrupted])]
  exact ⟨rfl, hsealed.phase, hsealed.marked⟩

namespace Pending

variable {state : State} {number : Nat} (config : Config)

variable (hpending : Pending number state)
include hpending

theorem phase_done (status : DoneStatus) (error session : Option String) :
    Keel.Acp.phase (.done (some number) status error session :: state.log) = some .between := by
  rw [Keel.Acp.phase, hpending.phase]
  exact if_pos rfl

theorem endsInterrupted (hmarked : .interrupted ∈ state.log) (session : Option String) :
    EndsInterrupted (.done (some number) .interrupted none session :: state.log) :=
  ⟨some number, session, state.log, rfl, hmarked, (hpending.marked hmarked).2⟩

theorem endLoop : Finished (state.endLoop config) := by
  have hnumber : state.prompts - 1 = number := by rw [hpending.prompts]; rfl
  cases hinterrupted : state.interrupted with
  | true =>
    rw [State.endLoop, if_pos (by simp [hinterrupted, hpending.doneAfterInterrupt])]
    refine ⟨rfl, ?_, ?_⟩
    · rw [hpending.doneCurrent, hnumber]
      exact hpending.phase_done _ _ _
    · intro hmarked
      rw [hpending.doneCurrent, hnumber] at hmarked ⊢
      cases mem_cons.mp hmarked with
      | inl hdone => cases hdone
      | inr hmem => exact hpending.endsInterrupted hmem _
  | false =>
    rw [State.endLoop, if_neg (by simp [hinterrupted]),
      if_pos (by simp [hinterrupted, hpending.doneCurrent])]
    refine ⟨rfl, ?_, ?_⟩
    · rw [hnumber]
      exact hpending.phase_done _ _ _
    · intro hmarked
      cases mem_cons.mp hmarked with
      | inl hdone => cases hdone
      | inr hmem => exact absurd (hpending.marked hmem).1 (by simp [hinterrupted])

theorem sendDone_idle (hinterrupted : state.interrupted = false) (status : DoneStatus)
    (error : Option String) : Idle (state.sendDone config number status error) where
  phase := hpending.phase_done _ _ _
  doneCurrent := rfl
  doneAfterInterrupt := by
    simp [State.sendDone, hpending.doneAfterInterrupt, hinterrupted]
  interrupted := hinterrupted
  unmarked hmarked := by
    cases mem_cons.mp hmarked with
    | inl hdone => cases hdone
    | inr hmem => exact absurd (hpending.marked hmem).1 (by simp [hinterrupted])

theorem sendDone_sealed (hinterrupted : state.interrupted = true) :
    Sealed (state.sendDone config number .interrupted none) where
  phase := hpending.phase_done _ _ _
  doneAfterInterrupt := by simp [State.sendDone, hinterrupted]
  interrupted := hinterrupted
  marked hmarked := by
    cases mem_cons.mp hmarked with
    | inl hdone => cases hdone
    | inr hmem => exact hpending.endsInterrupted hmem _

/-- A prompt that was answered is closed once; after an interrupt as interrupted. -/
theorem closeTurn (response : Except String PromptResponse) :
    state.interrupted = false ∧ Idle (state.closeTurn config number response) ∨
      Sealed (state.closeTurn config number response) := by
  have hbeside := state.reported_beside response
  have hreported := hbeside.pending hpending
  cases hinterrupted : state.interrupted with
  | false =>
    exact .inl ⟨rfl, hreported.sendDone_idle config (hbeside.interrupted.trans hinterrupted) _ _⟩
  | true =>
    refine .inr ?_
    rw [State.closeTurn, hinterrupted]
    exact hreported.sendDone_sealed config (hbeside.interrupted.trans hinterrupted)

theorem interrupt (hstage : state.stage = .running) (hturn : state.turn = some number) :
    Live (state.interrupt config) := by
  have hcancelled : state.interrupt config =
      { state with
        interruptSent := true
        interrupted := true
        log := .cancel :: .interrupted :: state.log } := by
    simp [State.interrupt, State.emit, hturn]
  rw [hcancelled]
  refine ⟨hstage, fun hnone => ?_, fun other hother => ?_⟩
  · rw [hturn] at hnone
    cases hnone
  · rw [hturn, some.injEq] at hother
    subst hother
    refine ⟨?_, hpending.prompts, hpending.doneCurrent, hpending.doneAfterInterrupt, ?_⟩
    · simp [Keel.Acp.phase, Phase.after, hpending.phase]
    · refine fun _ => ⟨rfl, ?_⟩
      intro output houtput
      cases mem_singleton.mp houtput
      rfl

end Pending

/-! ## The arms -/

section
variable (config : Config) (state : State) (number : Nat) (response : Except String PromptResponse)
include config state number response

theorem State.closeTurn_turn : (state.closeTurn config number response).turn = state.turn :=
  (state.reported_beside response).turn

theorem State.closeTurn_stage : (state.closeTurn config number response).stage = state.stage :=
  (state.reported_beside response).stage

end

/-- What every arm keeps. -/
inductive Kept (state : State) : Prop where
  | live (hlive : Live state)
  | finished (hfinished : Finished state)

namespace Pending

variable {state : State} {number : Nat} (config : Config)

/-- After its answer a turn is followed by the next one, the mailbox, or the end. -/
theorem afterTurn (hpending : Pending number state) (hstage : state.stage = .running)
    (hturn : state.turn = none) (response : Except String PromptResponse) :
    Kept ((state.closeTurn config number response).afterTurn config response) := by
  unfold State.afterTurn
  cases hpending.closeTurn config response with
  | inl hclosed =>
    have hidle := hclosed.2
    split
    · exact .finished (hidle.endLoop config)
    · exact (hidle.next config ((state.closeTurn_stage config number response).trans hstage)
        ((state.closeTurn_turn config number response).trans hturn)).elim .live .finished
  | inr hsealed =>
    rw [if_pos (.inl hsealed.interrupted)]
    exact .finished (hsealed.endLoop config)

/-- The end of the agent's output closes the prompt by its response or else as crashed. -/
theorem eofAnswered (hpending : Pending number state) (response : Except String PromptResponse) :
    Finished ((state.closeTurn config number response).endLoop config) := by
  cases hpending.closeTurn config response with
  | inl hclosed => exact hclosed.2.endLoop config
  | inr hsealed => exact hsealed.endLoop config

end Pending

namespace Live

variable {state : State} (config : Config)

theorem taken (hlive : Live state) {number : Nat} (hturn : state.turn = some number) :
    Pending number { state with turn := none } :=
  have hpending := hlive.pending number hturn
  ⟨hpending.phase, hpending.prompts, hpending.doneCurrent, hpending.doneAfterInterrupt,
    hpending.marked⟩

theorem settle (hlive : Live state) {number : Nat} (hturn : state.turn = some number)
    (response : Except String PromptResponse) (answer : Option (Except String SteeringAnswer))
    (drained : List Incoming) : Kept (state.settle config number response answer drained) := by
  have hdisarmed : Beside { state with turn := none }
      { state with turn := none, starveDeadline := none } := .same rfl rfl
  have hbeside := (hdisarmed.trans (State.settleSteering_beside _ answer)).trans
    (State.drain_beside _ drained)
  exact (hbeside.pending (hlive.taken hturn)).afterTurn config (hbeside.stage.trans hlive.stage)
    hbeside.turn response

theorem eof (hlive : Live state) (response : Option (Except String PromptResponse)) :
    Finished (state.eof config response) := by
  unfold State.eof
  split
  · next number response hturn => exact (hlive.taken hturn).eofAnswered config (.ok response)
  · cases hturn : state.turn with
    | none =>
      have hidle := hlive.idle hturn
      have htaken : Idle { state with turn := none } :=
        ⟨hidle.phase, hidle.doneCurrent, hidle.doneAfterInterrupt, hidle.interrupted, hidle.unmarked⟩
      exact htaken.endLoop config
    | some number => exact (hlive.taken hturn).endLoop config

theorem starve (hlive : Live state) {number : Nat} (hturn : state.turn = some number)
    (hinterrupted : state.interrupted = false) : Kept (state.starve config number) := by
  have hbeside : Beside { state with turn := none }
      { state with turn := none, starveDeadline := none }.completeMessage :=
    .emitted rfl rfl rfl
  have hidle := (hbeside.pending (hlive.taken hturn)).sendDone_idle config hinterrupted .completed none
  exact (hidle.next config hlive.stage rfl).elim .live .finished

theorem turnEnded (hlive : Live state) (hturn : state.turn = none) (session : Option String) :
    Live (state.emit (.done none .completed none session)) := by
  have hidle := hlive.idle hturn
  have hended : Idle (state.emit (.done none .completed none session)) := by
    refine ⟨?_, hidle.doneCurrent, hidle.doneAfterInterrupt, hidle.interrupted, ?_⟩
    · change (phase state.log).bind _ = _
      rw [hidle.phase]
      rfl
    · intro hmarked
      cases mem_cons.mp hmarked with
      | inl hdone => cases hdone
      | inr hmem => exact hidle.unmarked hmem
  exact hended.live hlive.stage hturn

theorem receive (hlive : Live state) (message : Incoming) : Live (state.receive config message) := by
  have hread : Live { state with lastUpdateAt := state.now } :=
    hlive.beside (.same rfl rfl)
  cases message with
  | update events turnEndCost =>
    unfold State.receive
    refine Live.beside ?_ ((State.trackAll_beside _ events).trans (State.sendAll_beside _ events))
    split
    · exact hread.beside (.same rfl rfl)
    · exact hread
  | turnEnded ours =>
    unfold State.receive
    dsimp only
    split
    · next hbetween => exact hread.turnEnded (isNone_iff_eq_none.mp hbetween.1) _
    · exact hread
  | notification events =>
    exact hread.beside ((State.trackAll_beside _ events).trans (State.sendAll_beside _ events))
  | request events asks =>
    refine Live.beside ?_ (State.sendAll_beside _ events)
    split
    · exact hlive.beside (.same rfl rfl)
    · exact hlive

theorem redeliver (hlive : Live state) (steer : Steer) (noRunningTurn : Bool) :
    Live (state.redeliver steer noRunningTurn) := by
  unfold State.redeliver
  split
  · exact hlive.beside (.same rfl rfl)
  · next hnone =>
      have hturn : state.turn = none := not_isSome_iff_eq_none.mp hnone
      exact (hlive.idle hturn).promote hlive.stage steer

theorem answered (hlive : Live state) (steer : Steer) (answer : Except String SteeringAnswer)
    (drained : List Incoming) : Live (state.answered steer answer drained) := by
  have htaken : Live { state with steeringCall := none } := hlive.beside (.same rfl rfl)
  refine Live.beside ?_ (State.resumeBacklog_beside _ _)
  unfold State.resolveCall
  split
  · exact htaken
  · split
    · exact htaken.beside (State.injectCall_beside _ steer drained)
    · exact htaken.redeliver steer _

variable (hlive : Live state)
include hlive

theorem receiveSteer (prompt : String) : Live (state.receiveSteer config prompt) := by
  have hread : Live { state with received := state.received + 1 } :=
    hlive.beside (.same rfl rfl)
  unfold State.receiveSteer
  dsimp only
  split
  · exact hread.beside (.same rfl rfl)
  · split
    · exact hread.beside (.emitted rfl rfl rfl)
    · split
      · next hnone =>
          have hturn : state.turn = none := isNone_iff_eq_none.mp hnone
          exact (hread.idle hturn).promote hlive.stage _
      · exact hread.beside (State.steerTurn_beside config _ _)

theorem closeMailbox : Kept (state.closeMailbox config) := by
  have hread : Live { state with steeringOpen := false } := hlive.beside (.same rfl rfl)
  unfold State.closeMailbox
  dsimp only
  split
  · next hnone =>
      exact .finished ((hread.idle (isNone_iff_eq_none.mp hnone.1)).endLoop config)
  · exact .live hread

theorem interrupt : Kept (state.interrupt config) := by
  cases hturn : state.turn with
  | none => exact .finished ((hlive.idle hturn).interrupt config hturn)
  | some number => exact .live ((hlive.pending number hturn).interrupt config hlive.stage hturn)

theorem flush : Kept (if state.turn.isNone then state.next config else state) := by
  split
  · next hnone =>
      have hturn : state.turn = none := isNone_iff_eq_none.mp hnone
      exact ((hlive.idle hturn).next config hlive.stage hturn).elim .live .finished
  · exact .live hlive

end Live

/-! ## Whole runs -/

/-- A session in its setup has sent nothing; afterwards `Kept` holds. -/
inductive Reached (state : State) : Prop where
  | setup (now : Nat) (hstate : state = { now := now })
  | kept (hkept : Kept state)

section
variable (config : Config)
include config

theorem State.announce_beside (state : State) (commands : List SlashCommand) :
    Beside state (state.announce config commands) := by
  have hstarted := state.emit_beside (Output.plain_sent (.sessionStarted config.harness config.model
    [] config.cwd config.sessionId (toString state.assistantMessageId)))
  unfold State.announce
  dsimp only
  split
  · exact hstarted
  · exact hstarted.trans (State.emit_beside _ rfl)

theorem State.begin_live (now : Nat) (commands : List SlashCommand) :
    Live (({ now := now } : State).begin config commands) where
  stage := rfl
  idle hnone := nomatch hnone
  pending number hturn := by
    cases hturn
    have hbeside := State.announce_beside config { now := now } commands
    refine ⟨?_, rfl, hbeside.doneCurrent, hbeside.doneAfterInterrupt, fun hmarked => ?_⟩
    · change (phase _).bind _ = _
      rw [hbeside.phase]
      rfl
    · cases mem_cons.mp hmarked with
      | inl hprompt => cases hprompt
      | inr hmem => exact nomatch hbeside.marked.mp hmem

theorem step_of_running {state : State} (hstage : state.stage = .running) (action : Action) :
    step config state action = running config state action := by
  simp only [step, hstage]

theorem step_of_ended {state : State} (hstage : state.stage = .ended) (action : Action) :
    step config state action = none := by
  simp only [step, hstage]

end

/-- What an action does in the loop of a running session, arm by arm. -/
inductive Arm (config : Config) (state : State) : Action → State → Prop
  | settle {number : Nat} (hturn : state.turn = some number)
      (response : Except String PromptResponse) (answer : Option (Except String SteeringAnswer))
      (drained : List Incoming) : Arm config state (.settle response answer drained)
        (state.settle config number response answer drained)
  | incoming (message : Incoming) :
      Arm config state (.incoming message) (state.receive config message)
  | eof (response : Option (Except String PromptResponse)) :
      Arm config state (.eof response) (state.eof config response)
  | answer {steer : Steer} (hcall : state.steeringCall = some steer)
      (answer : Except String SteeringAnswer) (drained : List Incoming) :
      Arm config state (.answer answer drained) (state.answered steer answer drained)
  | flush : Arm config state .flush (if state.turn.isNone then
      { state with cancelFlushDeadline := none }.next config
      else { state with cancelFlushDeadline := none })
  | quiet : Arm config state .quiet { state with starveDeadline := some state.now }
  | starve {number : Nat} (hturn : state.turn = some number) (hlive : state.interrupted = false) :
      Arm config state .starve (state.starve config number)
  | steer (prompt : String) :
    Arm config state (.steer (some prompt)) (state.receiveSteer config prompt)
  | closeMailbox : Arm config state (.steer none) (state.closeMailbox config)
  | interrupt : Arm config state .interrupt (state.interrupt config)
  | tick (elapsed : Nat) : Arm config state (.tick elapsed) { state with now := state.now + elapsed }
  | questionAnswered :
      Arm config state .questionAnswered { state with openQuestions := state.openQuestions - 1 }
  | closed : Arm config state .closed { state with stage := .ended }

theorem arm_of_running {config : Config} {state next : State} {action : Action}
    (hstep : running config state action = some next) : Arm config state action next := by
  cases action with
  | settle response answer drained =>
    obtain ⟨number, hturn, rfl⟩ := map_eq_some_iff.mp hstep
    exact .settle hturn response answer drained
  | answer answer drained =>
    obtain ⟨steer, hcall, rfl⟩ := map_eq_some_iff.mp hstep
    exact .answer hcall answer drained
  | flush =>
    obtain ⟨-, hnext⟩ := ite_none_right_eq_some.mp hstep
    cases hnext
    exact .flush
  | quiet =>
    obtain ⟨-, hnext⟩ := ite_none_right_eq_some.mp hstep
    cases hnext
    exact .quiet
  | starve =>
    obtain ⟨harmed, hnext⟩ := ite_none_right_eq_some.mp hstep
    obtain ⟨number, hturn, rfl⟩ := map_eq_some_iff.mp hnext
    exact .starve hturn (Bool.not_eq_true _ ▸ harmed.2)
  | steer received =>
    obtain ⟨-, hnext⟩ := ite_none_right_eq_some.mp hstep
    cases hnext
    cases received with
    | some prompt => exact .steer prompt
    | none => exact .closeMailbox
  | interrupt =>
    obtain ⟨-, hnext⟩ := ite_none_left_eq_some.mp hstep
    cases hnext
    exact .interrupt
  | incoming | eof | tick | questionAnswered | closed =>
    cases hstep
    constructor
  | ready | setupFails => cases hstep

theorem kept_of_running (config : Config) {state next : State} {action : Action}
    (hlive : Live state) (hconnected : action ≠ .closed)
    (hstep : running config state action = some next) : Kept next := by
  cases arm_of_running hstep with
  | settle hturn response answer drained => exact hlive.settle config hturn response answer drained
  | incoming message => exact .live (hlive.receive config message)
  | eof response => exact .finished (hlive.eof config response)
  | @answer steer _ answer drained => exact .live (hlive.answered steer answer drained)
  | flush =>
    have hflushed : Live { state with cancelFlushDeadline := none } :=
      hlive.beside (.same rfl rfl)
    exact hflushed.flush config
  | starve hturn huninterrupted => exact hlive.starve config hturn huninterrupted
  | steer prompt => exact .live (hlive.receiveSteer config prompt)
  | closeMailbox => exact hlive.closeMailbox config
  | interrupt => exact hlive.interrupt config
  | quiet | tick | questionAnswered => exact .live (hlive.beside (.same rfl rfl))
  | closed => exact absurd rfl hconnected

theorem reached_of_step (config : Config) {state next : State} {action : Action}
    (hreached : Reached state) (hconnected : action ≠ .closed)
    (hstep : step config state action = some next) : Reached next := by
  cases hreached with
  | kept hkept =>
    cases hkept with
    | live hlive =>
      rw [step_of_running config hlive.stage] at hstep
      exact .kept (kept_of_running config hlive hconnected hstep)
    | finished hfinished =>
      rw [step_of_ended config hfinished.stage] at hstep
      cases hstep
  | setup now hstate =>
    subst hstate
    cases action with
    | tick elapsed => cases hstep; exact .setup _ rfl
    | ready commands =>
      cases hstep
      exact .kept (.live (State.begin_live config now commands))
    | setupFails error =>
      cases hstep
      exact .kept (.finished ⟨rfl, rfl, by simp [State.emit]⟩)
    | interrupt =>
      cases hstep
      refine .kept (.finished ⟨rfl, rfl, fun _ => ⟨none, none, [.interrupted], rfl, ?_, ?_⟩⟩)
      · exact mem_cons_self
      · intro output houtput
        cases houtput
    | closed => exact absurd rfl hconnected
    | _ => cases hstep

/-- What a reader of the stream may rely on. -/
structure Disciplined (state : State) : Prop where
  /-- A prompt is sent only between prompts, and a `Done` of a prompt only for the open one. -/
  accepted : ∃ reached, phase state.log = some reached
  /-- A prompt has one `Done` of its own before the next prompt or the end of the stream. -/
  closedOnce : ∀ later window number steer text older,
    state.log = later ++ (window ++ .prompt number steer text :: older) →
    (∀ output ∈ window, output.isPrompt = false) →
    (∃ newer next other text, later = newer ++ [.prompt next other text]) ∨
      later = [] ∧ state.stage = .ended →
    window.filterMap Output.closes? = [number]
  /-- The last prompt of a stream that goes on has one or none. -/
  closedAtMostOnce : ∀ window number steer text older,
    state.log = window ++ .prompt number steer text :: older →
    (∀ output ∈ window, output.isPrompt = false) →
    window.filterMap Output.closes? = [] ∨ window.filterMap Output.closes? = [number]
  /-- After the interrupt there is one `Done`, the last output of the stream. -/
  interrupted : .interrupted ∈ state.log →
    match state.stage with
    | .ended => EndsInterrupted state.log
    | _ => Quiet state.log

theorem phase_of_append {newer older : List Output}
    (hphase : phase (newer ++ older) = some reached) : ∃ before, phase older = some before := by
  induction newer generalizing reached with
  | nil => exact ⟨reached, hphase⟩
  | cons output rest ih =>
    rw [cons_append, phase, bind_eq_some_iff] at hphase
    obtain ⟨before, hbefore, -⟩ := hphase
    exact ih hbefore

theorem phase_prompt {older : List Output} {number : Nat} {steer : Option Nat} {text : String}
    (hphase : phase (.prompt number steer text :: older) = some reached) :
    phase older = some .between ∧ reached = .outstanding number := by
  rw [phase, bind_eq_some_iff] at hphase
  obtain ⟨before, hbefore, hafter⟩ := hphase
  cases before with
  | between => cases hafter; exact ⟨hbefore, rfl⟩
  | outstanding => cases hafter

theorem disciplined_of_phase {state : State}
    (hphase : phase state.log = some reached)
    (hended : state.stage = .ended → reached = .between)
    (hinterrupted : .interrupted ∈ state.log →
      match state.stage with
      | .ended => EndsInterrupted state.log
      | _ => Quiet state.log) : Disciplined state where
  accepted := ⟨reached, hphase⟩
  closedOnce := by
    intro later window number steer text older hlog hwindow hclosed
    rw [hlog] at hphase
    obtain ⟨inside, hinside⟩ := phase_of_append hphase
    obtain ⟨opened, hopened⟩ := phase_of_append hinside
    obtain ⟨-, rfl⟩ := phase_prompt hopened
    have hbetween : inside = .between := by
      cases hclosed with
      | inl hnext =>
        obtain ⟨newer, next, other, text', rfl⟩ := hnext
        rw [append_assoc, singleton_append] at hphase
        obtain ⟨after, hafter⟩ := phase_of_append hphase
        have hbefore := (phase_prompt hafter).1
        rw [hinside, some.injEq] at hbefore
        exact hbefore
      | inr hend =>
        obtain ⟨rfl, hstage⟩ := hend
        have hwhole : some inside = some reached := hinside.symm.trans hphase
        rw [some.injEq] at hwhole
        exact hwhole.trans (hended hstage)
    cases closes_of_phase hopened hwindow hinside with
    | inl hopen => rw [hbetween] at hopen; cases hopen.1
    | inr hdone => exact hdone.2
  closedAtMostOnce := by
    intro window number steer text older hlog hwindow
    rw [hlog] at hphase
    obtain ⟨opened, hopened⟩ := phase_of_append hphase
    obtain ⟨-, rfl⟩ := phase_prompt hopened
    exact (closes_of_phase hopened hwindow hphase).imp And.right And.right
  interrupted := hinterrupted

/-- Every run of a session whose consumer stays connected gives each prompt one `Done` before
the next prompt and before the end, and after the interrupt one `Done`, the last output. -/
theorem disciplined_of_run (config : Config) {actions : List Action} {state : State}
    (hconnected : ∀ action ∈ actions, action ≠ .closed)
    (hrun : Trace.run (step config) {} actions = some state) : Disciplined state := by
  have hguarded : Trace.Guarded (step config) (fun _ action => action ≠ .closed) {} actions :=
    .of_forall_mem fun action hmem _ => hconnected action hmem
  have hreached : Reached state :=
    Trace.guarded_invariant (fun _ _ _ hreached hguard hstep =>
      reached_of_step config hreached hguard hstep) (.setup 0 rfl) hguarded hrun
  cases hreached with
  | setup now hstate =>
    subst hstate
    exact disciplined_of_phase rfl (fun hstage => nomatch hstage) fun hmarked => nomatch hmarked
  | kept hkept =>
    cases hkept with
    | finished hfinished =>
      refine disciplined_of_phase hfinished.phase (fun _ => rfl) fun hmarked => ?_
      rw [hfinished.stage]
      exact hfinished.marked hmarked
    | live hlive =>
      have hrunning : state.stage ≠ .ended := by rw [hlive.stage]; exact nofun
      cases hturn : state.turn with
      | none =>
        have hidle := hlive.idle hturn
        exact disciplined_of_phase hidle.phase (fun hstage => absurd hstage hrunning)
          fun hmarked => absurd hmarked hidle.unmarked
      | some number =>
        have hpending := hlive.pending number hturn
        refine disciplined_of_phase hpending.phase (fun hstage => absurd hstage hrunning)
          fun hmarked => ?_
        rw [hlive.stage]
        exact (hpending.marked hmarked).2

/-- A steer becomes the second prompt, which is interrupted and never answered. -/
theorem disciplined_of_run_interrupted :
    ∃ state, Trace.run (step ⟨.grok, "grok", "/work", "s1", "hello", id, false, none, "crashed"⟩) {}
        [.ready [], .steer (some "more"), .settle (.ok ⟨some "end_turn", none⟩) none [], .interrupt,
          .eof none] = some state ∧
      state.stage = .ended ∧ Disciplined state := by
  obtain ⟨state, hrun, hstage⟩ : ∃ state, Trace.run
      (step ⟨.grok, "grok", "/work", "s1", "hello", id, false, none, "crashed"⟩) {}
      [.ready [], .steer (some "more"), .settle (.ok ⟨some "end_turn", none⟩) none [], .interrupt,
        .eof none] = some state ∧ state.stage = .ended := ⟨_, rfl, rfl⟩
  refine ⟨state, hrun, hstage, disciplined_of_run _ (fun action hmem => ?_) hrun⟩
  simp only [mem_cons, not_mem_nil, or_false] at hmem
  obtain rfl | rfl | rfl | rfl | rfl := hmem <;> exact nofun

end Keel.Acp
