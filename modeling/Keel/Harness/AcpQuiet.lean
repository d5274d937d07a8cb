import Keel.Harness.AcpSteers

/-! # The quiet settle

A turn that has streamed content and gone quiet is settled for the agent. The loop takes the
silence for the end of the turn when no tool is open, no question is pending and no update came for
a while. A message that is drained at an injection is not entered in these books, and an answered
question leaves no trace in them.
-/

namespace Keel.Acp

open List

/-- A tool call of the turn is without a result in a log whose newest output is first. -/
def openTool (id : String) : List Output → Bool
  | [] => false
  | .prompt .. :: _ => false
  | .sent (.toolCall other _) :: older => other = id || openTool id older
  | .sent (.toolResult other ..) :: older => other ≠ id && openTool id older
  | _ :: older => openTool id older

def Incoming.isUpdate : Incoming → Bool
  | .update .. | .notification .. => true
  | .turnEnded _ | .request .. => false

/-- The messages that a step folds into the stream besides the one it reads. -/
def drainedBy (state : State) : Action → List Incoming
  | .answer answer drained =>
    if state.turn.isSome ∧ ¬ state.interrupted ∧ outcomeOf answer ≠ "promptRequired" then drained
    else []
  | .settle _ _ drained => drained
  | _ => []

def handles (state : State) : Action → Bool
  | .incoming message => message.isUpdate
  | action => (drainedBy state action).any Incoming.isUpdate

/-- A tool call is among the messages that a step folds into the stream. -/
def DrainsCall (state : State) (action : Action) (id : String) : Prop :=
  ∃ message ∈ drainedBy state action, ∃ update ∈ message.drainedEvents, ∃ call,
    update.event = .toolCall id call

def cursorTodoEvents (chip : String) (items : List TodoItem) : List AgentEvent :=
  [.toolCall chip (.todo items), .toolResult chip false none none]

/-- A request of the agent shows nothing but the chip of its to-do list. -/
def Action.FromAgent : Action → Prop
  | .incoming (.request events _) =>
    events.map AgentUpdate.event = [] ∨
      ∃ chip items, events.map AgentUpdate.event = cursorTodoEvents chip items
  | _ => True

section Runs

variable (config : Config) (trace : List Action) (state : State) (quiet : Nat)

/-- The turn is over by its own evidence: its tools have their results, and in the window no update
was handled and no question was open. -/
def SettlesQuietly : Prop :=
  (∀ id, openTool id state.log = false) ∧
    ∀ past action later before, trace = past ++ action :: later →
      Trace.run (step config) {} past = some before → state.now < before.now + quiet →
        handles before action = false ∧ before.openQuestions = 0

/-- The books are complete: the tools that were called in drained messages of the turn have their
results, and in the window no update was drained and no question was answered. -/
structure Booked : Prop where
  tools : ∀ past action later before, trace = past ++ action :: later →
    Trace.run (step config) {} past = some before → before.prompts = state.prompts →
      ∀ id, DrainsCall before action id → openTool id state.log = false
  updates : ∀ past action later before, trace = past ++ action :: later →
    Trace.run (step config) {} past = some before → state.now < before.now + quiet →
      (drainedBy before action).any Incoming.isUpdate = false
  questions : ∀ past later before, trace = past ++ .questionAnswered :: later →
    Trace.run (step config) {} past = some before → state.now < before.now + quiet →
      before.openQuestions = 0

end Runs

/-! ## The tools in the books -/

/-- The open tools of the turn are in the books or are excused. -/
def Covers (excused : String → Prop) (state : State) : Prop :=
  ∀ id, openTool id state.log = true → id ∈ state.openTools ∨ excused id

/-- What the loop keeps of a turn for the quiet settle. -/
def State.books (state : State) : List String × Nat × Nat × Nat × Nat :=
  (state.openTools, state.prompts, state.now, state.lastUpdateAt, state.openQuestions)

/-- The books and the open tools of the turn are as they were. -/
structure SameBooks (before after : State) : Prop where
  books : after.books = before.books
  log : ∀ id, openTool id after.log = openTool id before.log

namespace SameBooks

variable {before after : State}

theorem same (hbooks : after.books = before.books) (hlog : after.log = before.log) :
    SameBooks before after :=
  ⟨hbooks, fun _ => by rw [hlog]⟩

theorem refl (state : State) : SameBooks state state := same rfl rfl

theorem trans {first second third : State} (hfirst : SameBooks first second)
    (hsecond : SameBooks second third) : SameBooks first third :=
  ⟨hsecond.books.trans hfirst.books, fun id => (hsecond.log id).trans (hfirst.log id)⟩

theorem emitted {output : Output} (hbooks : after.books = before.books)
    (hlog : after.log = output :: before.log)
    (houtput : ∀ id log, openTool id (output :: log) = openTool id log) : SameBooks before after :=
  ⟨hbooks, fun id => by rw [hlog, houtput]⟩

variable (hsame : SameBooks before after)
include hsame

theorem openTools : after.openTools = before.openTools :=
  congrArg (·.1) hsame.books

theorem prompts : after.prompts = before.prompts :=
  congrArg (·.2.1) hsame.books

theorem covers {excused : String → Prop} (hcovers : Covers excused before) :
    Covers excused after := by
  intro id hopen
  rw [hsame.log] at hopen
  rw [hsame.openTools]
  exact hcovers id hopen

end SameBooks

theorem Covers.mono {excused other : String → Prop} {state : State} (hcovers : Covers excused state)
    (himp : ∀ id, excused id → other id) : Covers other state :=
  fun id hopen => (hcovers id hopen).imp_right (himp id)

namespace State

variable (config : Config) (state : State)

theorem completeMessage_books : SameBooks state state.completeMessage :=
  .emitted rfl rfl fun _ _ => rfl

theorem boundary_books (steer : Steer) : SameBooks state (state.boundary steer) :=
  .emitted rfl rfl fun _ _ => rfl

theorem startCall_books (steer : Steer) : SameBooks state (state.startCall steer) :=
  .emitted rfl rfl fun _ _ => rfl

theorem endLoop_books : SameBooks state (state.endLoop config) := by
  unfold endLoop
  split
  · exact .emitted rfl rfl fun _ _ => rfl
  · split
    · exact .emitted rfl rfl fun _ _ => rfl
    · exact .same rfl rfl

theorem closeTurn_books (number : Nat) (response : Except String PromptResponse) :
    SameBooks state (state.closeTurn config number response) := by
  have hreported : SameBooks state.completeMessage (state.completeMessage.reportUsage response) := by
    unfold reportUsage
    split
    · exact .emitted rfl rfl fun _ _ => rfl
    · exact .refl _
  refine (state.completeMessage_books.trans hreported).trans ?_
  exact .emitted rfl rfl fun _ _ => rfl

theorem resumeBacklog_books (backlog : List Steer) :
    SameBooks state (state.resumeBacklog backlog) := by
  induction backlog generalizing state with
  | nil => exact .same rfl rfl
  | cons steer rest ih =>
    rw [resumeBacklog]
    split
    · exact (startCall_books state steer).trans (.same rfl rfl)
    · have hrest := ih { state with queuedSteers := state.queuedSteers ++ [steer] }
      exact ⟨hrest.books, hrest.log⟩

theorem settleSteering_books (answer : Option (Except String SteeringAnswer)) :
    SameBooks state (state.settleSteering answer) := by
  unfold settleSteering
  split
  · next steer _ =>
      have hdecided : SameBooks state
          (({ state with steeringCall := none } :
            State).decideCall steer (settledOutcome answer)) := by
        unfold decideCall
        split
        · exact .same rfl rfl
        · split
          · have hinjected : SameBooks state
                (({ state with steeringCall := none } : State).emit (.injected steer.number)) :=
              .emitted rfl rfl fun _ _ => rfl
            exact hinjected.trans (boundary_books _ steer)
          · exact .same rfl rfl
      exact hdecided.trans (.same rfl rfl)
  · exact .refl state

theorem promote_covers (steer : Steer) (excused : String → Prop) :
    Covers excused (state.promote steer) := by
  intro id hopen
  cases hopen

theorem sendAll_covers {excused : String → Prop} (hcovers : Covers excused state)
    (events : List AgentUpdate) (hcalls : ∀ update ∈ events, ∀ id call,
      update.event = .toolCall id call → excused id) : Covers excused (state.sendAll events) := by
  induction events generalizing state with
  | nil => exact hcovers
  | cons update rest ih =>
    have hlog : state.sendAll (update :: rest) = (state.emit (.sent update.event)).sendAll rest := by
      simp [sendAll, emit]
    rw [hlog]
    refine ih _ ?_ fun other hother => hcalls other (mem_cons_of_mem _ hother)
    intro id hopen
    have hcall := hcalls update mem_cons_self
    revert hopen
    simp only [emit]
    cases hevent : update.event with
    | toolCall other call =>
      simp only [openTool, Bool.or_eq_true, decide_eq_true_eq]
      rintro (rfl | hopen)
      · exact .inr (hcall _ call hevent)
      · exact hcovers id hopen
    | toolResult other =>
      simp only [openTool, Bool.and_eq_true]
      exact fun hopen => hcovers id hopen.2
    | _ => exact fun hopen => hcovers id hopen

theorem trackAll_covers {excused : String → Prop} {log : List Output}
    (hcovers : ∀ id, openTool id log = true → id ∈ state.openTools ∨ excused id)
    (events : List AgentUpdate) {id : String}
    (hopen : openTool id ((events.map fun update => Output.sent update.event).reverse ++ log) = true) :
    id ∈ (state.trackAll events).openTools ∨ excused id := by
  induction events generalizing state log with
  | nil => exact hcovers id hopen
  | cons update rest ih =>
    rw [map_cons, reverse_cons, append_assoc, singleton_append] at hopen
    refine ih (state.trackTurnSignals update.event) (fun other hother => ?_) hopen
    revert hother
    cases hevent : update.event with
    | toolCall called call =>
      simp only [openTool, Bool.or_eq_true, decide_eq_true_eq, trackTurnSignals]
      rintro (rfl | hother)
      · refine .inl ?_
        split
        · next hcontains => exact contains_iff_mem.mp hcontains
        · exact mem_cons_self
      · refine (hcovers other hother).imp_left fun hmem => ?_
        split
        · exact hmem
        · exact mem_cons_of_mem _ hmem
    | toolResult resolved =>
      simp only [openTool, Bool.and_eq_true, decide_eq_true_eq, trackTurnSignals]
      intro ⟨hresolved, hother⟩
      refine (hcovers other hother).imp_left fun hmem => ?_
      exact mem_filter.mpr ⟨hmem, by simpa using fun hsame => hresolved hsame.symm⟩
    | textDelta text =>
      simp only [openTool, trackTurnSignals]
      split <;> exact hcovers other
    | _ => exact hcovers other

theorem trackAll_log (events : List AgentUpdate) : (state.trackAll events).log = state.log := by
  induction events generalizing state with
  | nil => rfl
  | cons update rest ih =>
    refine (ih (state.trackTurnSignals update.event)).trans ?_
    unfold trackTurnSignals
    split
    · split <;> rfl
    · rfl
    · rfl
    · rfl

theorem trackAll_sendAll_covers {excused : String → Prop} (hcovers : Covers excused state)
    (events : List AgentUpdate) : Covers excused ((state.trackAll events).sendAll events) := by
  intro id hopen
  rw [sendAll, trackAll_log] at hopen
  exact state.trackAll_covers hcovers events hopen

theorem drain_covers {excused : String → Prop} (hcovers : Covers excused state)
    (drained : List Incoming) (hcalls : ∀ message ∈ drained, ∀ update ∈ message.drainedEvents,
      ∀ id call, update.event = .toolCall id call → excused id) :
    Covers excused (state.drain drained) := by
  induction drained generalizing state with
  | nil => exact hcovers
  | cons message rest ih =>
    refine ih _ (sendAll_covers _ ?_ _ (hcalls message mem_cons_self)) fun other hother =>
      hcalls other (mem_cons_of_mem _ hother)
    split
    · exact hcovers
    · exact hcovers

theorem drain_prompts (drained : List Incoming) : (state.drain drained).prompts = state.prompts :=
  congrArg (·.2.1) (state.drain_beside drained).flags

theorem trackAll_prompts (events : List AgentUpdate) :
    (state.trackAll events).prompts = state.prompts :=
  congrArg (·.2.1) (state.trackAll_beside events).flags

theorem receive_prompts (message : Incoming) :
    (state.receive config message).prompts = state.prompts := by
  cases message with
  | request events asks => cases asks <;> rfl
  | update events turnEndCost =>
    unfold receive
    dsimp only
    split <;> exact trackAll_prompts _ events
  | notification events => exact trackAll_prompts _ events
  | turnEnded ours =>
    unfold receive
    dsimp only
    split <;> rfl

theorem receive_request_covers {excused : String → Prop} (hcovers : Covers excused state)
    {events : List AgentUpdate} {asks : Bool}
    (hagent : Action.FromAgent (.incoming (.request events asks))) :
    Covers excused (state.receive config (.request events asks)) := by
  intro id hopen
  have hlog : (state.receive config (.request events asks)).log =
      ((events.map AgentUpdate.event).map Output.sent).reverse ++ state.log := by
    cases asks <;> simp [receive, sendAll, Function.comp_def]
  have htools : (state.receive config (.request events asks)).openTools = state.openTools := by
    cases asks <;> rfl
  rw [hlog] at hopen
  rw [htools]
  refine hcovers id ?_
  rcases hagent with hnone | ⟨chip, items, hchip⟩
  · rwa [hnone] at hopen
  · rw [hchip] at hopen
    simp only [cursorTodoEvents, map_cons, map_nil, reverse_cons, reverse_nil,
      nil_append, cons_append, openTool, Bool.and_eq_true, Bool.or_eq_true,
      decide_eq_true_eq] at hopen
    exact hopen.2.resolve_left hopen.1

end State

namespace Covers

variable {config : Config} {state : State} {excused : String → Prop} {prompts : Nat}

section
variable (hcovers : Covers excused state) (hprompts : state.prompts = prompts)
include hcovers hprompts

theorem kept : Covers (fun id => state.prompts = prompts ∧ excused id) state :=
  hcovers.mono fun _ hexcused => ⟨hprompts, hexcused⟩

theorem endLoop :
    Covers (fun id => (state.endLoop config).prompts = prompts ∧ excused id) (state.endLoop config) :=
  have hsame := State.endLoop_books config state
  (hsame.covers hcovers).kept (hsame.prompts.trans hprompts)

theorem next :
    Covers (fun id => (state.next config).prompts = prompts ∧ excused id) (state.next config) := by
  unfold State.next
  split
  · exact State.promote_covers _ _ _
  · split
    · exact hcovers.kept hprompts
    · exact hcovers.endLoop hprompts

/-- What the answer of a steering call drains into the live turn is excused. -/
theorem resolveCall (steer : Steer) (answer : Except String SteeringAnswer)
    (drained : List Incoming)
    (hcalls : (state.turn.isSome ∧ ¬ state.interrupted ∧ outcomeOf answer ≠ "promptRequired") →
      ∀ message ∈ drained, ∀ update ∈ message.drainedEvents, ∀ id call,
        update.event = .toolCall id call → excused id) :
    Covers (fun id => (state.resolveCall steer answer drained).prompts = prompts ∧ excused id)
      (state.resolveCall steer answer drained) := by
  unfold State.resolveCall
  split
  · exact hcovers.kept hprompts
  · next huninterrupted =>
      split
      · next hinjected =>
          unfold State.injectCall
          split
          · next hturn =>
              have hstarted : SameBooks state { state.emit (.injected steer.number) with
                  steeredThisTurn := true, starveDeadline := none } :=
                .emitted rfl rfl fun _ _ => rfl
              have hdrained := State.drain_covers _ (hstarted.covers hcovers) drained
                (hcalls ⟨hturn, huninterrupted, hinjected⟩)
              exact ((State.boundary_books _ steer).covers hdrained).kept
                ((State.drain_prompts _ drained).trans hprompts)
          · have hemitted : SameBooks state (state.emit (.injected steer.number)) :=
              .emitted rfl rfl fun _ _ => rfl
            exact (hemitted.covers hcovers).kept hprompts
      · unfold State.redeliver
        split
        · exact hcovers.kept hprompts
        · exact State.promote_covers _ _ _

end

theorem receiveSteer (hcovers : Covers excused state) (prompt : String) :
    Covers (fun id => (state.receiveSteer config prompt).prompts = state.prompts ∧ excused id)
      (state.receiveSteer config prompt) := by
  have hcancelled : SameBooks state (state.emit .cancel) := .emitted rfl rfl fun _ _ => rfl
  unfold State.receiveSteer
  dsimp only
  split
  · exact hcovers.kept rfl
  · split
    · exact (hcancelled.covers hcovers).kept rfl
    · split
      · exact State.promote_covers _ _ _
      · unfold State.steerTurn
        split
        · split
          · exact hcovers.kept rfl
          · have hcalled := State.startCall_books { state with received := state.received + 1 }
              ⟨state.received, config.promptTransform prompt⟩
            exact (hcalled.covers hcovers).kept rfl
        · exact hcovers.kept rfl

end Covers

/-- Each arm of the loop leaves an open tool in the books, or drained it into the pending prompt. -/
theorem covers_of_running (config : Config) {state next : State} {action : Action}
    {excused : String → Prop} (hcovers : Covers excused state) (hagent : action.FromAgent)
    (hstep : running config state action = some next) :
    Covers (fun id => next.prompts = state.prompts ∧
      (excused id ∨ DrainsCall state action id)) next := by
  have hexcused : Covers (fun id => excused id ∨ DrainsCall state action id) state :=
    hcovers.mono fun _ => .inl
  cases arm_of_running hstep with
  | @settle number _ response answer drained =>
    unfold State.settle
    dsimp only
    have hsettled := State.settleSteering_books
      ({ state with turn := none, starveDeadline := none } : State) answer
    have hdrained := State.drain_covers _ (hsettled.covers hexcused) drained
      fun message hmessage update hupdate id call hcall =>
        .inr ⟨message, hmessage, update, hupdate, call, hcall⟩
    generalize State.settleSteering _ answer = settled at hsettled hdrained ⊢
    have hclosed := State.closeTurn_books config (settled.drain drained) number response
    have hprompts := hclosed.prompts.trans ((settled.drain_prompts drained).trans hsettled.prompts)
    unfold State.afterTurn
    split
    · exact (hclosed.covers hdrained).endLoop hprompts
    · exact (hclosed.covers hdrained).next hprompts
  | incoming message =>
    refine Covers.kept ?_ (State.receive_prompts config state message)
    cases message with
    | request events asks => exact State.receive_request_covers config state hexcused hagent
    | update events turnEndCost =>
      unfold State.receive
      dsimp only
      refine State.trackAll_sendAll_covers _ ?_ events
      split
      · exact hexcused
      · exact hexcused
    | notification events =>
      refine State.trackAll_sendAll_covers _ ?_ events
      exact hexcused
    | turnEnded ours =>
      unfold State.receive
      dsimp only
      split
      · exact hexcused
      · exact hexcused
  | eof response =>
    unfold State.eof
    dsimp only
    split
    · next number response hturn =>
        have hclosed := State.closeTurn_books config { state with turn := none } number (.ok response)
        exact (hclosed.covers hexcused).endLoop hclosed.prompts
    · have htaken : Covers _ { state with turn := none } := hexcused
      exact htaken.endLoop rfl
  | @answer steer hcall answer drained =>
    have htaken : Covers _ { state with steeringCall := none } := hexcused
    have hresolved := htaken.resolveCall (rfl : _ = state.prompts) steer answer drained
      fun hlive message hmessage update hupdate id call hcall =>
        .inr ⟨message, by simpa only [drainedBy, if_pos hlive] using hmessage, update, hupdate, call,
          hcall⟩
    unfold State.answered
    dsimp only
    generalize State.resolveCall _ steer answer drained = resolved at hresolved ⊢
    have hfollowed := resolved.resumeBacklog_books resolved.steerBacklog
    rw [hfollowed.prompts]
    exact hfollowed.covers hresolved
  | flush =>
    split
    · have htaken : Covers _ { state with cancelFlushDeadline := none } := hexcused
      exact htaken.next rfl
    · exact hexcused.kept rfl
  | @starve number =>
    have hclosed : SameBooks state ((({ state with turn := none, starveDeadline := none } :
        State).completeMessage).sendDone config number .completed none) :=
      (State.completeMessage_books _).trans (.emitted rfl rfl fun _ _ => rfl)
    exact (hclosed.covers hexcused).next hclosed.prompts
  | steer prompt => exact hexcused.receiveSteer prompt
  | closeMailbox =>
    unfold State.closeMailbox
    dsimp only
    split
    · have htaken : Covers _ { state with steeringOpen := false } := hexcused
      exact htaken.endLoop rfl
    · exact hexcused.kept rfl
  | interrupt =>
    have hmarked : SameBooks state { state.emit .interrupted with
        interruptSent := true, interrupted := true } :=
      .emitted rfl rfl fun _ _ => rfl
    unfold State.interrupt
    dsimp only
    split
    · exact (hmarked.covers hexcused).kept hmarked.prompts
    · exact (hmarked.covers hexcused).endLoop hmarked.prompts
  | quiet | tick | questionAnswered | closed => exact hexcused.kept rfl

/-! ## The clock in the books -/

/-- Time stands still, the last update is at most refreshed, and no question was answered. -/
structure Timed (before after : State) : Prop where
  now : after.now = before.now
  lastUpdateAt : after.lastUpdateAt = before.lastUpdateAt ∨ after.lastUpdateAt = before.now
  openQuestions : before.openQuestions ≤ after.openQuestions

theorem SameBooks.timed {before after : State} (hsame : SameBooks before after) :
    Timed before after where
  now := congrArg (·.2.2.1) hsame.books
  lastUpdateAt := .inl (congrArg (·.2.2.2.1) hsame.books)
  openQuestions := (congrArg (·.2.2.2.2) hsame.books).ge

namespace Timed

variable {config : Config} {before state : State}

theorem refl (state : State) : Timed state state := ⟨rfl, .inl rfl, Nat.le_refl _⟩

theorem trans {first second third : State} (hfirst : Timed first second)
    (hsecond : Timed second third) : Timed first third where
  now := hsecond.now.trans hfirst.now
  lastUpdateAt := by
    rcases hsecond.lastUpdateAt with hkept | hread
    · rw [hkept]
      exact hfirst.lastUpdateAt
    · exact .inr (hread.trans hfirst.now)
  openQuestions := hfirst.openQuestions.trans hsecond.openQuestions

theorem rebase {other after : State} (htimed : Timed before after)
    (hbooks : before.books = other.books) : Timed other after :=
  (SameBooks.timed ⟨hbooks, fun _ => rfl⟩ : Timed other { before with log := other.log }).trans
    ⟨htimed.now, htimed.lastUpdateAt, htimed.openQuestions⟩

theorem promote (state : State) (steer : Steer) : Timed state (state.promote steer) :=
  ⟨rfl, .inr rfl, Nat.le_refl _⟩

theorem next (config : Config) (state : State) : Timed state (state.next config) := by
  unfold State.next
  split
  · next steer rest _ => exact (promote { state with queuedSteers := rest } steer).rebase rfl
  · split
    · exact .refl state
    · exact (state.endLoop_books config).timed

theorem drain (state : State) (drained : List Incoming) : Timed state (state.drain drained) := by
  induction drained generalizing state with
  | nil => exact .refl state
  | cons message rest ih =>
    refine Timed.trans ?_ (ih _)
    dsimp only
    split
    · exact ⟨rfl, .inl rfl, Nat.le_succ _⟩
    · exact ⟨rfl, .inl rfl, Nat.le_refl _⟩

theorem trackAll (state : State) (events : List AgentUpdate) :
    (state.trackAll events).now = state.now ∧
      (state.trackAll events).lastUpdateAt = state.lastUpdateAt ∧
      (state.trackAll events).openQuestions = state.openQuestions := by
  induction events generalizing state with
  | nil => exact ⟨rfl, rfl, rfl⟩
  | cons update rest ih =>
    have hfirst : (state.trackTurnSignals update.event).now = state.now ∧
        (state.trackTurnSignals update.event).lastUpdateAt = state.lastUpdateAt ∧
        (state.trackTurnSignals update.event).openQuestions = state.openQuestions := by
      unfold State.trackTurnSignals
      split
      · split <;> exact ⟨rfl, rfl, rfl⟩
      · exact ⟨rfl, rfl, rfl⟩
      · exact ⟨rfl, rfl, rfl⟩
      · exact ⟨rfl, rfl, rfl⟩
    obtain ⟨hnow, hlast, hopen⟩ := ih (state.trackTurnSignals update.event)
    exact ⟨hnow.trans hfirst.1, hlast.trans hfirst.2.1, hopen.trans hfirst.2.2⟩

/-- A notification refreshes the last update, and a request may open a question. -/
theorem receive (config : Config) (state : State) (message : Incoming) :
    Timed state (state.receive config message) ∧
      (message.isUpdate = true → (state.receive config message).lastUpdateAt = state.now) := by
  cases message with
  | request events asks =>
    refine ⟨?_, fun hupdate => nomatch hupdate⟩
    cases asks
    · exact ⟨rfl, .inl rfl, Nat.le_refl _⟩
    · exact ⟨rfl, .inl rfl, Nat.le_succ _⟩
  | turnEnded ours =>
    refine ⟨?_, fun hupdate => nomatch hupdate⟩
    unfold State.receive
    dsimp only
    split <;> exact ⟨rfl, .inr rfl, Nat.le_refl _⟩
  | update events turnEndCost =>
    unfold State.receive
    dsimp only
    split
    all_goals
      obtain ⟨hnow, hlast, hopen⟩ := trackAll _ events
      exact ⟨⟨hnow, .inr hlast, hopen.ge⟩, fun _ => hlast⟩
  | notification events =>
    obtain ⟨hnow, hlast, hopen⟩ := trackAll { state with lastUpdateAt := state.now } events
    exact ⟨⟨hnow, .inr hlast, hopen.ge⟩, fun _ => hlast⟩

theorem resolveCall (state : State) (steer : Steer) (answer : Except String SteeringAnswer)
    (drained : List Incoming) : Timed state (state.resolveCall steer answer drained) := by
  unfold State.resolveCall
  split
  · exact .refl state
  · split
    · unfold State.injectCall
      split
      · refine Timed.trans ?_ (State.boundary_books _ steer).timed
        refine Timed.trans ?_ (drain _ drained)
        exact ⟨rfl, .inl rfl, Nat.le_refl _⟩
      · exact ⟨rfl, .inl rfl, Nat.le_refl _⟩
    · unfold State.redeliver
      split
      · exact ⟨rfl, .inl rfl, Nat.le_refl _⟩
      · exact promote state steer

theorem receiveSteer (config : Config) (state : State) (prompt : String) :
    Timed state (state.receiveSteer config prompt) := by
  unfold State.receiveSteer
  dsimp only
  split
  · exact ⟨rfl, .inl rfl, Nat.le_refl _⟩
  · split
    · exact ⟨rfl, .inl rfl, Nat.le_refl _⟩
    · split
      · exact (promote { state with received := state.received + 1 } _).rebase rfl
      · unfold State.steerTurn
        split
        · split <;> exact ⟨rfl, .inl rfl, Nat.le_refl _⟩
        · exact ⟨rfl, .inl rfl, Nat.le_refl _⟩

end Timed

theorem timed_of_running (config : Config) {state next : State} {action : Action}
    (htick : ∀ elapsed, action ≠ .tick elapsed) (hanswered : action ≠ .questionAnswered)
    (hstep : running config state action = some next) : Timed state next := by
  cases arm_of_running hstep with
  | @settle number _ response answer drained =>
    unfold State.settle
    dsimp only
    have hsettled := (State.settleSteering_books
      ({ state with turn := none, starveDeadline := none } : State) answer).timed
    generalize State.settleSteering _ answer = settled at hsettled ⊢
    have htaken : Timed state settled := hsettled.rebase rfl
    have hclosed := (htaken.trans (Timed.drain settled drained)).trans
      (State.closeTurn_books config _ number response).timed
    unfold State.afterTurn
    split
    · exact hclosed.trans (State.endLoop_books config _).timed
    · exact hclosed.trans (Timed.next config _)
  | incoming message => exact (Timed.receive config state message).1
  | eof response =>
    unfold State.eof
    dsimp only
    split
    · exact ((State.closeTurn_books config _ _ _).trans (State.endLoop_books config _)).timed.rebase rfl
    · exact (State.endLoop_books config _).timed.rebase rfl
  | @answer steer _ answer drained =>
    have hresolved := Timed.resolveCall { state with steeringCall := none } steer answer drained
    exact (hresolved.trans (State.resumeBacklog_books _ _).timed).rebase rfl
  | flush =>
    split
    · exact (Timed.next config _).rebase rfl
    · exact ⟨rfl, .inl rfl, Nat.le_refl _⟩
  | starve => exact (Timed.next config _).rebase rfl
  | steer prompt => exact Timed.receiveSteer config state prompt
  | closeMailbox =>
    unfold State.closeMailbox
    dsimp only
    split
    · exact (State.endLoop_books config _).timed.rebase rfl
    · exact ⟨rfl, .inl rfl, Nat.le_refl _⟩
  | interrupt =>
    unfold State.interrupt
    dsimp only
    split
    · exact ⟨rfl, .inl rfl, Nat.le_refl _⟩
    · exact (State.endLoop_books config _).timed.rebase rfl
  | tick elapsed => exact absurd rfl (htick elapsed)
  | questionAnswered => exact absurd rfl hanswered
  | quiet | closed => exact ⟨rfl, .inl rfl, Nat.le_refl _⟩

/-! ## Whole runs -/

section Runs

variable (config : Config) {state next : State} {action : Action}

theorem covers_of_step {excused : String → Prop} (hcovers : Covers excused state)
    (hagent : action.FromAgent) (hstep : step config state action = some next) :
    Covers (fun id => next.prompts = state.prompts ∧
      (excused id ∨ DrainsCall state action id)) next := by
  have hexcused : Covers (fun id => excused id ∨ DrainsCall state action id) state :=
    hcovers.mono fun _ => .inl
  cases hstage : state.stage with
  | running =>
    rw [step_of_running config hstage] at hstep
    exact covers_of_running config hcovers hagent hstep
  | ended =>
    rw [step_of_ended config hstage] at hstep
    cases hstep
  | setup =>
    simp only [step, hstage] at hstep
    cases action with
    | ready commands =>
      cases hstep
      intro id hopen
      cases hopen
    | tick | setupFails | interrupt | closed =>
      cases hstep
      exact hexcused.kept rfl
    | _ => cases hstep

/-- What a step does to the clock and the questions. -/
structure Passes (state next : State) (action : Action) : Prop where
  now : state.now ≤ next.now
  lastUpdateAt : next.lastUpdateAt = state.lastUpdateAt ∨ next.lastUpdateAt = state.now
  openQuestions : action = .questionAnswered ∨ state.openQuestions ≤ next.openQuestions

theorem Timed.passes (htimed : Timed state next) : Passes state next action :=
  ⟨htimed.now.ge, htimed.lastUpdateAt, .inr htimed.openQuestions⟩

theorem passes_of_step (hstep : step config state action = some next) : Passes state next action := by
  cases hstage : state.stage with
  | running =>
    rw [step_of_running config hstage] at hstep
    by_cases htick : ∃ elapsed, action = .tick elapsed
    · obtain ⟨elapsed, rfl⟩ := htick
      cases hstep
      exact ⟨Nat.le_add_right _ _, .inl rfl, .inr (Nat.le_refl _)⟩
    · by_cases hanswered : action = .questionAnswered
      · subst hanswered
        cases hstep
        exact ⟨Nat.le_refl _, .inl rfl, .inl rfl⟩
      · exact (timed_of_running config (fun elapsed heq => htick ⟨elapsed, heq⟩) hanswered
          hstep).passes
  | ended =>
    rw [step_of_ended config hstage] at hstep
    cases hstep
  | setup =>
    simp only [step, hstage] at hstep
    cases action with
    | tick elapsed =>
      cases hstep
      exact ⟨Nat.le_add_right _ _, .inl rfl, .inr (Nat.le_refl _)⟩
    | ready commands =>
      cases hstep
      have hannounced : (state.announce config commands).books = state.books := by
        unfold State.announce
        dsimp only
        split <;> rfl
      exact ⟨(congrArg (·.2.2.1) hannounced).ge, .inr rfl,
        .inr (congrArg (·.2.2.2.2) hannounced).ge⟩
    | setupFails | interrupt | closed =>
      cases hstep
      exact ⟨Nat.le_refl _, .inl rfl, .inr (Nat.le_refl _)⟩
    | _ => cases hstep

theorem covers_of_run {trace : List Action} (hagent : ∀ action ∈ trace, action.FromAgent)
    (hrun : Trace.run (step config) {} trace = some state) :
    Covers (fun id => ∃ past action later before, trace = past ++ action :: later ∧
      Trace.run (step config) {} past = some before ∧ before.prompts = state.prompts ∧
        DrainsCall before action id) state := by
  induction trace using List.reverseRecOn generalizing state with
  | nil =>
    cases hrun
    exact fun id hopen => nomatch hopen
  | append_singleton past action ih =>
    obtain ⟨before, hpast, hstep⟩ := Trace.run_concat_eq_some.1 hrun
    have hcovers := covers_of_step config (ih (fun other hother =>
      hagent other (mem_append_left _ hother)) hpast)
      (hagent action (mem_append_right _ mem_cons_self)) hstep
    refine hcovers.mono fun id ⟨hprompts, hdrained⟩ => ?_
    rcases hdrained with ⟨earlier, other, later, middle, rfl, hearlier, hsame, hcall⟩ | hcall
    · exact ⟨earlier, other, later ++ [action], middle, by simp, hearlier,
        hsame.trans hprompts.symm, hcall⟩
    · exact ⟨past, action, [], before, rfl, hpast, hprompts.symm, hcall⟩

theorem lastUpdateAt_ge_of_run {later : List Action} {final : State} {time : Nat}
    (hlast : time ≤ state.lastUpdateAt) (hnow : time ≤ state.now)
    (hlater : Trace.run (step config) state later = some final) : time ≤ final.lastUpdateAt := by
  have hkept := @Trace.run_invariant State Action (step config)
    (fun state => time ≤ state.lastUpdateAt ∧ time ≤ state.now)
    (fun state action next hread hstep => by
      have hpasses := passes_of_step config hstep
      refine ⟨?_, hread.2.trans hpasses.now⟩
      rcases hpasses.lastUpdateAt with hsame | hrefreshed
      · exact hsame ▸ hread.1
      · exact hrefreshed ▸ hread.2) _ _ _ ⟨hlast, hnow⟩ hlater
  exact hkept.1

variable {trace : List Action} {quiet : Nat}

theorem openQuestions_le_of_run (hbooked : Booked config trace state quiet)
    {past later : List Action} {before : State} (htrace : trace = past ++ later)
    (hpast : Trace.run (step config) {} past = some before)
    (hlater : Trace.run (step config) before later = some state)
    (hwindow : state.now < before.now + quiet) : before.openQuestions ≤ state.openQuestions := by
  induction later generalizing past before with
  | nil =>
    cases hlater
    exact Nat.le_refl _
  | cons action rest ih =>
    obtain ⟨next, hstep, hrest⟩ := Trace.run_cons_eq_some.1 hlater
    have hpasses := passes_of_step config hstep
    have hextended : trace = (past ++ [action]) ++ rest := by
      rw [htrace, append_assoc]
      rfl
    have hnext := ih hextended (Trace.run_concat_eq_some.2 ⟨before, hpast, hstep⟩) hrest
      (hwindow.trans_le (Nat.add_le_add_right hpasses.now _))
    rcases hpasses.openQuestions with rfl | hopen
    · rw [hbooked.questions past rest before htrace hpast hwindow]
      exact Nat.zero_le _
    · exact hopen.trans hnext

/-- The quiet settle closes no live turn exactly when the books are complete: each tool that was
called in a drained message has its result, and in the window no update was drained and no question
answered. -/
theorem settlesQuietly_iff_booked (hagent : ∀ action ∈ trace, action.FromAgent)
    (hrun : Trace.run (step config) {} trace = some state) (hquiet : config.quietSettle = some quiet)
    (hfires : step config state .quiet = some next) :
    SettlesQuietly config trace state quiet ↔ Booked config trace state quiet := by
  constructor
  · intro ⟨htools, hwindow⟩
    refine ⟨fun _ _ _ _ _ _ _ id _ => htools id, fun past action later before htrace hpast hin => ?_,
      fun past later before htrace hpast hin => (hwindow past _ later before htrace hpast hin).2⟩
    have hhandles := (hwindow past action later before htrace hpast hin).1
    cases action with
    | incoming message => rfl
    | _ => exact hhandles
  · intro hbooked
    have hstage : state.stage = .running := by
      cases hstage : state.stage with
      | running => rfl
      | ended | setup => simp [step, hstage] at hfires
    rw [step_of_running config hstage] at hfires
    simp only [running, hquiet, Option.any_some, decide_eq_true_eq] at hfires
    split at hfires
    · next hguard =>
        obtain ⟨hsilent, -, -, -, -, htools, hquestions⟩ := hguard
        refine ⟨fun id => ?_, fun past action later before htrace hpast hin => ?_⟩
        · by_contra hopen
          have hopen : openTool id state.log = true := by simpa using hopen
          rcases covers_of_run config hagent hrun id hopen with
            hmem | ⟨past, action, later, before, htrace, hpast, hprompts, hcall⟩
          · rw [isEmpty_iff.mp htools] at hmem
            exact not_mem_nil hmem
          · rw [hbooked.tools past action later before htrace hpast hprompts id hcall] at hopen
            cases hopen
        · rw [htrace] at hrun
          obtain ⟨middle, hmiddle, hlater⟩ := Trace.run_append_eq_some.1 hrun
          obtain rfl := Option.mem_unique hpast hmiddle
          refine ⟨?_, ?_⟩
          · have hupdates := hbooked.updates past action later before htrace hpast hin
            cases action with
            | incoming message =>
              by_contra hupdate
              have hupdate : message.isUpdate = true := by simpa [handles] using hupdate
              obtain ⟨read, hstep, hrest⟩ := Trace.run_cons_eq_some.1 hlater
              have hread : read.lastUpdateAt = before.now := by
                cases hphase : before.stage with
                | running =>
                  rw [step_of_running config hphase] at hstep
                  cases hstep
                  exact (Timed.receive config before message).2 hupdate
                | ended | setup => simp [step, hphase] at hstep
              have hlast := lastUpdateAt_ge_of_run config hread.ge
                (passes_of_step config hstep).now hrest
              omega
            | _ => exact hupdates
          · have hle := openQuestions_le_of_run config hbooked htrace hpast hlater hin
            omega
    · cases hfires

end Runs

def shortWindow : Config :=
  ⟨.codex, "gpt", "/work", "s1", "hello", id, false, some 2, "crashed"⟩

theorem settlesQuietly_iff_booked_after_text :
    ∃ state next, Trace.run (step shortWindow) {}
        [.ready [], .incoming (.update [⟨.textDelta "hi", trivial⟩] false), .tick 2] = some state ∧
      step shortWindow state .quiet = some next ∧
      (SettlesQuietly shortWindow
          [.ready [], .incoming (.update [⟨.textDelta "hi", trivial⟩] false), .tick 2] state 2 ↔
        Booked shortWindow
          [.ready [], .incoming (.update [⟨.textDelta "hi", trivial⟩] false), .tick 2] state
          2) := by
  refine ⟨_, _, rfl, rfl, ?_⟩
  refine settlesQuietly_iff_booked _ (fun action hmem => ?_) rfl rfl rfl
  simp only [mem_cons, not_mem_nil, or_false] at hmem
  obtain rfl | rfl | rfl := hmem <;> trivial

/-- A question is answered after the window has elapsed, and the next wake of the loop settles the
turn. -/
theorem settles_on_answer :
    ¬ ∀ (config : Config) (trace : List Action) (state next : State) (quiet : Nat),
      (∀ action ∈ trace, action.FromAgent) → Trace.run (step config) {} trace = some state →
      config.quietSettle = some quiet → step config state .quiet = some next →
        SettlesQuietly config trace state quiet := by
  intro hall
  obtain ⟨state, next, before, hrun, hfires, hpast, hwindow, hopen⟩ :
      ∃ state next before,
        Trace.run (step shortWindow) {}
          [.ready [], .incoming (.update [⟨.textDelta "hi", trivial⟩] false),
            .incoming (.request [] true), .tick 1, .tick 1, .questionAnswered,
            .steer (some "go on")] = some state ∧
        step shortWindow state .quiet =
          some next ∧
        Trace.run (step shortWindow) {}
          [.ready [], .incoming (.update [⟨.textDelta "hi", trivial⟩] false),
            .incoming (.request [] true), .tick 1] = some before ∧
        state.now < before.now + 2 ∧ before.openQuestions = 1 :=
    ⟨_, _, _, rfl, rfl, rfl, by decide, rfl⟩
  have hsettles := hall _ _ state next 2 (fun action hmem => ?_) hrun rfl hfires
  · have hclosed := (hsettles.2 [.ready [], .incoming (.update [⟨.textDelta "hi", trivial⟩] false),
      .incoming (.request [] true), .tick 1] (.tick 1) [.questionAnswered, .steer (some "go on")]
      before rfl hpast hwindow).2
    rw [hopen] at hclosed
    cases hclosed
  · simp only [mem_cons, not_mem_nil, or_false] at hmem
    obtain rfl | rfl | rfl | rfl | rfl | rfl | rfl := hmem
    · trivial
    · trivial
    · exact .inl rfl
    all_goals trivial

end Keel.Acp
