import Keel.Harness.AcpTurns

/-! # The order of the steers

A steer waits in the boundary queue, as the steering call, or in the backlog behind it. The
consumer retires its own ledger of steers by position, so the boundaries must come in the
order of the mailbox. They do as long as no call is answered as injected ahead of a steer
that was put off, or after its turn was settled without it, and no steer joins the queue
ahead of a call that outlived its turn.
-/

namespace Keel.Acp

open List Option

namespace Output

def steered? : Output → Option Nat
  | .steered steer .. => some steer
  | _ => none

/-- The steer that an agent took, into a turn or as a prompt. -/
def accepted? : Output → Option Nat
  | .injected steer => some steer
  | .prompt _ steer _ => steer
  | _ => none

end Output

/-- The steers with a boundary, the oldest first. -/
def steered (log : List Output) : List Nat := (log.filterMap Output.steered?).reverse

/-- The steers an agent took, the oldest first. -/
def accepted (log : List Output) : List Nat := (log.filterMap Output.accepted?).reverse

@[simp] theorem steered_cons (output : Output) (log : List Output) :
    steered (output :: log) = steered log ++ output.steered?.toList := by
  unfold steered
  rw [filterMap_cons]
  cases output.steered? with
  | none => exact (append_nil _).symm
  | some steer => exact reverse_cons

@[simp] theorem accepted_cons (output : Output) (log : List Output) :
    accepted (output :: log) = accepted log ++ output.accepted?.toList := by
  unfold accepted
  rw [filterMap_cons]
  cases output.accepted? with
  | none => exact (append_nil _).symm
  | some steer => exact reverse_cons

/-- The steers that were taken are those with a boundary, in the order of the mailbox. -/
def Delivered (state : State) : Prop :=
  ∃ count ≤ state.received, steered state.log = List.range count ∧
    accepted state.log = List.range count

namespace State

def waiting (state : State) : List Steer :=
  state.queuedSteers ++ state.steeringCall.toList ++ state.steerBacklog

def mailbox (state : State) :
    List Steer × Option Steer × List Steer × Nat × Option Nat × Option Nat × Bool :=
  (state.queuedSteers, state.steeringCall, state.steerBacklog, state.received,
    state.cancelFlushDeadline, state.turn, state.interrupted)

end State

/-- No answer takes a steer ahead of one that was put off or after its turn, and no steer joins the
queue ahead of a call that outlived its turn. -/
def Unraced (state : State) : Action → Prop
  | .answer answer _ =>
    outcomeOf answer ≠ "promptRequired" → state.turn.isSome ∧ state.queuedSteers = []
  | .settle _ answer _ =>
    state.steeringCall.isSome → settledOutcome answer ≠ "promptRequired" → state.queuedSteers = []
  | .steer (some _) => state.turn = none → state.steeringCall = none
  | _ => True

/-! ## Outputs that concern no steer -/

/-- The steers wait where they were, and no boundary or acceptance was sent. -/
structure Apart (before after : State) : Prop where
  mailbox : after.mailbox = before.mailbox
  steered : steered after.log = steered before.log
  accepted : accepted after.log = accepted before.log

namespace Apart

variable {before after : State}

theorem refl (state : State) : Apart state state := ⟨rfl, rfl, rfl⟩

theorem trans {first second third : State} (hfirst : Apart first second)
    (hsecond : Apart second third) : Apart first third :=
  ⟨hsecond.mailbox.trans hfirst.mailbox, hsecond.steered.trans hfirst.steered,
    hsecond.accepted.trans hfirst.accepted⟩

theorem same (hmailbox : after.mailbox = before.mailbox) (hlog : after.log = before.log) :
    Apart before after :=
  ⟨hmailbox, congrArg _ hlog, congrArg _ hlog⟩

theorem emitted {output : Output} (hmailbox : after.mailbox = before.mailbox)
    (hlog : after.log = output :: before.log) (hsteered : output.steered? = none)
    (haccepted : output.accepted? = none) : Apart before after := by
  refine ⟨hmailbox, ?_, ?_⟩
  · rw [hlog, steered_cons, hsteered, toList_none, append_nil]
  · rw [hlog, accepted_cons, haccepted, toList_none, append_nil]

variable (hapart : Apart before after)
include hapart

theorem queuedSteers : after.queuedSteers = before.queuedSteers :=
  congrArg (·.1) hapart.mailbox

theorem steeringCall : after.steeringCall = before.steeringCall :=
  congrArg (·.2.1) hapart.mailbox

theorem steerBacklog : after.steerBacklog = before.steerBacklog :=
  congrArg (·.2.2.1) hapart.mailbox

theorem received : after.received = before.received :=
  congrArg (·.2.2.2.1) hapart.mailbox

theorem cancelFlushDeadline : after.cancelFlushDeadline = before.cancelFlushDeadline :=
  congrArg (·.2.2.2.2.1) hapart.mailbox

theorem turn : after.turn = before.turn :=
  congrArg (·.2.2.2.2.2.1) hapart.mailbox

theorem interrupted : after.interrupted = before.interrupted :=
  congrArg (·.2.2.2.2.2.2) hapart.mailbox

theorem waiting : after.waiting = before.waiting := by
  rw [State.waiting, hapart.queuedSteers, hapart.steeringCall, hapart.steerBacklog]
  rfl

end Apart

namespace State

theorem sendAll_apart (state : State) (events : List AgentUpdate) :
    Apart state (state.sendAll events) := by
  have hnone : ∀ read : Output → Option Nat, (∀ event, read (.sent event) = none) →
      (state.sendAll events).log.filterMap read = state.log.filterMap read := by
    intro read hread
    rw [sendAll, filterMap_append, filterMap_reverse, filterMap_map,
      filterMap_eq_nil_iff.mpr fun update _ => hread update.event]
    rfl
  exact ⟨rfl, congrArg List.reverse (hnone Output.steered? fun _ => rfl),
    congrArg List.reverse (hnone Output.accepted? fun _ => rfl)⟩

theorem trackTurnSignals_apart (state : State) (event : AgentEvent) :
    Apart state (state.trackTurnSignals event) := by
  unfold trackTurnSignals
  split
  · split
    · exact .refl state
    · exact .same rfl rfl
  · exact .same rfl rfl
  · exact .same rfl rfl
  · exact .refl state

theorem trackAll_apart (state : State) (events : List AgentUpdate) :
    Apart state (state.trackAll events) := by
  induction events generalizing state with
  | nil => exact .refl state
  | cons update rest ih => exact (state.trackTurnSignals_apart update.event).trans (ih _)

theorem drain_apart (state : State) (drained : List Incoming) :
    Apart state (state.drain drained) := by
  induction drained generalizing state with
  | nil => exact .refl state
  | cons message rest ih =>
    refine Apart.trans ?_ (ih _)
    refine Apart.trans ?_ (sendAll_apart _ _)
    split
    · exact .same rfl rfl
    · exact .refl state

variable (config : Config) (state : State)
include config state

theorem closeTurn_apart (number : Nat) (response : Except String PromptResponse) :
    Apart state (state.closeTurn config number response) := by
  have hcompleted : Apart state state.completeMessage := .emitted rfl rfl rfl rfl
  have hreported : Apart state.completeMessage (state.completeMessage.reportUsage response) := by
    unfold reportUsage
    split
    · exact .emitted rfl rfl rfl rfl
    · exact .refl _
  refine (hcompleted.trans hreported).trans ?_
  exact .emitted rfl rfl rfl rfl

theorem endLoop_apart : Apart state (state.endLoop config) := by
  unfold endLoop
  split
  · exact .emitted rfl rfl rfl rfl
  · split
    · exact .emitted rfl rfl rfl rfl
    · exact .same rfl rfl

theorem receive_apart (message : Incoming) : Apart state (state.receive config message) := by
  have hread : Apart state { state with lastUpdateAt := state.now } := .same rfl rfl
  cases message with
  | update events turnEndCost =>
    unfold receive
    refine Apart.trans ?_ ((trackAll_apart _ events).trans (sendAll_apart _ events))
    split
    · exact .same rfl rfl
    · exact hread
  | turnEnded ours =>
    unfold receive
    dsimp only
    split
    · exact hread.trans (.emitted rfl rfl rfl rfl)
    · exact hread
  | notification events =>
    exact hread.trans ((trackAll_apart _ events).trans (sendAll_apart _ events))
  | request events asks =>
    refine Apart.trans ?_ (sendAll_apart _ events)
    split
    · exact .same rfl rfl
    · exact .refl state

end State

/-! ## The steers that wait -/

/-- The first `count` steers have their boundary; the others wait in order. -/
structure Ledger (count : Nat) (state : State) : Prop where
  steered : steered state.log = List.range count
  accepted : accepted state.log = List.range count
  received : count ≤ state.received
  waiting : state.waiting.map Steer.number = List.range' count (state.received - count)

namespace Ledger

variable {count : Nat} {before after : State}

theorem apart (hledger : Ledger count before) (hapart : Apart before after) :
    Ledger count after where
  steered := hapart.steered.trans hledger.steered
  accepted := hapart.accepted.trans hledger.accepted
  received := hapart.received ▸ hledger.received
  waiting := by rw [hapart.waiting, hapart.received, hledger.waiting]

theorem moved (hledger : Ledger count before) (hwaiting : after.waiting = before.waiting)
    (hreceived : after.received = before.received) (hsteered : Keel.Acp.steered after.log =
      Keel.Acp.steered before.log) (haccepted : Keel.Acp.accepted after.log =
      Keel.Acp.accepted before.log) : Ledger count after where
  steered := hsteered.trans hledger.steered
  accepted := haccepted.trans hledger.accepted
  received := hreceived ▸ hledger.received
  waiting := by rw [hwaiting, hreceived, hledger.waiting]

theorem receive (hledger : Ledger count before) {steer : Steer}
    (hsteer : steer.number = before.received) (hwaiting : after.waiting = before.waiting ++ [steer])
    (hreceived : after.received = before.received + 1)
    (hsteered : Keel.Acp.steered after.log = Keel.Acp.steered before.log)
    (haccepted : Keel.Acp.accepted after.log = Keel.Acp.accepted before.log) :
    Ledger count after where
  steered := hsteered.trans hledger.steered
  accepted := haccepted.trans hledger.accepted
  received := by
    rw [hreceived]
    exact Nat.le_succ_of_le hledger.received
  waiting := by
    have hcount := hledger.received
    rw [hwaiting, hreceived, map_append, hledger.waiting, map_singleton, hsteer,
      Nat.succ_sub hcount, range'_1_concat, Nat.add_sub_cancel' hcount]

theorem deliver (hledger : Ledger count before) (steer : Steer)
    (hwaiting : before.waiting = steer :: after.waiting)
    (hreceived : after.received = before.received)
    (hsteered : Keel.Acp.steered after.log = Keel.Acp.steered before.log ++ [steer.number])
    (haccepted : Keel.Acp.accepted after.log = Keel.Acp.accepted before.log ++ [steer.number]) :
    Ledger (count + 1) after := by
  have hnumbers := hledger.waiting
  rw [hwaiting, map_cons] at hnumbers
  obtain ⟨missing, hmissing⟩ : ∃ missing, before.received - count = missing + 1 := by
    cases hlength : before.received - count with
    | zero => rw [hlength] at hnumbers; cases hnumbers
    | succ missing => exact ⟨missing, rfl⟩
  rw [hmissing, range'_succ, List.cons.injEq] at hnumbers
  refine ⟨?_, ?_, by omega, ?_⟩
  · rw [hsteered, hledger.steered, hnumbers.1, range_succ]
  · rw [haccepted, hledger.accepted, hnumbers.1, range_succ]
  · rw [hnumbers.2, hreceived]
    congr 1
    omega

theorem delivered (hledger : Ledger count before) : Delivered before :=
  ⟨count, hledger.received, hledger.steered, hledger.accepted⟩

end Ledger

/-- What holds of the steers that wait, whatever the turn. -/
structure Waits (config : Config) (state : State) : Prop where
  ledger : ∃ count, Ledger count state
  uninterrupted : state.interrupted = false
  backlog : state.steeringCall = none → state.steerBacklog = []
  extension : config.steerExt = false → state.steeringCall = none

/-- Between turns a steer is put off for a flush only, and behind no steering call. -/
structure Ordered (config : Config) (state : State) : Prop extends Waits config state where
  between : state.turn = none → state.cancelFlushDeadline = none ∨ state.steeringCall ≠ none →
    state.queuedSteers = []

/-- What every step keeps. -/
structure Orderly (config : Config) (state : State) : Prop where
  delivered : Delivered state
  ordered : state.stage ≠ .ended → Ordered config state

theorem Waits.delivered {config : Config} {state : State} (hwaits : Waits config state) :
    Delivered state :=
  have ⟨_, hledger⟩ := hwaits.ledger
  hledger.delivered

theorem Waits.apart {config : Config} {before after : State} (hwaits : Waits config before)
    (hapart : Apart before after) : Waits config after where
  ledger := hwaits.ledger.imp fun _ hledger => hledger.apart hapart
  uninterrupted := hapart.interrupted.trans hwaits.uninterrupted
  backlog hcall := hapart.steerBacklog.trans (hwaits.backlog (hapart.steeringCall.symm.trans hcall))
  extension hext := hapart.steeringCall.trans (hwaits.extension hext)

theorem Ordered.orderly {config : Config} {state : State} (hordered : Ordered config state) :
    Orderly config state :=
  ⟨hordered.delivered, fun _ => hordered⟩

theorem Ordered.apart {config : Config} {before after : State} (hordered : Ordered config before)
    (hapart : Apart before after) : Ordered config after where
  toWaits := hordered.toWaits.apart hapart
  between hturn hput := by
    rw [hapart.queuedSteers]
    rw [hapart.turn] at hturn
    rw [hapart.cancelFlushDeadline, hapart.steeringCall] at hput
    exact hordered.between hturn hput

theorem Waits.endLoop {config : Config} {state : State} (hwaits : Waits config state) :
    Orderly config (state.endLoop config) where
  delivered := (hwaits.apart (State.endLoop_apart config state)).delivered
  ordered hstage := by
    refine absurd ?_ hstage
    unfold State.endLoop
    split
    · rfl
    · split <;> rfl

namespace State

variable (state : State) (steer : Steer)

theorem promote_steered :
    steered (state.promote steer).log = steered state.log ++ [steer.number] := by
  simp [promote, startTurn, boundary, Output.steered?]

theorem promote_accepted :
    accepted (state.promote steer).log = accepted state.log ++ [steer.number] := by
  simp [promote, startTurn, boundary, Output.accepted?]

theorem injected_steered :
    steered ((state.emit (.injected steer.number)).boundary steer).log =
      steered state.log ++ [steer.number] := by
  simp [emit, boundary, Output.steered?]

theorem injected_accepted :
    accepted ((state.emit (.injected steer.number)).boundary steer).log =
      accepted state.log ++ [steer.number] := by
  simp [emit, boundary, Output.accepted?]

end State

/-! ## The arms of the loop -/

attribute [local simp] State.waiting State.emit

namespace Waits

variable {config : Config} {state : State}

variable (hwaits : Waits config state)
include hwaits

theorem promote {steer : Steer} {rest : List Steer} (hqueue : state.queuedSteers = steer :: rest) :
    Ordered config ({ state with queuedSteers := rest }.promote steer) where
  ledger := by
    obtain ⟨count, hledger⟩ := hwaits.ledger
    refine ⟨count + 1, hledger.deliver steer ?_ rfl (State.promote_steered _ _) (State.promote_accepted _ _)⟩
    rw [State.waiting, hqueue]
    rfl
  uninterrupted := hwaits.uninterrupted
  backlog := hwaits.backlog
  extension := hwaits.extension
  between hturn := nomatch hturn

/-- Between turns the first of the queue is promoted; an empty queue waits or ends. -/
theorem next : Orderly config (state.next config) := by
  unfold State.next
  split
  · next steer rest hqueue => exact (hwaits.promote hqueue).orderly
  · next hqueue =>
      split
      · exact Ordered.orderly ⟨hwaits, fun _ _ => hqueue⟩
      · exact hwaits.endLoop

theorem settleCall {steer : Steer} (hcall : state.steeringCall = some steer)
    {answer : Option (Except String SteeringAnswer)}
    (hunraced : settledOutcome answer ≠ "promptRequired" → state.queuedSteers = []) :
    Waits config (state.settleCall steer answer) := by
  obtain ⟨count, hledger⟩ := hwaits.ledger
  have huninterrupted : ¬ ({ state with steeringCall := none } : State).interrupted = true := by
    rw [hwaits.uninterrupted]
    exact Bool.false_ne_true
  unfold State.settleCall State.decideCall
  rw [if_neg huninterrupted]
  split
  · next hinjected =>
      refine ⟨⟨count + 1, hledger.deliver steer ?_ rfl (State.injected_steered _ steer)
        (State.injected_accepted _ steer)⟩, hwaits.uninterrupted, fun _ => rfl, fun _ => rfl⟩
      simp [hcall, hunraced hinjected, State.boundary]
  · refine ⟨⟨count, hledger.moved ?_ rfl rfl rfl⟩, hwaits.uninterrupted, fun _ => rfl, fun _ => rfl⟩
    simp [hcall]

theorem settleSteering {answer : Option (Except String SteeringAnswer)}
    (hunraced : state.steeringCall.isSome → settledOutcome answer ≠ "promptRequired" →
      state.queuedSteers = []) : Waits config (state.settleSteering answer) := by
  unfold State.settleSteering
  split
  · next steer hcall => exact hwaits.settleCall hcall (hunraced (by rw [hcall]; rfl))
  · exact hwaits

theorem afterTurn (response : Except String PromptResponse) :
    Orderly config (state.afterTurn config response) := by
  unfold State.afterTurn
  split
  · exact hwaits.endLoop
  · exact hwaits.next

end Waits

namespace Ordered

variable {config : Config} {state : State}

theorem taken (hordered : Ordered config state) :
    Waits config { state with turn := none, starveDeadline := none } :=
  ⟨hordered.ledger.imp fun _ hledger => hledger.moved rfl rfl rfl rfl, hordered.uninterrupted,
    hordered.backlog, hordered.extension⟩

theorem settle (hordered : Ordered config state) {number : Nat}
    {response : Except String PromptResponse} {answer : Option (Except String SteeringAnswer)}
    {drained : List Incoming} (hunraced : Unraced state (.settle response answer drained)) :
    Orderly config (state.settle config number response answer drained) := by
  have hsettled := hordered.taken.settleSteering hunraced
  have hdrained := hsettled.apart (State.drain_apart _ drained)
  exact (hdrained.apart (State.closeTurn_apart config _ number response)).afterTurn response

theorem starve (hordered : Ordered config state) (number : Nat) :
    Orderly config (state.starve config number) := by
  refine Waits.next (hordered.taken.apart ?_)
  have hcompleted : Apart { state with turn := none, starveDeadline := none }
      { state with turn := none, starveDeadline := none }.completeMessage :=
    .emitted rfl rfl rfl rfl
  exact hcompleted.trans (.emitted rfl rfl rfl rfl)

section
variable (hordered : Ordered config state)
include hordered

theorem eof (response : Option (Except String PromptResponse)) :
    Orderly config (state.eof config response) := by
  have htaken : Waits config { state with turn := none } :=
    ⟨hordered.ledger.imp fun _ hledger => hledger.moved rfl rfl rfl rfl, hordered.uninterrupted,
      hordered.backlog, hordered.extension⟩
  unfold State.eof
  split
  · exact (htaken.apart (State.closeTurn_apart config _ _ _)).endLoop
  · exact htaken.endLoop

theorem flush : Orderly config (if state.turn.isNone then
      { state with cancelFlushDeadline := none }.next config
      else { state with cancelFlushDeadline := none }) := by
  have hflushed : Waits config { state with cancelFlushDeadline := none } :=
    ⟨hordered.ledger.imp fun _ hledger => hledger.moved rfl rfl rfl rfl, hordered.uninterrupted,
      hordered.backlog, hordered.extension⟩
  split
  · exact hflushed.next
  · next hsome =>
      refine Ordered.orderly ⟨hflushed, fun hnone _ => absurd ?_ hsome⟩
      exact isNone_iff_eq_none.mpr hnone

theorem enqueue (text : String) (hcall : state.steeringCall = none) {after : State}
    (hqueue : after.queuedSteers = state.queuedSteers ++ [⟨state.received, text⟩])
    (hmailbox : (after.steeringCall, after.steerBacklog, after.received, after.interrupted) =
      (state.steeringCall, state.steerBacklog, state.received + 1, state.interrupted))
    (hsteered : Keel.Acp.steered after.log = Keel.Acp.steered state.log)
    (haccepted : Keel.Acp.accepted after.log = Keel.Acp.accepted state.log)
    (hput : after.turn = none → after.cancelFlushDeadline ≠ none) : Ordered config after := by
  obtain ⟨count, hledger⟩ := hordered.ledger
  simp only [Prod.mk.injEq] at hmailbox
  obtain ⟨hafterCall, hbacklog, hreceived, hinterrupted⟩ := hmailbox
  have hnumber : (⟨state.received, text⟩ : Steer).number = state.received := rfl
  refine ⟨⟨⟨count, hledger.receive hnumber ?_ hreceived hsteered haccepted⟩,
    hinterrupted.trans hordered.uninterrupted, fun _ => ?_, fun _ => ?_⟩, ?_⟩
  · simp [hqueue, hafterCall, hbacklog, hcall, hordered.backlog hcall]
  · rw [hbacklog, hordered.backlog hcall]
  · rw [hafterCall, hcall]
  · intro hturn hdeadline
    cases hdeadline with
    | inl hnone => exact absurd hnone (hput hturn)
    | inr hsome => exact absurd (hafterCall.trans hcall) hsome

theorem promoteReceived (text : String) (hcall : state.steeringCall = none)
    (hqueue : state.queuedSteers = []) :
    Ordered config ({ state with received := state.received + 1 }.promote
      ⟨state.received, text⟩) := by
  obtain ⟨count, hledger⟩ := hordered.ledger
  have hnumber : (⟨state.received, text⟩ : Steer).number = state.received := rfl
  have hwaits : Waits config { state with
      received := state.received + 1
      queuedSteers := [⟨state.received, text⟩] } := by
    refine ⟨⟨count, hledger.receive hnumber ?_ rfl rfl rfl⟩, hordered.uninterrupted,
      hordered.backlog, hordered.extension⟩
    simp [hqueue, hcall, hordered.backlog hcall]
  have hpromoted := hwaits.promote rfl
  rw [← hqueue] at hpromoted
  exact hpromoted

theorem steerTurn (text : String) (hturn : state.turn ≠ none) :
    Ordered config ({ state with received := state.received + 1 }.steerTurn config
      ⟨state.received, text⟩) := by
  obtain ⟨count, hledger⟩ := hordered.ledger
  have hnumber : (⟨state.received, text⟩ : Steer).number = state.received := rfl
  unfold State.steerTurn
  split
  · next hext =>
      have hextension : ∀ after : State, config.steerExt = false → after.steeringCall = none := by
        intro after hnone
        rw [hext] at hnone
        cases hnone
      split
      · next hsome =>
          refine ⟨⟨⟨count, hledger.receive hnumber ?_ rfl rfl rfl⟩, hordered.uninterrupted, ?_,
            hextension _⟩, fun hnone _ => absurd hnone hturn⟩
          · simp
          · exact fun hnone => absurd hnone (isSome_iff_ne_none.mp hsome)
      · next hnone =>
          have hcall : state.steeringCall = none := not_isSome_iff_eq_none.mp hnone
          have hcalled : Apart state (state.emit (.call state.received text)) :=
            .emitted rfl rfl rfl rfl
          refine ⟨⟨⟨count, hledger.receive hnumber ?_ rfl hcalled.steered hcalled.accepted⟩,
            hordered.uninterrupted, fun hnone => ?_, hextension _⟩, fun hnone _ => absurd hnone hturn⟩
          · simp [State.startCall, hcall, hordered.backlog hcall]
          · cases hnone
  · next hext =>
      have hcall := hordered.extension (Bool.not_eq_true _ ▸ hext)
      exact hordered.enqueue _ hcall rfl rfl rfl rfl fun hnone => absurd hnone hturn

theorem receiveSteer {prompt : String} (hunraced : Unraced state (.steer (some prompt))) :
    Ordered config (state.receiveSteer config prompt) := by
  unfold State.receiveSteer
  dsimp only
  split
  · next hflushing =>
      have hturn : state.turn = none := isNone_iff_eq_none.mp hflushing.1
      have hdeadline := isSome_iff_ne_none.mp hflushing.2
      exact hordered.enqueue _ (hunraced hturn) rfl rfl rfl rfl fun _ => hdeadline
  · next hflushing =>
      split
      · next hbusy =>
          have hturn : state.turn = none := isNone_iff_eq_none.mp hbusy.1
          have hcancelled : Apart state (state.emit .cancel) := .emitted rfl rfl rfl rfl
          exact hordered.enqueue _ (hunraced hturn) rfl rfl hcancelled.steered hcancelled.accepted
            fun _ => nofun
      · split
        · next hidle =>
            have hturn : state.turn = none := isNone_iff_eq_none.mp hidle
            have hdeadline : state.cancelFlushDeadline = none := by
              rw [← not_isSome_iff_eq_none]
              exact fun hsome => hflushing ⟨hidle, hsome⟩
            exact hordered.promoteReceived _ (hunraced hturn) (hordered.between hturn (.inl hdeadline))
        · next hlive =>
            exact hordered.steerTurn _ fun hturn => hlive (isNone_iff_eq_none.mpr hturn)

theorem closeMailbox : Orderly config (state.closeMailbox config) := by
  have hread : Ordered config { state with steeringOpen := false } :=
    hordered.apart (.same rfl rfl)
  unfold State.closeMailbox
  dsimp only
  split
  · exact hread.toWaits.endLoop
  · exact hread.orderly

end

/-- The answer of the call says where its steer goes; the first of its followers is called next. -/
theorem resumeBacklog (hledger : ∃ count, Ledger count state)
    (huninterrupted : state.interrupted = false)
    (hturn : state.turn.isSome) (hcall : state.steeringCall = none) (hext : config.steerExt = true) :
    Ordered config (state.resumeBacklog state.steerBacklog) := by
  obtain ⟨count, hledger⟩ := hledger
  have hextension : ∀ after : State, config.steerExt = false → after.steeringCall = none := by
    intro after hnone
    rw [hext] at hnone
    cases hnone
  have hlive := isSome_iff_ne_none.mp hturn
  cases hbacklog : state.steerBacklog with
  | nil =>
    refine ⟨⟨⟨count, hledger.moved ?_ rfl rfl rfl⟩, huninterrupted, fun _ => rfl, hextension _⟩,
      fun hnone _ => absurd hnone hlive⟩
    simp [State.resumeBacklog, hbacklog]
  | cons steer rest =>
    have hcalled : Apart state (state.emit (.call steer.number steer.text)) :=
      .emitted rfl rfl rfl rfl
    rw [State.resumeBacklog, if_pos ⟨hturn, by simp [huninterrupted]⟩]
    refine ⟨⟨⟨count, hledger.moved ?_ rfl hcalled.steered hcalled.accepted⟩, huninterrupted,
      fun hnone => ?_, hextension _⟩, fun hnone _ => absurd hnone hlive⟩
    · simp [State.startCall, hcall, hbacklog]
    · cases hnone

theorem injectCall (hordered : Ordered config state) {steer : Steer}
    (hcall : state.steeringCall = some steer) (hturn : state.turn.isSome)
    (hqueue : state.queuedSteers = []) (drained : List Incoming) :
    ∃ count, Ledger count ({ state with steeringCall := none }.injectCall steer drained) := by
  obtain ⟨count, hledger⟩ := hordered.ledger
  unfold State.injectCall
  rw [if_pos hturn]
  have hdrained := State.drain_apart { { state with steeringCall :=
    none }.emit (.injected steer.number)
    with steeredThisTurn := true, starveDeadline := none } drained
  refine ⟨count + 1, hledger.deliver steer ?_ hdrained.received ?_ ?_⟩
  · change state.waiting = steer :: State.waiting (State.drain _ drained)
    rw [hdrained.waiting]
    simp [hcall, hqueue]
  · rw [State.boundary, steered_cons, hdrained.steered]
    simp [Output.steered?]
  · rw [State.boundary, accepted_cons, hdrained.accepted]
    simp [Output.accepted?]

theorem answered (hordered : Ordered config state) {steer : Steer}
    (hcall : state.steeringCall = some steer) {answer : Except String SteeringAnswer}
    {drained : List Incoming} (hunraced : Unraced state (.answer answer drained)) :
    Ordered config (state.answered steer answer drained) := by
  have hext : config.steerExt = true := by
    cases hext : config.steerExt with
    | true => rfl
    | false => exact nomatch hcall.symm.trans (hordered.extension hext)
  have huninterrupted : ¬ ({ state with steeringCall := none } : State).interrupted = true := by
    rw [hordered.uninterrupted]
    exact Bool.false_ne_true
  obtain ⟨count, hledger⟩ := hordered.ledger
  unfold State.answered State.resolveCall
  rw [if_neg huninterrupted]
  split
  · next hinjected =>
      obtain ⟨hturn, hqueue⟩ := hunraced hinjected
      have hbeside := State.injectCall_beside { state with steeringCall := none } steer drained
      refine resumeBacklog (hordered.injectCall hcall hturn hqueue drained)
        (hbeside.interrupted.trans hordered.uninterrupted) (by rw [hbeside.turn]; exact hturn) ?_ hext
      unfold State.injectCall
      rw [if_pos hturn]
      exact (State.drain_apart _ drained).steeringCall
  · unfold State.redeliver
    split
    · next hturn =>
        refine resumeBacklog ⟨count,
          hledger.moved ?_ rfl rfl rfl⟩ hordered.uninterrupted hturn rfl hext
        simp [hcall]
    · next hnone =>
        -- the call outlived its turn, so nothing is put off
        have hturn : state.turn = none := not_isSome_iff_eq_none.mp hnone
        have hqueue := hordered.between hturn (.inr (by simp [hcall]))
        refine resumeBacklog ⟨count + 1, hledger.deliver steer ?_ rfl (State.promote_steered _ _)
          (State.promote_accepted _ _)⟩ hordered.uninterrupted rfl rfl hext
        simp [State.promote, State.startTurn, State.boundary, hcall, hqueue]

end Ordered

/-! ## Whole runs -/

theorem State.announce_apart (config : Config) (state : State) (commands : List SlashCommand) :
    Apart state (state.announce config commands) := by
  unfold State.announce
  dsimp only
  split
  · exact .emitted rfl rfl rfl rfl
  · have hstarted : Apart state (state.emit (.sent (.sessionStarted config.harness config.model []
        config.cwd config.sessionId (toString state.assistantMessageId)))) :=
      .emitted rfl rfl rfl rfl
    exact hstarted.trans (.emitted rfl rfl rfl rfl)

theorem State.begin_ordered {config : Config} {state : State} (hordered : Ordered config state)
    (commands : List SlashCommand) : Ordered config (state.begin config commands) := by
  have hwaits := hordered.toWaits.apart (state.announce_apart config commands)
  have hprompt : Apart (state.announce config commands) ((state.announce config commands).emit
      (.prompt 0 none (config.promptTransform config.prompt))) := .emitted rfl rfl rfl rfl
  refine ⟨⟨?_, hwaits.uninterrupted, hwaits.backlog, hwaits.extension⟩, fun hturn => nomatch hturn⟩
  exact hwaits.ledger.imp fun _ hledger => hledger.moved rfl rfl hprompt.steered hprompt.accepted

theorem orderly_of_running (config : Config) {state next : State} {action : Action}
    (hordered : Ordered config state) (huninterrupted : action ≠ .interrupt)
    (hunraced : Unraced state action) (hstep : running config state action = some next) :
    Orderly config next := by
  cases arm_of_running hstep with
  | settle => exact hordered.settle hunraced
  | incoming message => exact (hordered.apart (State.receive_apart config state message)).orderly
  | eof response => exact hordered.eof response
  | answer hcall => exact (hordered.answered hcall hunraced).orderly
  | flush => exact hordered.flush
  | @starve number => exact hordered.starve number
  | steer => exact (hordered.receiveSteer hunraced).orderly
  | closeMailbox => exact hordered.closeMailbox
  | interrupt => exact absurd rfl huninterrupted
  | quiet | tick | questionAnswered => exact Ordered.orderly (hordered.apart (.same rfl rfl))
  | closed => exact ⟨hordered.delivered, fun hstage => absurd rfl hstage⟩

theorem orderly_of_step (config : Config) {state next : State} {action : Action}
    (horderly : Orderly config state) (huninterrupted : action ≠ .interrupt)
    (hunraced : Unraced state action) (hstep : step config state action = some next) :
    Orderly config next := by
  cases hstage : state.stage with
  | running =>
    rw [step_of_running config hstage] at hstep
    have hordered := horderly.ordered (by rw [hstage]; exact nofun)
    exact orderly_of_running config hordered huninterrupted hunraced hstep
  | ended =>
    rw [step_of_ended config hstage] at hstep
    cases hstep
  | setup =>
    have hordered := horderly.ordered (by rw [hstage]; exact nofun)
    simp only [step, hstage] at hstep
    cases action with
    | tick elapsed =>
      cases hstep
      exact Ordered.orderly (hordered.apart (.same rfl rfl))
    | ready commands =>
      cases hstep
      exact (State.begin_ordered hordered commands).orderly
    | setupFails error =>
      cases hstep
      have hfailed : Apart state (state.emit (.done none .errored (some error) none)) :=
        .emitted rfl rfl rfl rfl
      exact ⟨(hordered.toWaits.apart hfailed).delivered, fun hstage => absurd rfl hstage⟩
    | interrupt => exact absurd rfl huninterrupted
    | closed =>
      cases hstep
      exact ⟨hordered.delivered, fun hstage => absurd rfl hstage⟩
    | _ => cases hstep

theorem State.initial_ordered (config : Config) : Ordered config {} where
  ledger := ⟨0, rfl, rfl, Nat.le_refl 0, rfl⟩
  uninterrupted := rfl
  backlog _ := rfl
  extension _ := rfl
  between _ _ := rfl

/-- In every run without an interrupt and without such a race, the steers that were taken are
those with a boundary, in the order of the mailbox. -/
theorem delivered_of_unraced (config : Config) {actions : List Action} {state : State}
    (huninterrupted : ∀ action ∈ actions, action ≠ .interrupt)
    (hunraced : Trace.Guarded (step config) Unraced {} actions)
    (hrun : Trace.run (step config) {} actions = some state) : Delivered state := by
  have huninterrupted : Trace.Guarded (step config) (fun _ action => action ≠ .interrupt) {} actions :=
    .of_forall_mem fun action hmem _ => huninterrupted action hmem
  have horderly : Orderly config state :=
    Trace.guarded_invariant (fun _ _ _ horderly hguard hstep =>
      orderly_of_step config horderly hguard.1 hguard.2 hstep)
      (State.initial_ordered config).orderly (huninterrupted.and hunraced) hrun
  exact horderly.delivered

/-- One steer is injected into the first turn, and the next is redelivered at its end. -/
theorem delivered_of_unraced_injected :
    ∃ state, Trace.run (step ⟨.codex, "gpt", "/work", "s1", "hello", id, true, none, "crashed"⟩) {}
        [.ready [], .steer (some "first"), .steer (some "second"),
          .answer (.ok ⟨some "injected", none⟩) [],
          .settle (.ok ⟨some "end_turn", none⟩) (some (.error "closed")) []] = some state ∧
      Delivered state := by
  obtain ⟨state, hrun⟩ : ∃ state, Trace.run
      (step ⟨.codex, "gpt", "/work", "s1", "hello", id, true, none, "crashed"⟩) {}
      [.ready [], .steer (some "first"), .steer (some "second"),
        .answer (.ok ⟨some "injected", none⟩) [],
        .settle (.ok ⟨some "end_turn", none⟩) (some (.error "closed")) []] = some state := ⟨_, rfl⟩
  refine ⟨state, hrun, delivered_of_unraced _ (fun action hmem => ?_) ?_ hrun⟩
  · simp only [mem_cons, not_mem_nil, or_false] at hmem
    obtain rfl | rfl | rfl | rfl | rfl := hmem <;> exact nofun
  · refine (Trace.guarded_cons_of_step rfl).mpr ⟨trivial, ?_⟩
    refine (Trace.guarded_cons_of_step rfl).mpr ⟨fun hturn => (nomatch hturn), ?_⟩
    refine (Trace.guarded_cons_of_step rfl).mpr ⟨fun hturn => (nomatch hturn), ?_⟩
    refine (Trace.guarded_cons_of_step rfl).mpr ⟨fun _ => ⟨rfl, rfl⟩, ?_⟩
    exact (Trace.guarded_cons_of_step rfl).mpr ⟨fun _ houtcome => absurd rfl houtcome, trivial⟩

/-- The second steer's call is started while the first, which was rejected, waits for the end of
the turn; its boundary comes first. -/
theorem second_steer_overtakes :
    ¬ ∀ (config : Config) (actions : List Action) (state : State),
      (∀ action ∈ actions, action ≠ .interrupt) →
      Trace.run (step config) {} actions = some state → Delivered state := by
  intro hall
  obtain ⟨state, hrun, hsteered⟩ : ∃ state, Trace.run
      (step ⟨.codex, "gpt", "/work", "s1", "hello", id, true, none, "crashed"⟩) {}
      [.ready [], .steer (some "first"), .steer (some "second"),
        .answer (.ok ⟨some "promptRequired", none⟩) [], .answer (.ok ⟨some "injected", none⟩) [],
        .settle (.ok ⟨some "end_turn", none⟩) none []] = some state ∧
      steered state.log = [1, 0] := ⟨_, rfl, rfl⟩
  obtain ⟨count, -, hcount, -⟩ := hall _ _ state (fun action hmem => by
    simp only [mem_cons, not_mem_nil, or_false] at hmem
    obtain rfl | rfl | rfl | rfl | rfl | rfl := hmem <;> exact nofun) hrun
  rw [hsteered] at hcount
  have hlength := congrArg List.length hcount
  rw [length_range] at hlength
  subst hlength
  exact absurd hcount (by decide)

end Keel.Acp
