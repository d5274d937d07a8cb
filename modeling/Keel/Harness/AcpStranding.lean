import Keel.Harness.AcpSteers

/-! # The steers of a resting session

A session with no prompt, no steering call and no flush pending starts nothing of its own, so no
steer may wait in it. A call outlives its turn when the loop settles the turn for the agent. If it
is then answered as injected, the steers behind it are put off to a boundary that is not ahead.
-/

namespace Keel.Acp

open List

/-- No prompt, no steering call, no flush and no end is ahead. -/
def State.Resting (state : State) : Prop :=
  state.stage = .running ∧ state.turn = none ∧ state.steeringCall = none ∧
    state.cancelFlushDeadline = none ∧ state.interrupted = false

/-- No steer waits in a resting session. -/
def Unstranded (state : State) : Prop :=
  state.Resting → state.queuedSteers = [] ∧ state.steerBacklog = []

/-- No call that outlived its turn is answered as injected ahead of followers, unless a flush is
pending. -/
def Followed (state : State) : Action → Prop
  | .answer answer _ =>
    state.stage = .running → state.steeringCall.isSome → state.turn = none →
      state.cancelFlushDeadline = none → state.interrupted = false →
      outcomeOf answer ≠ "promptRequired" → state.steerBacklog = []
  | _ => True

/-- The backlog waits behind a call, and the queue for a turn or a flush. -/
structure Held (state : State) : Prop where
  backlog : state.steeringCall = none → state.steerBacklog = []
  queue : state.turn = none → state.cancelFlushDeadline = none → state.interrupted = false →
    state.queuedSteers = []

/-- A session that is not over holds its steers. -/
def Holds (state : State) : Prop := state.stage ≠ .ended → Held state

theorem unstranded_of_holds {state : State} (hholds : Holds state) : Unstranded state := by
  intro ⟨hstage, hturn, hcall, hflush, huninterrupted⟩
  have hheld := hholds (by rw [hstage]; simp)
  exact ⟨hheld.queue hturn hflush huninterrupted, hheld.backlog hcall⟩

namespace Held

variable {config : Config} {before after state : State}

theorem apart (hheld : Held before) (hapart : Apart before after) : Held after where
  backlog hcall := by
    rw [hapart.steerBacklog]
    exact hheld.backlog (hapart.steeringCall ▸ hcall)
  queue hturn hflush huninterrupted := by
    rw [hapart.queuedSteers]
    exact hheld.queue (hapart.turn ▸ hturn) (hapart.cancelFlushDeadline ▸ hflush)
      (hapart.interrupted ▸ huninterrupted)

theorem of_turn (hturn : state.turn.isSome)
    (hbacklog : state.steeringCall = none → state.steerBacklog = []) : Held state where
  backlog := hbacklog
  queue hnone := by
    rw [hnone] at hturn
    cases hturn

theorem holds (hheld : Held state) : Holds state := fun _ => hheld

end Held

theorem Holds.of_ended {state : State} (hstage : state.stage = .ended) : Holds state :=
  fun hrunning => absurd hstage hrunning

namespace State

variable (config : Config) (state : State)

theorem endLoop_stage : (state.endLoop config).stage = .ended := by
  unfold endLoop
  split
  · rfl
  · split <;> rfl

theorem promote_held (steer : Steer) (hbacklog : state.steeringCall = none → state.steerBacklog = []) :
    Held (state.promote steer) :=
  .of_turn rfl hbacklog

/-- A queued steer is promoted, so only an empty queue is left without a turn. -/
theorem next_holds (hbacklog : state.steeringCall = none → state.steerBacklog = []) :
    Holds (state.next config) := by
  unfold next
  split
  · next steer rest _ =>
      exact (promote_held { state with queuedSteers := rest } steer hbacklog).holds
  · next hqueue =>
      split
      · exact Held.holds ⟨hbacklog, fun _ _ _ => hqueue⟩
      · exact .of_ended (endLoop_stage config state)

theorem settleSteering_backlog (answer : Option (Except String SteeringAnswer))
    (hbacklog : state.steeringCall = none → state.steerBacklog = []) :
    (state.settleSteering answer).steerBacklog = [] := by
  unfold settleSteering
  split
  · rfl
  · next hcall => exact hbacklog hcall

theorem settle_holds (number : Nat) (response : Except String PromptResponse)
    (answer : Option (Except String SteeringAnswer)) (drained : List Incoming)
    (hheld : Held state) : Holds (state.settle config number response answer drained) := by
  unfold settle
  have hbacklog := settleSteering_backlog { state with turn := none, starveDeadline := none } answer
    hheld.backlog
  have hclosed (taken : State) :
    Apart taken ((taken.drain drained).closeTurn config number response) :=
    (drain_apart taken drained).trans (closeTurn_apart config _ number response)
  unfold afterTurn
  dsimp only
  split
  · exact .of_ended (endLoop_stage config _)
  · exact next_holds config _ fun _ => (hclosed _).steerBacklog.trans hbacklog

theorem starve_holds (number : Nat) (hheld : Held state) : Holds (state.starve config number) :=
  next_holds config _ hheld.backlog

theorem resumeBacklog_backlog (backlog : List Steer) :
    (state.resumeBacklog backlog).steeringCall = none →
      (state.resumeBacklog backlog).steerBacklog = [] := by
  induction backlog generalizing state with
  | nil => exact fun _ => rfl
  | cons steer rest ih =>
    rw [resumeBacklog]
    split
    · intro hcall
      cases hcall
    · exact ih _

theorem resumeBacklog_turn (backlog : List Steer) :
    (state.resumeBacklog backlog).turn = state.turn :=
  congrArg (·.2.2.1) (resumeBacklog_beside state backlog).flags

theorem resolveCall_turn (steer : Steer) (answer : Except String SteeringAnswer)
    (drained : List Incoming) (hturn : state.turn.isSome) :
    (state.resolveCall steer answer drained).turn.isSome := by
  unfold resolveCall
  split
  · exact hturn
  · split
    · have hkept : (state.injectCall steer drained).turn = state.turn :=
        congrArg (·.2.2.1) (injectCall_beside state steer drained).flags
      rw [hkept]
      exact hturn
    · rw [redeliver, if_pos hturn]
      exact hturn

theorem resumeBacklog_eq_of_turn_none (backlog : List Steer) (hturn : state.turn = none) :
    state.resumeBacklog backlog =
      { state with queuedSteers := state.queuedSteers ++ backlog, steerBacklog := [] } := by
  induction backlog generalizing state with
  | nil => rw [resumeBacklog, append_nil]
  | cons steer rest ih =>
    have hrest := ih { state with queuedSteers := state.queuedSteers ++ [steer] } hturn
    rw [resumeBacklog, if_neg (by simp [hturn]), hrest]
    simp only [append_assoc, singleton_append]

end State

namespace Held

variable {config : Config} {state : State}

theorem receiveSteer (hheld : Held state) (prompt : String) :
    Held (state.receiveSteer config prompt) := by
  unfold State.receiveSteer
  dsimp only
  split
  · next hflush =>
      refine ⟨hheld.backlog, fun _ hnone => ?_⟩
      rw [hnone] at hflush
      exact nomatch hflush.2
  · split
    · exact ⟨hheld.backlog, fun _ hnone => nomatch hnone⟩
    · split
      · exact State.promote_held _ _ hheld.backlog
      · next hturn =>
          have hturn : state.turn.isSome := Option.isSome_iff_ne_none.mpr fun hnone =>
            hturn (by rw [hnone]; rfl)
          unfold State.steerTurn
          split
          · split
            · next hcall =>
                exact of_turn hturn fun hnone => absurd hcall (by rw [hnone]; exact Bool.false_ne_true)
            · exact of_turn hturn fun hnone => nomatch hnone
          · exact of_turn hturn hheld.backlog

theorem answered (hheld : Held state) {steer : Steer} (hcall : state.steeringCall = some steer)
    {answer : Except String SteeringAnswer} {drained : List Incoming} (hstage : state.stage = .running)
    (hfollowed : Followed state (.answer answer drained)) :
    Held (state.answered steer answer drained) := by
  cases hturn : state.turn with
  | some number =>
    refine .of_turn ?_ (State.resumeBacklog_backlog _ _)
    unfold State.answered
    rw [State.resumeBacklog_turn]
    exact State.resolveCall_turn { state with steeringCall := none } steer answer drained
      (by simp [hturn])
  | none =>
    unfold State.answered State.resolveCall
    dsimp only
    split
    · next hinterrupted =>
        rw [State.resumeBacklog_eq_of_turn_none _ _ (by exact hturn)]
        exact ⟨fun _ => rfl, fun _ _ huninterrupted =>
          absurd hinterrupted (by simpa using huninterrupted)⟩
    · split
      · next hinjected =>
          have hlost : ({ state with steeringCall := none } : State).injectCall steer drained =
              ({ state with steeringCall := none } : State).emit (.injected steer.number) :=
            if_neg (by simp [hturn])
          rw [hlost, State.resumeBacklog_eq_of_turn_none _ _ (by exact hturn)]
          refine ⟨fun _ => rfl, fun _ hflush huninterrupted => ?_⟩
          have hbacklog := hfollowed hstage (by rw [hcall]; rfl) hturn hflush huninterrupted hinjected
          have hqueue := hheld.queue hturn hflush huninterrupted
          simp [State.emit, hbacklog, hqueue]
      · have hpromoted : ({ state with steeringCall := none } : State).redeliver steer
            (saysNoRunningTurn answer) = ({ state with steeringCall := none } : State).promote steer :=
          if_neg (by simp [hturn])
        rw [hpromoted]
        exact .of_turn (by rw [State.resumeBacklog_turn]; rfl) (State.resumeBacklog_backlog _ _)

end Held

theorem stranded_of_answered {state : State} {steer : Steer} {answer : Except String SteeringAnswer}
    {drained : List Incoming} (hstage : state.stage = .running)
    (hfollowed : ¬ Followed state (.answer answer drained)) :
    ¬ Unstranded (state.answered steer answer drained) := by
  simp only [Followed, Classical.not_imp] at hfollowed
  obtain ⟨-, -, hturn, hflush, huninterrupted, hinjected, hbacklog⟩ := hfollowed
  have hresolved : ({ state with steeringCall := none } : State).resolveCall steer answer drained =
      { state with steeringCall := none, log := .injected steer.number :: state.log } := by
    unfold State.resolveCall State.injectCall
    rw [if_neg (by simp [huninterrupted]), if_pos hinjected, if_neg (by simp [hturn])]
    rfl
  have hanswered : state.answered steer answer drained =
      { state with
        steeringCall := none
        log := .injected steer.number :: state.log
        queuedSteers := state.queuedSteers ++ state.steerBacklog
        steerBacklog := [] } := by
    simp only [State.answered, hresolved]
    rw [State.resumeBacklog_eq_of_turn_none _ _ (by exact hturn)]
  rw [hanswered]
  intro hunstranded
  obtain ⟨hqueue, -⟩ := hunstranded ⟨hstage, hturn, rfl, hflush, huninterrupted⟩
  exact hbacklog (append_eq_nil_iff.mp hqueue).2

/-! ## Whole runs -/

theorem holds_of_running (config : Config) {state next : State} {action : Action}
    (hstage : state.stage = .running) (hheld : Held state) (hfollowed : Followed state action)
    (hstep : running config state action = some next) : Holds next := by
  cases arm_of_running hstep with
  | @settle number _ response answer drained =>
    exact State.settle_holds config state number response answer drained hheld
  | incoming message => exact (hheld.apart (State.receive_apart config state message)).holds
  | eof response =>
    unfold State.eof
    dsimp only
    split <;> exact .of_ended (State.endLoop_stage config _)
  | answer hcall => exact (hheld.answered hcall hstage hfollowed).holds
  | flush =>
    split
    · exact State.next_holds config _ hheld.backlog
    · next hturn =>
        refine Held.holds (.of_turn ?_ hheld.backlog)
        exact Option.isSome_iff_ne_none.mpr fun hnone => hturn (by rw [hnone]; rfl)
  | @starve number => exact State.starve_holds config state number hheld
  | steer prompt => exact (hheld.receiveSteer prompt).holds
  | closeMailbox =>
    unfold State.closeMailbox
    dsimp only
    split
    · exact .of_ended (State.endLoop_stage config _)
    · exact Held.holds ⟨hheld.backlog, hheld.queue⟩
  | interrupt =>
    unfold State.interrupt
    dsimp only
    split
    · exact Held.holds ⟨hheld.backlog, fun _ _ huninterrupted => nomatch huninterrupted⟩
    · exact .of_ended (State.endLoop_stage config _)
  | quiet | tick | questionAnswered => exact Held.holds (hheld.apart (.same rfl rfl))
  | closed => exact .of_ended rfl

theorem holds_of_step (config : Config) {state next : State} {action : Action}
    (hholds : Holds state) (hfollowed : Followed state action)
    (hstep : step config state action = some next) : Holds next := by
  cases hstage : state.stage with
  | running =>
    rw [step_of_running config hstage] at hstep
    exact holds_of_running config hstage (hholds (by simp [hstage])) hfollowed hstep
  | ended =>
    rw [step_of_ended config hstage] at hstep
    cases hstep
  | setup =>
    have hheld := hholds (by simp [hstage])
    simp only [step, hstage] at hstep
    cases action with
    | tick elapsed =>
      cases hstep
      exact Held.holds (hheld.apart (.same rfl rfl))
    | ready commands =>
      cases hstep
      have hannounced := state.announce_apart config commands
      exact Held.holds (.of_turn rfl fun hcall =>
        hannounced.steerBacklog.trans (hheld.backlog (hannounced.steeringCall ▸ hcall)))
    | setupFails error | interrupt | closed =>
      cases hstep
      exact .of_ended rfl
    | _ => cases hstep

/-- No steer is stranded in a resting session exactly in the runs that answer no call as injected,
after its turn and with no flush pending, while steers wait behind it. -/
theorem unstranded_iff_followed (config : Config) (actions : List Action) :
    Trace.Always (step config) Unstranded {} actions ↔
      Trace.Guarded (step config) Followed {} actions := by
  have hstart : Holds {} := fun _ => ⟨fun _ => rfl, fun _ _ _ => rfl⟩
  refine Trace.always_iff_guarded_of_broken (fun _ => unstranded_of_holds)
    (fun _ _ _ => holds_of_step config) ?_ ?_ hstart
  · intro state action next _ hfollowed hstep
    cases action with
    | answer answer drained =>
      have hstage : state.stage = .running := by
        by_contra hstage
        exact hfollowed fun hrunning => absurd hrunning hstage
      rw [step_of_running config hstage] at hstep
      obtain ⟨steer, -, rfl⟩ := Option.map_eq_some_iff.mp hstep
      exact stranded_of_answered hstage hfollowed
    | _ => exact absurd trivial hfollowed
  · intro state action _ hstep
    cases action with
    | answer answer drained =>
      intro hstage hcall
      rw [step_of_running config hstage] at hstep
      rw [Option.map_eq_none_iff.mp hstep] at hcall
      cases hcall
    | _ => trivial

/-- A turn is settled for the agent while its steering call is in flight; the call is then answered
as injected, and the steer behind it waits for a turn that nothing starts. -/
theorem follower_stranded :
    ¬ ∀ (config : Config) (actions : List Action),
      Trace.Always (step config) Unstranded {} actions := by
  intro hall
  obtain ⟨state, hrun, hresting, hqueue⟩ : ∃ state, Trace.run
      (step ⟨.codex, "gpt", "/work", "s1", "hello", id, true, none, "crashed"⟩) {}
      [.ready [], .incoming (.update [⟨.textDelta "hi", trivial⟩] false), .steer (some "first"),
        .steer (some "second"), .tick 30000, .quiet, .starve,
        .answer (.ok ⟨some "injected", none⟩) []] = some state ∧
      state.Resting ∧ state.queuedSteers ≠ [] := by
    refine ⟨_, rfl, ⟨rfl, rfl, rfl, rfl, rfl⟩, cons_ne_nil _ _⟩
  exact hqueue ((hall _ _).final hrun hresting).1

end Keel.Acp
