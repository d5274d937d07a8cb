import Keel.Engine.OpenQuestions

/-! # The questions of an active turn

The input bridge mints a request, parks its resolver and sends the request to the run; answering
takes the resolver and sends the resolution; a routed steer shows the chat as working. The run
loop takes these and the harness's own events in any order. Between them they keep three views of
the same questions: the session status, the pending resolvers and the folded parts.
-/

namespace Keel

open List

/-- What reaches the run on its engine channel. -/
inductive EngineEvent where
  | inputRequested (requestId : String) (questions : List UserInputQuestion)
  | inputResolved (requestId : String)

def EngineEvent.toAgentEvent : EngineEvent → AgentEvent
  | .inputRequested requestId questions => .inputRequested requestId questions
  | .inputResolved requestId => .inputResolved requestId

/-- What a harness sends within a turn. -/
inductive TurnEvent where
  | textDelta (text : String)
  | toolCall (id : String) (call : ToolCall)
  | toolResult (id : String) (isError : Bool) (output : Option String) (diff : Option ToolDiff)
  | steered (assistantMessageId nextAssistantMessageId : Option String)
  /-- The harness's own copy of a request. -/
  | inputRequested (requestId : String) (questions : List UserInputQuestion)

def TurnEvent.toAgentEvent : TurnEvent → AgentEvent
  | .textDelta text => .textDelta text
  | .toolCall id call => .toolCall id call
  | .toolResult id isError output diff => .toolResult id isError output diff
  | .steered assistantMessageId next => .steered assistantMessageId next
  | .inputRequested requestId questions => .inputRequested requestId questions

/-- A run in the middle of a turn, its engine channel, and how many requests were minted. -/
structure QuestionRun where
  run : DriveRun
  channel : List EngineEvent
  asked : Nat

inductive QuestionAction where
  /-- The harness asks through the bridge. -/
  | ask (questions : List UserInputQuestion)
  | respond (requestId : String)
  /-- A message is routed into the live run. -/
  | steer
  /-- The loop takes the next event of the engine channel. -/
  | engine (now : Nat)
  | harness (now : Nat) (event : TurnEvent)
  | flush (now : Nat)
  /-- Another writer appends an entry. -/
  | append (entry : EntryMap)

namespace QuestionRun

variable (setup : RunSetup) (requestId : Nat → String)

/-- Mint the request, park its resolver, and surface the event. -/
def requestInput (state : QuestionRun) (questions : List UserInputQuestion) : QuestionRun :=
  { run := { state.run with
      pendingInputs := state.run.pendingInputs.insert (requestId state.asked) }
    channel := state.channel ++ [.inputRequested (requestId state.asked) questions]
    asked := state.asked + 1 }

/-- Resolve a pending question set; the flag says whether there was one. -/
def respondInput (state : QuestionRun) (requestId : String) : QuestionRun × Bool :=
  if state.run.pendingInputs.contains requestId then
    ({ state with
       run := { state.run with
         pendingInputs := state.run.pendingInputs.filter fun id => id ≠ requestId }
       channel := state.channel ++ [.inputResolved requestId] }, true)
  else (state, false)

def receive [LineDiff] (state : QuestionRun) (now : Nat) (event : AgentEvent) : QuestionRun :=
  { state with run := state.run.receive setup now event }

def step [LineDiff] (state : QuestionRun) : QuestionAction → Option QuestionRun
  | .ask questions => some (state.requestInput requestId questions)
  | .respond requestId => some (state.respondInput requestId).1
  | .steer => some { state with run := { state.run with status := .working } }
  | .engine now =>
    match state.channel with
    | [] => none
    | event :: rest => some { state.receive setup now event.toAgentEvent with channel := rest }
  | .harness now event => some (state.receive setup now event.toAgentEvent)
  | .flush now =>
    if state.run.dirty ∧ state.run.flushAt ≤ now then
      some { state with run := state.run.flush setup }
    else none
  | .append entry =>
    some { state with run := { state.run with
      transcript.doc.messages := state.run.transcript.doc.messages ++ [entry] } }

end QuestionRun

namespace DriveRun

variable {setup : RunSetup} {run : DriveRun}

/-- The run took an event into its segment. -/
structure Absorbs (run next : DriveRun) (folded : List MessagePart) (status : SessionStatus) :
    Prop where
  folded : next.folded = folded
  status : next.status = status
  phase : next.phase = run.phase
  idleSince : next.idleSince = run.idleSince
  transcript : next.transcript = run.transcript
  ownsSlot : next.ownsSlot = run.ownsSlot

theorem markDirty_absorbs (run : DriveRun) (now : Nat) :
    Absorbs run (run.markDirty now) run.folded run.status := by
  unfold markDirty
  split <;> exact ⟨rfl, rfl, rfl, rfl, rfl, rfl⟩

/-- The events of a turn that stay within its segment. -/
def Within : AgentEvent → Prop
  | .textDelta _ | .toolCall .. | .toolResult .. | .inputRequested .. | .inputResolved _ => True
  | _ => False

theorem Absorbs.trans {middle next : DriveRun} {folded parts : List MessagePart}
    {status shown : SessionStatus} (hfirst : Absorbs run middle folded status)
    (hsecond : Absorbs middle next parts shown) : Absorbs run next parts shown :=
  ⟨hsecond.folded, hsecond.status, hsecond.phase.trans hfirst.phase,
    hsecond.idleSince.trans hfirst.idleSince, hsecond.transcript.trans hfirst.transcript,
    hsecond.ownsSlot.trans hfirst.ownsSlot⟩

variable {event : AgentEvent}

theorem noteEvent_absorbs [LineDiff] (hwithin : Within event)
    (run : DriveRun) (published : List AgentEvent) :
    Absorbs run ({ run.noteEvent event with published }.foldEvent event)
      (foldEventIntoParts run.folded event) (run.noteEvent event).status := by
  cases event <;> first | exact hwithin.elim | exact ⟨rfl, rfl, rfl, rfl, rfl, rfl⟩

theorem accept_absorbs [LineDiff] (hwithin : Within event) (run : DriveRun)
    (setup : RunSetup) (now : Nat) :
    Absorbs run (run.accept setup now event) (foldEventIntoParts run.folded event)
      (run.noteEvent event).status := by
  have hfolded := noteEvent_absorbs hwithin run (run.published ++ [event])
  have hdirty := markDirty_absorbs
    ({ run.noteEvent event with published := run.published ++ [event] }.foldEvent event) now
  rw [hfolded.folded, hfolded.status] at hdirty
  cases event <;> first | exact hwithin.elim | exact hfolded.trans hdirty

theorem noteTool_absorbs (run : DriveRun) (event : AgentEvent) :
    Absorbs run (run.noteTool event) run.folded run.status := by
  cases event with
  | toolCall id call =>
    simp only [noteTool]
    split <;> exact ⟨rfl, rfl, rfl, rfl, rfl, rfl⟩
  | _ => exact ⟨rfl, rfl, rfl, rfl, rfl, rfl⟩

/-- The run in a turn, when it has seen an event. -/
def seen (run : DriveRun) (now : Nat) (event : AgentEvent) : DriveRun :=
  { run with lastStreamActivity := now, heard := run.heard ++ run.hears now event }

theorem seen_absorbs (run : DriveRun) (now : Nat) (event : AgentEvent) :
    Absorbs run (run.seen now event) run.folded run.status :=
  ⟨rfl, rfl, rfl, rfl, rfl, rfl⟩

theorem receive_eq [LineDiff] (hidle : run.idleSince = none)
    (hevent : ∀ activity, event ≠ .decisionActivity activity) (setup : RunSetup) (now : Nat) :
    run.receive setup now event =
      if run.unknownInput event then run.seen now event
      else if event = .reasoningDelta "" ∨ run.staleEcho event = true then run.seen now event
      else ((run.seen now event).noteTool event).accept setup now event := by
  have hgate : (run.seen now event).parkedGate setup now event = (run.seen now event, true) := by
    have hseen : (run.seen now event).idleSince = none := hidle
    unfold parkedGate
    rw [hseen]
  have hunknown : (run.seen now event).unknownInput event = run.unknownInput event := by
    cases event <;> rfl
  have hstale : (run.seen now event).staleEcho event = run.staleEcho event := by
    cases event <;> rfl
  have hreceive : run.receive setup now event =
      if (run.seen now event).unknownInput event then run.seen now event
      else
        let gate := (run.seen now event).parkedGate setup now event
        if !gate.2 || event == .reasoningDelta "" || gate.1.staleEcho event then gate.1
        else (gate.1.noteTool event).accept setup now event := by
    cases event <;> first | rfl | exact absurd rfl (hevent _)
  rw [hreceive, hgate, hunknown]
  simp only [hstale, Bool.not_true, Bool.false_or, Bool.or_eq_true, beq_iff_eq]

theorem receive_within [LineDiff] (hwithin : Within event)
    (hidle : run.idleSince = none) (setup : RunSetup) (now : Nat) :
    Absorbs run (run.receive setup now event)
      (if run.unknownInput event ∨ run.staleEcho event then run.folded
        else foldEventIntoParts run.folded event)
      (if run.unknownInput event ∨ run.staleEcho event then run.status
        else (run.noteEvent event).status) := by
  have hnone : ∀ activity, event ≠ .decisionActivity activity := by
    rintro activity rfl
    exact hwithin
  have hreasoning : event ≠ .reasoningDelta "" := by
    rintro rfl
    exact hwithin
  have hseen := seen_absorbs run now event
  rw [receive_eq hidle hnone setup now]
  by_cases hunknown : run.unknownInput event = true
  · rw [if_pos hunknown, if_pos (.inl hunknown), if_pos (.inl hunknown)]
    exact hseen
  · by_cases hstale : run.staleEcho event = true
    · rw [if_neg hunknown, if_pos (.inr hstale), if_pos (.inr hstale), if_pos (.inr hstale)]
      exact hseen
    · rw [if_neg hunknown, if_neg (by simp [hreasoning, hstale]),
        if_neg (by simp [hunknown, hstale]), if_neg (by simp [hunknown, hstale])]
      have hnoted := hseen.trans (noteTool_absorbs (run.seen now event) event)
      have haccept := accept_absorbs hwithin ((run.seen now event).noteTool event) setup now
      have hstatus : (((run.seen now event).noteTool event).noteEvent event).status =
          (run.noteEvent event).status := by
        cases event with
        | toolCall id call =>
          exact hnoted.status
        | _ => rfl
      rw [hnoted.folded, hstatus] at haccept
      exact hnoted.trans haccept

attribute [local simp] unknownInput staleEcho

theorem receive_steered [LineDiff] (hidle : run.idleSince = none) (setup : RunSetup) (now : Nat)
    (assistantMessageId next : Option String) :
    (run.receive setup now (.steered assistantMessageId next)).folded = [] ∧
      (run.receive setup now (.steered assistantMessageId next)).status = .working ∧
      (run.receive setup now (.steered assistantMessageId next)).phase = run.phase ∧
      (run.receive setup now (.steered assistantMessageId next)).idleSince = none ∧
      (run.receive setup now (.steered assistantMessageId next)).ownsSlot = run.ownsSlot ∧
      (run.receive setup now (.steered assistantMessageId next)).transcript =
        run.transcript.finishSegment run.entryId setup.deviceId run.segmentStarted run.folded
          .complete := by
  have heq : run.receive setup now (.steered assistantMessageId next) =
      (run.seen now (.steered assistantMessageId next)).steerBoundary setup now
        (.steered assistantMessageId next) next := by
    have hnone : ∀ activity,
        AgentEvent.steered assistantMessageId next ≠ .decisionActivity activity := nofun
    rw [receive_eq hidle hnone]
    simp [noteTool, accept, startupCrash]
  rw [heq]
  cases next <;> exact ⟨rfl, rfl, rfl, hidle, rfl, rfl⟩

theorem turnDone_frame (run : DriveRun) (setup : RunSetup) (now : Nat) (status : DoneStatus) :
    (run.turnDone setup now status).transcript =
        run.transcript.finishSegment run.entryId setup.deviceId run.segmentStarted
          (run.folded.map MessagePart.settleInput) (messageStatus status) ∧
      (run.turnDone setup now status).pendingInputs =
        if run.ownsSlot then [] else run.pendingInputs := by
  unfold turnDone
  extract_lets resolved finished
  have hfinished : finished.transcript =
        run.transcript.finishSegment run.entryId setup.deviceId run.segmentStarted
          (run.folded.map MessagePart.settleInput) (messageStatus status) ∧
      finished.pendingInputs = if run.ownsSlot then [] else run.pendingInputs := by
    unfold finished
    split
    next hempty =>
      refine ⟨?_, rfl⟩
      rw [Transcript.finishSegment, if_pos hempty]
    · exact ⟨rfl, rfl⟩
  split
  · exact hfinished
  · cases status <;> exact hfinished

/-- The run in a turn, when it has published and folded an event. -/
def ending [LineDiff] (run : DriveRun) (now : Nat) (event : AgentEvent) : DriveRun :=
  ({ run.seen now event with published := run.published ++ [event] } : DriveRun).foldEvent event

theorem receive_done_eq [LineDiff] (hidle : run.idleSince = none) (setup : RunSetup) (now : Nat)
    (status : DoneStatus) (result error sessionId : Option String) :
    run.receive setup now (.done status result error sessionId) =
      if run.startupCrash setup (.done status result error sessionId) then
        { run.seen now (.done status result error sessionId) with phase := .exited }
      else (run.ending now (.done status result error sessionId)).turnDone setup now status := by
  have hnone : ∀ activity,
      AgentEvent.done status result error sessionId ≠ .decisionActivity activity := nofun
  rw [receive_eq hidle hnone, if_neg (by simp), if_neg (by simp)]
  rfl

/-- The status says awaiting input exactly while a question is open. -/
def Agrees (run : DriveRun) : Prop := run.status = .awaitingInput ↔ openRequests run.folded ≠ []

/-- The event leaves the status and the open questions in agreement. -/
def Alone (run : DriveRun) : AgentEvent → Prop
  | .inputResolved requestId => ∀ other ∈ openRequests run.folded, other = requestId
  | .inputRequested requestId _ => requestId ∈ run.pendingInputs →
      (∀ part ∈ run.folded, part.id ≠ "in-" ++ requestId) ∨ openRequests run.folded ≠ []
  | _ => True

theorem Agrees.congr {next : DriveRun} (hagrees : Agrees run) (hstatus : next.status = run.status)
    (hopen : openRequests next.folded = openRequests run.folded) : Agrees next := by
  rw [Agrees, hstatus, hopen]
  exact hagrees

theorem agrees_within [LineDiff] (hwithin : Within event)
    (hidle : run.idleSince = none) (hagrees : Agrees run) (setup : RunSetup) (now : Nat) :
    Agrees (run.receive setup now event) ↔ run.Alone event := by
  have htook := receive_within hwithin hidle setup now
  have hfolded := htook.folded
  have hstatus := htook.status
  cases event with
  | textDelta text =>
    refine iff_of_true (hagrees.congr (hstatus.trans (ite_self _)) ?_) trivial
    rw [hfolded, if_neg (by simp), openRequests_textDelta]
  | toolCall id call =>
    refine iff_of_true (hagrees.congr (hstatus.trans (ite_self _)) ?_) trivial
    rw [hfolded]
    split
    · rfl
    · rw [openRequests_toolCall]
  | toolResult id isError output diff =>
    refine iff_of_true (hagrees.congr (hstatus.trans (ite_self _)) ?_) trivial
    rw [hfolded]
    split
    · rfl
    · rw [openRequests_toolResult]
  | inputRequested requestId questions =>
    by_cases hknown : requestId ∈ run.pendingInputs
    · have hloop : ¬ (run.unknownInput (.inputRequested requestId questions) = true ∨
          run.staleEcho (.inputRequested requestId questions) = true) := by
        simp [hknown]
      rw [if_neg hloop] at hfolded hstatus
      rw [Agrees, hfolded, hstatus, openRequests_inputRequested, Alone]
      have hawaiting : (run.noteEvent (.inputRequested requestId questions)).status =
          .awaitingInput := rfl
      simp only [hawaiting, true_iff, hknown, forall_const]
      split
      next hany =>
        rw [any_eq_true] at hany
        obtain ⟨part, hpart, hid⟩ := hany
        exact ⟨.inr, fun halone => halone.resolve_left fun hfresh =>
          hfresh part hpart (eq_of_beq hid)⟩
      next hnone =>
        refine iff_of_true (by simp) (.inl fun part hpart hid => hnone ?_)
        exact any_eq_true.mpr ⟨part, hpart, beq_iff_eq.mpr hid⟩
    · have hloop : run.unknownInput (.inputRequested requestId questions) = true ∨
          run.staleEcho (.inputRequested requestId questions) = true := by
        simp [hknown]
      rw [if_pos hloop] at hfolded hstatus
      exact iff_of_true (hagrees.congr hstatus (by rw [hfolded])) fun hin => absurd hin hknown
  | inputResolved requestId =>
    rw [if_neg (by simp)] at hfolded hstatus
    rw [Agrees, hfolded, hstatus, openRequests_inputResolved, Alone]
    have hworking : (run.noteEvent (.inputResolved requestId)).status = .working := rfl
    simp [hworking, filter_eq_nil_iff]
  | _ => exact hwithin.elim

end DriveRun

theorem TurnEvent.within_or_steered (event : TurnEvent) :
    DriveRun.Within event.toAgentEvent ∨
      ∃ assistantMessageId next, event = .steered assistantMessageId next := by
  cases event with
  | steered assistantMessageId next => exact .inr ⟨assistantMessageId, next, rfl⟩
  | _ => exact .inl trivial

theorem EngineEvent.within (event : EngineEvent) : DriveRun.Within event.toAgentEvent := by
  cases event <;> trivial

namespace QuestionRun

variable {setup : RunSetup} {requestId : Nat → String}

/-- The status says awaiting input exactly while a question is open. -/
def Agrees (state : QuestionRun) : Prop := state.run.Agrees

/-- A question is resolved and a message routed only when no other question is open, and a request
names no part of the segment. -/
def Alone (state : QuestionRun) : QuestionAction → Prop
  | .steer => openRequests state.run.folded = []
  | .engine _ => ∀ event ∈ state.channel.head?, state.run.Alone event.toAgentEvent
  | .harness _ event => state.run.Alone event.toAgentEvent
  | _ => True

/-- No question is open at a steer boundary. -/
def Settled (state : QuestionRun) : QuestionAction → Prop
  | .harness _ (.steered ..) => openRequests state.run.folded = []
  | _ => True

/-- A turn of a run that has its slot, and room for the entries of the turn behind the first
ones. -/
structure Active (since : Nat) (state : QuestionRun) : Prop where
  phase : state.run.phase = .running
  idleSince : state.run.idleSince = none
  ownsSlot : state.run.ownsSlot = true
  kept : state.run.Kept
  room : state.run.transcript.Room since

variable {since : Nat} {state next : QuestionRun} {action : QuestionAction}

section
variable (hactive : Active since state)
include hactive

theorem Active.receive_within [LineDiff] {event : AgentEvent} (hwithin : DriveRun.Within event)
    (setup : RunSetup) (now : Nat) : Active since (state.receive setup now event) := by
  have htook := DriveRun.receive_within hwithin hactive.idleSince setup now
  refine ⟨htook.phase.trans hactive.phase, htook.idleSince.trans hactive.idleSince,
    htook.ownsSlot.trans hactive.ownsSlot,
    DriveRun.receive_kept hactive.phase hactive.kept setup now event, ?_⟩
  show (state.run.receive setup now event).transcript.Room since
  rw [htook.transcript]
  exact hactive.room

theorem agrees_step [LineDiff] (hagrees : Agrees state)
    (hstep : state.step setup requestId action = some next) : Agrees next ↔ Alone state action := by
  cases action with
  | ask questions =>
    cases hstep
    exact iff_of_true hagrees trivial
  | respond request =>
    cases hstep
    refine iff_of_true ?_ trivial
    unfold respondInput
    split <;> exact hagrees
  | steer =>
    cases hstep
    simp [Agrees, DriveRun.Agrees, Alone]
  | engine now =>
    simp only [step] at hstep
    cases hchannel : state.channel with
    | nil =>
      rw [hchannel] at hstep
      cases hstep
    | cons event rest =>
      rw [hchannel] at hstep
      cases hstep
      rw [Alone, hchannel]
      simp only [head?_cons, Option.mem_some_iff, forall_eq']
      exact DriveRun.agrees_within event.within hactive.idleSince hagrees setup now
  | harness now event =>
    cases hstep
    rcases TurnEvent.within_or_steered event with hwithin | ⟨assistantMessageId, next, rfl⟩
    · exact DriveRun.agrees_within hwithin hactive.idleSince hagrees setup now
    · obtain ⟨hfolded, hstatus, -⟩ :=
        DriveRun.receive_steered hactive.idleSince setup now assistantMessageId next
      refine iff_of_true ?_ trivial
      show (state.run.receive setup now _).status = _ ↔ openRequests _ ≠ []
      rw [TurnEvent.toAgentEvent, hstatus]
      simp [QuestionRun.receive, hfolded]
  | flush now =>
    simp only [step] at hstep
    split at hstep
    · cases hstep
      exact iff_of_true hagrees trivial
    · cases hstep
  | append entry =>
    cases hstep
    exact iff_of_true hagrees trivial

theorem Active.receive_steered [LineDiff] (setup : RunSetup) (now : Nat)
    (assistantMessageId next : Option String) :
    Active since (state.receive setup now (.steered assistantMessageId next)) := by
  obtain ⟨-, -, hphase, hidle, howns, htranscript⟩ :=
    DriveRun.receive_steered hactive.idleSince setup now assistantMessageId next
  refine ⟨hphase.trans hactive.phase, hidle, howns.trans hactive.ownsSlot,
    DriveRun.receive_kept hactive.phase hactive.kept setup now _, ?_⟩
  show (state.run.receive setup now (.steered assistantMessageId next)).transcript.Room since
  rw [htranscript]
  exact hactive.room.finishSegment _ _ _ _ _

end

theorem Active.step [LineDiff] (hactive : Active since state)
    (hstep : state.step setup requestId action = some next) : Active since next := by
  obtain ⟨hphase, hidle, howns, hkept, hroom⟩ := hactive
  cases action with
  | ask questions =>
    cases hstep
    exact ⟨hphase, hidle, howns, hkept, hroom⟩
  | respond request =>
    cases hstep
    unfold respondInput
    split <;> exact ⟨hphase, hidle, howns, hkept, hroom⟩
  | steer =>
    cases hstep
    exact ⟨hphase, hidle, howns, hkept, hroom⟩
  | engine now =>
    simp only [QuestionRun.step] at hstep
    split at hstep
    · cases hstep
    next event rest _ =>
      cases hstep
      obtain ⟨hphase, hidle, howns, hkept, hroom⟩ :=
        Active.receive_within ⟨hphase, hidle, howns, hkept, hroom⟩ event.within setup now
      exact ⟨hphase, hidle, howns, hkept, hroom⟩
  | harness now event =>
    cases hstep
    rcases TurnEvent.within_or_steered event with hwithin | ⟨assistantMessageId, next, rfl⟩
    · exact Active.receive_within ⟨hphase, hidle, howns, hkept, hroom⟩ hwithin setup now
    · exact Active.receive_steered ⟨hphase, hidle, howns, hkept, hroom⟩ setup now _ _
  | flush now =>
    simp only [QuestionRun.step] at hstep
    split at hstep
    · cases hstep
      obtain ⟨⟨pages, hrecorded⟩, hparked⟩ := hkept.open hphase
      exact ⟨hphase, hidle, howns, DriveRun.kept_of_running hphase
        ⟨pages, hrecorded.syncSegment state.run.entryId setup.deviceId state.run.segmentStarted⟩
        hparked, hroom.syncSegment _ _ _ _⟩
    · cases hstep
  | append entry =>
    cases hstep
    exact ⟨hphase, hidle, howns, DriveRun.append_kept hkept entry, hroom⟩

/-- The questions of the entries the turn has finished are resolved. -/
def Answered (since : Nat) (state : QuestionRun) : Prop := state.run.transcript.Answered since

theorem Active.recorded (hactive : Active since state) :
    ∃ pages, Recorded state.run.transcript state.run.heard state.run.seenTools pages
      state.run.folded ∧ since ≤ pages.length := by
  obtain ⟨⟨pages, hrecorded⟩, -⟩ := hactive.kept.open hactive.phase
  exact ⟨pages, hrecorded, hactive.room.le_pages hrecorded⟩

theorem answered_step [LineDiff] (hactive : Active since state)
    (hstep : state.step setup requestId action = some next) :
    Answered since next ↔ Answered since state ∧ Settled state action := by
  obtain ⟨pages, hrecorded, hsince⟩ := hactive.recorded
  have hlength : since ≤ state.run.transcript.begun.length :=
    (Nat.le_add_right _ _).trans hactive.room
  cases action with
  | ask questions =>
    cases hstep
    exact (and_iff_left trivial).symm
  | respond request =>
    cases hstep
    unfold respondInput
    split <;> exact (and_iff_left trivial).symm
  | steer =>
    cases hstep
    exact (and_iff_left trivial).symm
  | engine now =>
    simp only [step] at hstep
    split at hstep
    · cases hstep
    next event rest _ =>
      cases hstep
      have htook := DriveRun.receive_within event.within hactive.idleSince setup now
      rw [and_iff_left (show Settled state (.engine now) from trivial), Answered, Answered]
      show (state.run.receive setup now event.toAgentEvent).transcript.Answered since ↔ _
      rw [htook.transcript]
  | harness now event =>
    cases hstep
    rcases TurnEvent.within_or_steered event with hwithin | ⟨assistantMessageId, next, rfl⟩
    · have htook := DriveRun.receive_within hwithin hactive.idleSince setup now
      have hsettled : Settled state (.harness now event) := by
        cases event <;> trivial
      rw [and_iff_left hsettled, Answered, Answered]
      show (state.run.receive setup now event.toAgentEvent).transcript.Answered since ↔ _
      rw [htook.transcript]
    · obtain ⟨-, -, -, -, -, htranscript⟩ :=
        DriveRun.receive_steered hactive.idleSince setup now assistantMessageId next
      rw [Answered, Answered, Settled]
      show (state.run.receive setup now (.steered assistantMessageId next)).transcript.Answered
        since ↔ _
      rw [htranscript]
      exact Transcript.answered_finishSegment hrecorded hsince _ _ _ _
  | flush now =>
    simp only [step] at hstep
    split at hstep
    · cases hstep
      rw [and_iff_left (show Settled state (.flush now) from trivial), Answered, Answered]
      exact Transcript.answered_syncSegment hrecorded hlength _ _ _
    · cases hstep
  | append entry =>
    cases hstep
    rw [and_iff_left (show Settled state (.append entry) from trivial), Answered, Answered]
    exact Transcript.answered_append hrecorded.bounded entry

/-- The loop takes a terminal event. A run that exits leaves its slot. -/
def takeDone [LineDiff] (state : QuestionRun) (setup : RunSetup) (now : Nat) (status : DoneStatus)
    (result error sessionId : Option String) : QuestionRun :=
  let next := state.receive setup now (.done status result error sessionId)
  if next.run.phase = .exited then
    { next with run := { next.run with pendingInputs := [], ownsSlot := false } }
  else next

/-- The end of a turn drains the resolvers and finishes the segment without open questions. -/
theorem takeDone_spec [LineDiff] (hactive : Active since state) (setup : RunSetup) (now : Nat)
    (status : DoneStatus) (result error sessionId : Option String) :
    (state.takeDone setup now status result error sessionId).run.pendingInputs = [] ∧
      ((state.takeDone setup now status result error sessionId).run.transcript.Resolved since ↔
        Answered since state) := by
  obtain ⟨⟨pages, hrecorded⟩, -⟩ := hactive.kept.open hactive.phase
  have htook : (state.receive setup now (.done status result error sessionId)).run =
      state.run.receive setup now (.done status result error sessionId) := rfl
  rw [DriveRun.receive_done_eq hactive.idleSince] at htook
  split at htook
  next hcrash =>
    -- The retry leaves before any doc work; the fold is empty.
    have hempty := (DriveRun.startupCrash_cases hcrash).1
    rw [hempty] at hrecorded
    rw [takeDone, htook, if_pos rfl, ← Transcript.answered_iff_resolved]
    · exact ⟨rfl, Iff.rfl⟩
    · exact hrecorded.writer_eq_none
  next hcrash =>
    generalize hended : state.run.ending now (.done status result error sessionId) = ended at htook
    obtain ⟨htranscript, hpending⟩ := DriveRun.turnDone_frame ended setup now status
    have hsame : ended.transcript = state.run.transcript ∧ ended.ownsSlot = true := by
      subst hended
      exact ⟨rfl, hactive.ownsSlot⟩
    have hopen : DriveRun.Open ended := by
      have hhearing : DriveRun.Hearing
          { state.run.seen now (.done status result error sessionId) with
            published := state.run.published ++ [.done status result error sessionId] }
          (.done status result error sessionId) state.run.heard state.run.seenTools pages :=
        ⟨hrecorded, rfl, fun id hid => hid, nofun⟩
      subst hended
      exact hhearing.open_foldEvent nofun
    obtain ⟨pages, hsettled⟩ := hopen.settleInputs
    simp only [hsame.1] at hsettled htranscript
    have hanswered := Transcript.answered_finishSegment hsettled (hactive.room.le_pages hsettled)
      ended.entryId setup.deviceId ended.segmentStarted (DriveRun.messageStatus status)
    have hwriter := Transcript.finishSegment_writer state.run.transcript ended.entryId
      setup.deviceId ended.segmentStarted (ended.folded.map MessagePart.settleInput)
      (DriveRun.messageStatus status)
    rw [and_iff_left (openRequests_settleInput _), Transcript.answered_iff_resolved hwriter,
      ← htranscript, ← htook] at hanswered
    rw [if_pos hsame.2, ← htook] at hpending
    unfold takeDone
    extract_lets next
    split
    · exact ⟨rfl, hanswered⟩
    · exact ⟨hpending, hanswered⟩

theorem active_start {before : DriveRun} (hkept : before.Kept) (hphase : before.phase = .running)
    (hidle : before.idleSince = none) (howns : before.ownsSlot = true)
    (hfolded : before.folded = []) (channel : List EngineEvent) (asked : Nat) :
    Active before.transcript.begun.length { run := before, channel, asked } := by
  obtain ⟨⟨pages, hrecorded⟩, -⟩ := hkept.open hphase
  rw [hfolded] at hrecorded
  refine ⟨hphase, hidle, howns, hkept, ?_⟩
  simp [Transcript.Room, hrecorded.writer_eq_none]

/-- For every order of the events of a turn: the status says awaiting input exactly while a question
is open, and the end of the turn leaves neither a resolver nor an open question behind, if and only
if questions are resolved and messages routed one question at a time. -/
theorem questions_agree_iff [LineDiff] (setup : RunSetup) (requestId : Nat → String)
    (doc : SessionDoc) (prior : List DriveAction) {before : DriveRun}
    (hprior : Trace.run (DriveRun.step setup) (DriveRun.start setup doc) prior = some before)
    (hphase : before.phase = .running) (hidle : before.idleSince = none)
    (howns : before.ownsSlot = true) (hfolded : before.folded = [])
    (hstatus : before.status = .working) (channel : List EngineEvent) (asked : Nat)
    (turn : List QuestionAction) {after : QuestionRun}
    (hturn : Trace.run (step setup requestId) { run := before, channel, asked } turn = some after)
    (now : Nat) (status : DoneStatus) (result error sessionId : Option String) :
    (Trace.Always (step setup requestId) Agrees { run := before, channel, asked } turn ∧
        (after.takeDone setup now status result error sessionId).run.pendingInputs = [] ∧
        (after.takeDone setup now status result error sessionId).run.transcript.Resolved
          before.transcript.begun.length) ↔
      Trace.Guarded (step setup requestId) (fun state action => Alone state action ∧
        Settled state action) { run := before, channel, asked } turn := by
  have hkept : before.Kept :=
    Trace.run_invariant (fun _ _ _ hstate hstep => DriveRun.step_kept hstate hstep)
      (DriveRun.start_kept setup doc) hprior
  have hactive := active_start hkept hphase hidle howns hfolded channel asked
  have hagrees : Agrees { run := before, channel, asked } := by
    simp [Agrees, DriveRun.Agrees, hfolded, hstatus]
  have hdisabled : ∀ state action, state.step setup requestId action = none →
      Alone state action := by
    intro state action hnone
    cases action with
    | engine now =>
      simp only [step] at hnone
      split at hnone
      next hchannel => simp [Alone, hchannel]
      · cases hnone
    | flush => trivial
    | _ => cases hnone
  have hinvariant : ∀ state action next, Active before.transcript.begun.length state →
      state.step setup requestId action = some next →
      Active before.transcript.begun.length next := fun _ _ _ hstate => hstate.step
  have halways : Trace.Always (step setup requestId) Agrees { run := before, channel, asked } turn ↔
      Trace.Guarded (step setup requestId) Alone { run := before, channel, asked } turn :=
    Trace.always_iff_guarded_of_invariant hinvariant (fun _ _ _ hstate => agrees_step hstate)
      hdisabled hactive hagrees
  have hanswered := Trace.final_iff_guarded_of_invariant hinvariant
    (fun _ _ _ hstate => answered_step hstate) hactive hturn
  have hstart : Answered before.transcript.begun.length { run := before, channel, asked } := by
    simp [Answered, Transcript.Answered]
  obtain ⟨hpending, hresolved⟩ := takeDone_spec
    (Trace.run_invariant hinvariant hactive hturn) setup now status result error sessionId
  rw [halways, and_iff_right hpending, hresolved, hanswered, and_iff_right hstart,
    Trace.guarded_and_iff]

section Examples

local instance : LineDiff := .replaceAll

instance (run : DriveRun) : (event : AgentEvent) → Decidable (run.Alone event)
  | .inputResolved requestId =>
    inferInstanceAs (Decidable (∀ other ∈ openRequests run.folded, other = requestId))
  | .inputRequested requestId _ =>
    inferInstanceAs (Decidable (requestId ∈ run.pendingInputs →
      (∀ part ∈ run.folded, part.id ≠ "in-" ++ requestId) ∨ openRequests run.folded ≠ []))
  | .sessionStarted .. | .textDelta _ | .reasoningDelta _ | .decision _ | .decisionActivity _
  | .assistantMessageCompleted _ | .toolCall .. | .toolResult .. | .usage ..
  | .availableCommands _ | .error _ | .steered .. | .done .. => isTrue trivial

instance (state : QuestionRun) : (action : QuestionAction) → Decidable (Alone state action)
  | .steer => inferInstanceAs (Decidable (openRequests state.run.folded = []))
  | .engine _ => inferInstanceAs (Decidable
      (∀ event ∈ state.channel.head?, state.run.Alone event.toAgentEvent))
  | .harness _ event => inferInstanceAs (Decidable (state.run.Alone event.toAgentEvent))
  | .ask _ | .respond _ | .flush _ | .append _ => isTrue trivial

instance (state : QuestionRun) : (action : QuestionAction) → Decidable (Settled state action)
  | .harness _ (.steered ..) => inferInstanceAs (Decidable (openRequests state.run.folded = []))
  | .harness _ (.textDelta _) | .harness _ (.toolCall ..) | .harness _ (.toolResult ..)
  | .harness _ (.inputRequested ..) | .ask _ | .respond _ | .steer | .engine _ | .flush _
  | .append _ => isTrue trivial

def requestIds (minted : Nat) : String := String.ofList (List.replicate (minted + 1) 'q')

theorem requestIds_injective : requestIds.Injective := by
  intro first second hsame
  simpa [requestIds] using congrArg String.length hsame

def freshRun : DriveRun :=
  { DriveRun.start DriveRun.steerableSetup (.init "chat") with phase := .running }

theorem freshRun_run : Trace.run (DriveRun.step DriveRun.steerableSetup)
    (DriveRun.start DriveRun.steerableSetup (.init "chat")) [.spawned 0] = some freshRun := rfl

/-- One question is asked and answered behind some text. -/
def oneQuestion : List QuestionAction :=
  [.harness 1 (.textDelta "push? "), .ask [], .engine 2, .respond "q", .engine 3]

/-- The first of two open questions is answered. -/
def twoQuestions : List QuestionAction :=
  [.ask [], .ask [], .engine 1, .engine 2, .respond "q", .engine 3]

theorem questions_agree_one : ∃ after, Trace.run (step DriveRun.steerableSetup requestIds)
      { run := freshRun, channel := [], asked := 0 } oneQuestion = some after ∧
    Trace.Always (step DriveRun.steerableSetup requestIds) Agrees
      { run := freshRun, channel := [], asked := 0 } oneQuestion ∧
    (after.takeDone DriveRun.steerableSetup 4 .completed none none none).run.pendingInputs = [] ∧
    (after.takeDone DriveRun.steerableSetup 4 .completed none none none).run.transcript.Resolved
      0 := by
  have hturn : (Trace.run (step DriveRun.steerableSetup requestIds)
      { run := freshRun, channel := [], asked := 0 } oneQuestion).isSome := by decide
  obtain ⟨after, hafter⟩ := Option.isSome_iff_exists.mp hturn
  exact ⟨after, hafter, (questions_agree_iff DriveRun.steerableSetup requestIds (.init "chat")
    [.spawned 0] freshRun_run rfl rfl rfl rfl rfl [] 0 oneQuestion hafter 4 .completed none none
    none).mpr (by decide)⟩

/-- With two questions open, the first answer shows the chat as working. -/
theorem questions_disagree : ¬ ∀ (setup : RunSetup) (requestId : Nat → String) (doc : SessionDoc)
    (prior : List DriveAction) (before : DriveRun) (turn : List QuestionAction),
    requestId.Injective →
    Trace.run (DriveRun.step setup) (DriveRun.start setup doc) prior = some before →
    before.phase = .running → before.idleSince = none → before.ownsSlot = true →
    before.folded = [] → before.status = .working →
    Trace.Always (step setup requestId) Agrees { run := before, channel := [], asked := 0 }
      turn := by
  intro hclaim
  have halways := hclaim DriveRun.steerableSetup requestIds (.init "chat") [.spawned 0] freshRun
    twoQuestions requestIds_injective freshRun_run rfl rfl rfl rfl rfl
  have hturn : (Trace.run (step DriveRun.steerableSetup requestIds)
      { run := freshRun, channel := [], asked := 0 } twoQuestions).any fun after =>
        after.run.status == .working && openRequests after.run.folded == ["qq"] := by decide
  obtain ⟨after, hafter, hshown⟩ := (Option.any_eq_true _ _).mp hturn
  simp only [Bool.and_eq_true, beq_iff_eq] at hshown
  have hagrees := (halways.final hafter : Agrees after)
  rw [Agrees, DriveRun.Agrees, hshown.1, hshown.2] at hagrees
  exact absurd hagrees (by decide)

end Examples

end QuestionRun

end Keel
