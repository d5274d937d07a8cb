import Keel.Dsh.ToolRuntime

/-! # The tool pipeline is fail-closed

Whatever the policies, the guards, an approval and the outside do, and whenever they do it:
the body runs once at most, after the gate let the call through, for a visible tool and an
unaborted caller; a success has passed the output contract of a visible tool; a failure
stays one. The two cancellation codes say whether the body ran, unless someone else put them
on a failure.
-/

namespace Keel.Tools

open List Option

open Scoped (ScopeKey)

section Statement

variable {Message : Type}

namespace Event

/-- The events of the gate in front of the body. -/
def isGate : Event Message → Bool
  | .decided _ | .approved _ | .guarded .. => true
  | _ => false

def isDelegated : Event Message → Bool
  | .delegated => true
  | _ => false

def isInvoked : Event Message → Bool
  | .invoked .. => true
  | _ => false

end Event

/-- The gate let the call through: the pre decision was an allow or an ask that was granted, and
none of the guards that the scope sees denied. -/
def Granted (scope : Option ScopeKey) (gates : List (Event Message)) : Prop :=
  ∃ (registry : Registry) (answers : Nat → Option String),
    (∀ guard ∈ registry.guards scope, answers guard = none) ∧
    (gates = [.guarded registry answers, .decided (.ok .allow)] ∨
      ∃ reason, gates =
        [.guarded registry answers, .approved .allowedOnce, .decided (.ok (.ask reason))])

/-- The value that passed an output contract last, and where. -/
def lastNormalized : List (Event Message) → Option (World × ToolDefinition × Value)
  | [] => none
  | .normalized world tool value :: _ => some (world, tool, value)
  | _ :: before => lastNormalized before

/-- What may be said of an event, given what happened before it. -/
def Sound (print : Value → String) (input : ToolExecutionInput) (before : List (Event Message)) :
    Event Message → Prop
  | .invoked world tool =>
    Granted (agentScope input.agent) (before.filter Event.isGate) ∧
    world.registry.get input.name (agentScope input.agent) = some tool ∧
    input.signal.aborted world.aborted = false
  | .normalized world tool value =>
    world.registry.get input.name (agentScope input.agent) = some tool ∧
    validateJsonSchemaValue print tool.output.schema value "value" = []
  | .posted result outcome =>
    result.isError = true → ∀ after, outcome = .ok after → after.isError = true
  | .finished world result =>
    ∀ value content metadata contexts concludes,
      result = .success value content metadata contexts concludes →
        (∃ visible tool, lastNormalized before = some (visible, tool, value)) ∧
        input.signal.aborted world.aborted = false
  | _ => True

def Justified (print : Value → String) (input : ToolExecutionInput) : List (Event Message) → Prop
  | [] => True
  | event :: before => Sound print input before event ∧ Justified print input before

/-- Someone other than the pipeline puts a code on a failure: a policy fails with it or authors a
failure that has it, while the built-in outcome has not; for the code that denies an invocation
also the body. -/
def Authors (code : String) (state : State Message) : Action Message → Prop
  | .preReturns (some (.error error)) _ | .aroundReturns (some (.error error)) _
  | .postReturns (some (.error error)) _ => (errorInfo error).map ToolErrorInfo.code = some code
  | .aroundReturns (some (.ok result)) _ =>
    result.code = some code ∧ ∀ settled, state.inner = .settled settled → settled.code ≠ some code
  | .bodyReturns (.error error) =>
    code = TOOL_ABORTED_BEFORE_DISPATCH ∧ (errorInfo error).map ToolErrorInfo.code = some code
  | _ => False

end Statement

section Signals

mutual

theorem AbortSignal.aborted_mono {sources later : List Nat} (hsubset : sources ⊆ later) :
    ∀ signal : AbortSignal, signal.aborted sources = true → signal.aborted later = true
  | .never, h => by cases h
  | .controller id, h => by
      rw [aborted, contains_iff_mem] at h ⊢
      exact hsubset h
  | .any signals, h => anyAborted_mono hsubset signals h

theorem AbortSignal.anyAborted_mono {sources later : List Nat} (hsubset : sources ⊆ later) :
    ∀ signals : List AbortSignal, anyAborted sources signals = true →
      anyAborted later signals = true
  | [], h => by cases h
  | signal :: signals, h => by
      rw [anyAborted, Bool.or_eq_true] at h ⊢
      exact h.imp (aborted_mono hsubset signal) (anyAborted_mono hsubset signals)

end

theorem AbortSignal.any_caller {sources : List Nat} {caller wrapper : AbortSignal}
    (hcaller : caller.aborted sources = true) :
    (AbortSignal.any [caller, wrapper]).aborted sources = true := by
  rw [aborted, anyAborted, hcaller]
  rfl

end Signals

variable {Message : Type}

section Results

variable (result : ToolExecutionResult Message) (contexts : List Message)
  (content : List ContentBlock)

@[simp] theorem isError_withContent : (result.withContent content).isError = result.isError := by
  cases result <;> rfl

@[simp] theorem isError_withAdditionalContexts :
    (result.withAdditionalContexts contexts).isError = result.isError := by
  cases result <;> rfl

@[simp] theorem code_withContent : (result.withContent content).code = result.code := by
  cases result <;> rfl

@[simp] theorem code_withAdditionalContexts :
    (result.withAdditionalContexts contexts).code = result.code := by
  cases result <;> rfl

def ToolExecutionResult.value : ToolExecutionResult Message → Option Value
  | .success value _ _ _ _ => some value
  | .failure .. => none

@[simp] theorem value_withContent : (result.withContent content).value = result.value := by
  cases result <;> rfl

@[simp] theorem value_withAdditionalContexts :
    (result.withAdditionalContexts contexts).value = result.value := by
  cases result <;> rfl

theorem value_eq_none_iff {result : ToolExecutionResult Message} :
    result.value = none ↔ result.isError = true := by
  cases result <;> simp [ToolExecutionResult.value, ToolExecutionResult.isError]

end Results

section Contract

variable (print : Value → String) {exec : ToolExecution Message} {world : World}
  {tool : ToolDefinition} {value : Value} {result : ToolExecutionResult Message}

theorem createSuccessResult_ok (hcreated : exec.createSuccessResult print tool value = .ok result) :
    validateJsonSchemaValue print tool.output.schema value "value" = [] ∧
      result.value = some value := by
  rw [ToolExecution.createSuccessResult] at hcreated
  split at hcreated
  next hvalid =>
    refine ⟨hvalid, ?_⟩
    cases hrender : (tool.output.render exec.arguments value).mapError fun error =>
        ToolOutputError tool.name ["output.render failed: " ++ error.message] with
    | error error =>
      rw [hrender] at hcreated
      cases hcreated
    | ok content =>
      cases hmeta : exec.presentation tool value with
      | error error =>
        rw [hrender, hmeta] at hcreated
        cases hcreated
      | ok metadata =>
        rw [hrender, hmeta] at hcreated
        cases hcreated
        rfl
  · cases hcreated

/-- The value of a success, if any, passes the contract of a visible tool. -/
def Passes (exec : ToolExecution Message) (world : World) (result : ToolExecutionResult Message) :
    Prop :=
  ∀ value, result.value = some value → ∃ tool, exec.visible world = some tool ∧
    validateJsonSchemaValue print tool.output.schema value "value" = []

theorem passes_of_created (hvisible : exec.visible world = some tool)
    (hcreated : exec.createSuccessResult print tool value = .ok result) (contexts : List Message) :
    Passes print exec world (result.withAdditionalContexts contexts) := by
  obtain ⟨hvalid, hresult⟩ := createSuccessResult_ok print hcreated
  intro other hother
  rw [value_withAdditionalContexts, hresult] at hother
  cases hother
  exact ⟨tool, hvisible, hvalid⟩

theorem normalizeDispatchResult_ok {normalized : ToolExecutionResult Message}
    (hnormalized : exec.normalizeDispatchResult world print result = .ok normalized) :
    Passes print exec world normalized := by
  cases result with
  | failure error content metadata contexts =>
    cases hnormalized
    intro value hvalue
    cases hvalue
  | success value content metadata contexts concludes =>
    rw [ToolExecution.normalizeDispatchResult] at hnormalized
    split at hnormalized
    · cases hnormalized
    next tool hvisible =>
      cases hcreated : exec.createSuccessResult print tool value with
      | error error =>
        rw [hcreated] at hnormalized
        cases hnormalized
      | ok created =>
        rw [hcreated] at hnormalized
        cases hnormalized
        exact passes_of_created print hvisible hcreated contexts

/-- A decision keeps failures; a value it supplies passes the contract, and another is kept. -/
theorem applyDecision_ok {decision : PostToolDecision Message} {after : ToolExecutionResult Message}
    (hafter : exec.applyDecision world print result decision = .ok after) :
    (result.isError = true → after.isError = true) ∧
      (State.replacesValue decision = true → Passes print exec world after) ∧
      (State.replacesValue decision = false → after.isError = false → after.value = result.value) := by
  cases decision with
  | block feedback contexts =>
    cases hafter
    exact ⟨fun _ => rfl, fun h => (nomatch h), fun _ h => (nomatch h)⟩
  | accept replace contexts =>
    unfold ToolExecution.applyDecision at hafter
    dsimp only at hafter
    split at hafter
    · cases hafter
      exact ⟨fun h => by simpa using h, fun h => (nomatch h), fun _ _ => by simp⟩
    next content =>
      cases hafter
      exact ⟨fun h => by simpa using h, fun h => (nomatch h), fun _ _ => by simp⟩
    next value =>
      split at hafter
      · cases hafter
      next herror =>
        refine ⟨fun h => absurd h herror, fun _ => ?_, fun h => (nomatch h)⟩
        split at hafter
        · cases hafter
        next tool hvisible =>
          cases hcreated : exec.createSuccessResult print tool value with
          | error error =>
            rw [hcreated] at hafter
            cases hafter
          | ok created =>
            rw [hcreated] at hafter
            cases hafter
            exact passes_of_created print hvisible hcreated _

end Contract

section Gate

theorem guardReason_eq_none_iff {registry : Registry} {scope : Option ScopeKey}
    {answers : Nat → Option String} : registry.guardReason scope answers = none ↔
      ∀ guard ∈ registry.guards scope, answers guard = none := by
  have hlayer : ∀ layer : ToolLayer, layer.guardReason answers = none ↔
      ∀ guard ∈ layer.guards, answers guard = none := by
    intro layer
    rw [ToolLayer.guardReason, findSome?_eq_none_iff]
  have hchain : ∀ layers : List (ScopeKey × ToolLayer),
      (layers.findSome? fun layer => layer.2.guardReason answers) = none ↔
        ∀ guard ∈ layers.flatMap fun layer => layer.2.guards, answers guard = none := by
    intro layers
    simp only [findSome?_eq_none_iff, hlayer, mem_flatMap]
    exact ⟨fun h guard ⟨layer, hmem, hguard⟩ => h layer hmem guard hguard,
      fun h layer hmem guard hguard => h guard ⟨layer, hmem, hguard⟩⟩
  have happend : (∀ guard ∈ registry.guards scope, answers guard = none) ↔
      registry.global.guardReason answers = none ∧
        ∀ guard ∈ (registry.chainLayers scope).flatMap fun layer => layer.2.guards,
          answers guard = none := by
    rw [hlayer, Registry.guards]
    exact forall_mem_append
  rw [happend]
  unfold Registry.guardReason
  cases hglobal : registry.global.guardReason answers with
  | some reason => simp
  | none =>
    cases scope with
    | none =>
      have hnil : registry.chainLayers none = [] := rfl
      simp [hnil]
    | some key => simp only [true_and, hchain]

end Gate

section Invariant

variable (print : Value → String) (input : ToolExecutionInput) {state next : State Message}

/-- The innermost `next` was called. -/
def Inner.begun : Inner Message → Bool
  | .uncalled _ => false
  | _ => true

/-- The body cannot have been invoked yet. -/
def Inner.idle : Inner Message → Bool
  | .uncalled _ | .called => true
  | _ => false

/-- The inner dispatch and what the log says of it. -/
structure Core (state : State Message) : Prop where
  name : state.exec.name = input.name
  agent : state.exec.agent = input.agent
  caller : state.exec.callerSignal = input.signal
  justified : Justified print input state.log
  granted : state.inner ≠ .uncalled none →
    Granted (agentScope input.agent) (state.log.filter Event.isGate)
  idle : state.inner.idle = true → state.exec.bodyInvoked = false
  running : ∀ tool fused wrapper, state.inner = .body tool fused wrapper →
    state.exec.bodyInvoked = true
  delegated : state.log.countP Event.isDelegated = if state.inner.begun then 1 else 0
  invoked : state.log.countP Event.isInvoked = if state.exec.bodyInvoked then 1 else 0

variable {print input}

section
variable (hcore : Core print input state)
include hcore

theorem Core.begun (hbody : state.exec.bodyInvoked = true) : state.inner.begun = true := by
  have hidle : state.inner.idle ≠ true := by
    intro hidle
    rw [hcore.idle hidle] at hbody
    cases hbody
  cases hinner : state.inner with
  | uncalled _ =>
    rw [hinner] at hidle
    exact absurd rfl hidle
  | called | body _ _ _ | settled _ => rfl

theorem Core.scope : state.exec.scope = agentScope input.agent := by
  rw [ToolExecution.scope, hcore.agent]

theorem Core.visible : state.exec.visible state.world =
    state.world.registry.get input.name (agentScope input.agent) := by
  rw [ToolExecution.visible, hcore.scope, hcore.name]

theorem Core.callerAborted :
    state.exec.callerAborted state.world = input.signal.aborted state.world.aborted := by
  rw [ToolExecution.callerAborted, hcore.caller]

theorem Core.congr (hname : next.exec.name = state.exec.name)
    (hagent : next.exec.agent = state.exec.agent)
    (hcaller : next.exec.callerSignal = state.exec.callerSignal)
    (hbody : next.exec.bodyInvoked = state.exec.bodyInvoked) (hinner : next.inner = state.inner)
    (hlog : next.log = state.log) : Core print input next where
  name := hname.trans hcore.name
  agent := hagent.trans hcore.agent
  caller := hcaller.trans hcore.caller
  justified := hlog ▸ hcore.justified
  granted := by
    rw [hinner, hlog]
    exact hcore.granted
  idle := by
    rw [hinner, hbody]
    exact hcore.idle
  running := by
    rw [hinner, hbody]
    exact hcore.running
  delegated := by
    rw [hlog, hinner]
    exact hcore.delegated
  invoked := by
    rw [hlog, hbody]
    exact hcore.invoked

theorem Core.stage (stage : Stage Message) : Core print input { state with stage } :=
  hcore.congr rfl rfl rfl rfl rfl rfl

/-- A sound event that is no delegation or invocation; one of the gate only before the around
stage. -/
theorem Core.record {event : Event Message} (hsound : Sound print input state.log event)
    (hgate : event.isGate = true → state.inner = .uncalled none)
    (hdelegated : event.isDelegated = false) (hinvoked : event.isInvoked = false) :
    Core print input (state.record event) where
  name := hcore.name
  agent := hcore.agent
  caller := hcore.caller
  justified := ⟨hsound, hcore.justified⟩
  granted hinner := by
    have hother : event.isGate = false := Bool.eq_false_of_not_eq_true fun h => hinner (hgate h)
    rw [State.record, filter_cons, hother]
    exact hcore.granted hinner
  idle := hcore.idle
  running := hcore.running
  delegated := by
    rw [State.record, countP_cons, hdelegated]
    exact hcore.delegated
  invoked := by
    rw [State.record, countP_cons, hinvoked]
    exact hcore.invoked

theorem Core.post (result : ToolExecutionResult Message) : Core print input (state.post result) :=
  hcore.stage _

end

/-- A failure, or a success whose value passed a contract while the caller has not aborted. -/
def Presentable (input : ToolExecutionInput) (state : State Message)
    (result : ToolExecutionResult Message) : Prop :=
  ∀ value, result.value = some value →
    (∃ visible tool, lastNormalized state.log = some (visible, tool, value)) ∧
      input.signal.aborted state.world.aborted = false

theorem presentable_of_isError {result : ToolExecutionResult Message}
    (herror : result.isError = true) : Presentable input state result := by
  intro value hvalue
  rw [value_eq_none_iff.2 herror] at hvalue
  cases hvalue

section
variable (hcore : Core print input state)
include hcore

theorem Core.finish {result : ToolExecutionResult Message}
    (hresult : Presentable input state result) (content : Option (List ContentBlock)) :
    Core print input (state.finish result content) := by
  have hsound : ∀ finalized : ToolExecutionResult Message, finalized.value = result.value →
      Sound print input state.log (.finished state.world finalized) := by
    rintro finalized hvalue value blocks metadata contexts concludes rfl
    exact hresult value hvalue.symm
  unfold State.finish
  refine ((hcore.record (hsound _ ?_) (fun h => ?_) rfl rfl).stage _)
  · split
    · exact value_withContent _ _
    · rfl
  · cases h

theorem Core.dispatch (hinner : state.inner = .uncalled none)
    (hgranted : Granted (agentScope input.agent) (state.log.filter Event.isGate)) :
    Core print input state.dispatch := by
  have hdelegated : state.log.countP Event.isDelegated = 0 := by
    rw [hcore.delegated, hinner]
    rfl
  have hbody : state.exec.bodyInvoked = false := hcore.idle (by rw [hinner]; rfl)
  rw [State.dispatch]
  split
  · exact { hcore with
      justified := ⟨trivial, hcore.justified⟩
      granted := fun _ => hgranted
      idle := fun _ => hbody
      running := fun _ _ _ h => nomatch h
      delegated := by
        rw [countP_cons, hdelegated]
        rfl }
  · exact { hcore with
      granted := fun _ => hgranted
      idle := fun _ => hbody
      running := fun _ _ _ h => nomatch h
      delegated := hdelegated }

theorem Core.dispatchToolBody (hinner : state.inner = .called) :
    Core print input state.dispatchToolBody := by
  have hgranted := hcore.granted (by rw [hinner]; exact fun h => nomatch h)
  have hbody : state.exec.bodyInvoked = false := hcore.idle (by rw [hinner]; rfl)
  have hdelegated : state.log.countP Event.isDelegated = 1 := by
    rw [hcore.delegated, hinner]
    rfl
  have hsettled : ∀ result : ToolExecutionResult Message,
      Core print input { state with inner := .settled result } := fun result => { hcore with
    granted := fun _ => hgranted
    idle := fun h => nomatch h
    running := fun _ _ _ h => nomatch h
    delegated := hdelegated }
  rw [State.dispatchToolBody]
  dsimp only
  split
  · exact hsettled _
  next hfused =>
    have hcaller : input.signal.aborted state.world.aborted = false := by
      rw [← hcore.caller]
      exact Bool.eq_false_of_not_eq_true fun h => hfused (AbortSignal.any_caller h)
    split
    · exact hsettled _
    next tool hvisible =>
      exact { hcore with
        justified := ⟨⟨hgranted, hcore.visible.symm.trans hvisible, hcaller⟩, hcore.justified⟩
        granted := fun _ => hgranted
        idle := fun h => nomatch h
        running := fun _ _ _ _ => rfl
        delegated := hdelegated
        invoked := by
          rw [countP_cons, hcore.invoked, hbody]
          rfl }

theorem Core.settleBody {tool : ToolDefinition} {fused wrapper : AbortSignal}
    (hinner : state.inner = .body tool fused wrapper) (outcome : Except ToolError Value) :
    Core print input (state.settleBody print tool fused wrapper outcome) where
  name := hcore.name
  agent := hcore.agent
  caller := hcore.caller
  justified := hcore.justified
  granted _ := hcore.granted (by rw [hinner]; exact fun h => nomatch h)
  idle h := nomatch h
  running _ _ _ h := nomatch h
  delegated := by
    have hdelegated := hcore.delegated
    rw [hinner] at hdelegated
    exact hdelegated
  invoked := hcore.invoked

end

/-- What holds where `execute` is. -/
def Reached (state : State Message) : Prop :=
  match state.stage with
  | .preExecute _ => state.inner = .uncalled none ∧ state.log.filter Event.isGate = []
  | .approving => state.inner = .uncalled none ∧
      ∃ reason, state.log.filter Event.isGate = [.decided (.ok (.ask reason))]
  | .guarding denyReason _ => state.inner = .uncalled none ∧
      (denyReason = none → state.log.filter Event.isGate = [.decided (.ok .allow)] ∨
        ∃ reason, state.log.filter Event.isGate =
          [.approved .allowedOnce, .decided (.ok (.ask reason))])
  | .around _ => True
  | .postExecute _ result => ∀ value, result.value = some value →
      ∃ visible tool, lastNormalized state.log = some (visible, tool, value)
  | .finished result => ∃ world, .finished world result ∈ state.log

/-- The gate lets a call through when the policy allowed it and no guard denies. -/
theorem Core.gate (hcore : Core print input state) {denyReason : Option String} {cancelled : Bool}
    (hstage : state.stage = .guarding denyReason cancelled) (hreached : Reached state)
    (answers : Nat → Option String) :
    Core print input (state.gate denyReason cancelled answers) ∧
      Reached (state.gate denyReason cancelled answers) := by
  rw [Reached, hstage] at hreached
  obtain ⟨hinner, hallowed⟩ := hreached
  have hpost : ∀ {asked : State Message} {result : ToolExecutionResult Message},
      result.isError = true → Reached (asked.post result) := by
    intro asked result herror value hvalue
    rw [value_eq_none_iff.2 herror] at hvalue
    cases hvalue
  have hasked : Core print input (state.record (.guarded state.world.registry answers)) :=
    hcore.record trivial (fun _ => hinner) rfl rfl
  unfold State.gate
  split
  · exact ⟨hcore.post _, hpost rfl⟩
  · cases denyReason with
    | some reason => exact ⟨hcore.post _, hpost rfl⟩
    | none =>
      dsimp only
      split
      · exact ⟨hasked.post _, hpost rfl⟩
      next hnone =>
        split
        · exact ⟨hasked.post _, hpost rfl⟩
        · have hguards := guardReason_eq_none_iff.1 hnone
          rw [hcore.scope] at hguards
          refine ⟨hasked.dispatch hinner ?_, ?_⟩
          · refine ⟨state.world.registry, answers, hguards, ?_⟩
            rw [State.record, filter_cons]
            rcases hallowed rfl with hgates | ⟨reason, hgates⟩
            · exact Or.inl (by rw [hgates]; rfl)
            · exact Or.inr ⟨reason, by rw [hgates]; rfl⟩
          · rw [State.dispatch]
            split <;> trivial

theorem Core.recordNormalized (hcore : Core print input state)
    {result : ToolExecutionResult Message} (hpasses : Passes print state.exec state.world result) :
    Core print input (state.recordNormalized result) ∧ ∀ value, result.value = some value →
      ∃ visible tool, lastNormalized (state.recordNormalized result).log =
        some (visible, tool, value) := by
  cases result with
  | failure error content metadata contexts => exact ⟨hcore, fun _ h => by cases h⟩
  | success value content metadata contexts concludes =>
    obtain ⟨tool, hvisible, hvalid⟩ := hpasses value rfl
    have hsound : Sound print input state.log (.normalized state.world tool value) :=
      ⟨hcore.visible.symm.trans hvisible, hvalid⟩
    have hrecorded : state.recordNormalized
        (.success value content metadata contexts concludes : ToolExecutionResult Message) =
          state.record (.normalized state.world tool value) := by
      rw [State.recordNormalized]
      simp only [hvisible]
    rw [hrecorded]
    refine ⟨hcore.record hsound (fun h => by cases h) rfl rfl, fun other hother => ?_⟩
    cases hother
    exact ⟨state.world, tool, rfl⟩

theorem isError_cancellationResult (exec : ToolExecution Message)
    (prior : Option (ToolExecutionResult Message)) :
      (exec.cancellationResult prior).isError = true := by
  rw [ToolExecution.cancellationResult]
  split <;> rfl

theorem value_of_cancellable {exec : ToolExecution Message} {held : ToolExecutionResult Message}
    {cancelled : Prop} [Decidable cancelled] {value : Value}
    (hvalue : (if cancelled then exec.cancellationResult (some held) else held).value = some value) :
    held.value = some value := by
  split at hvalue
  · rw [value_eq_none_iff.2 (isError_cancellationResult _ _)] at hvalue
    cases hvalue
  · exact hvalue

theorem Core.settleDispatch (hcore : Core print input state)
    (outcome : Except ToolError (ToolExecutionResult Message)) (content : Option (List ContentBlock)) :
    Core print input (state.settleDispatch print outcome content) ∧
      Reached (state.settleDispatch print outcome content) := by
  unfold State.settleDispatch
  split
  next error _ =>
    exact ⟨hcore.finish (presentable_of_isError rfl) content, _, mem_cons_self⟩
  next normalized hnormalized =>
    have hpasses : Passes print state.exec state.world normalized := by
      cases outcome with
      | error error => cases hnormalized
      | ok result => exact normalizeDispatchResult_ok print hnormalized
    obtain ⟨hrecorded, hlast⟩ := hcore.recordNormalized hpasses
    refine ⟨hrecorded.post _, fun value hvalue => hlast value ?_⟩
    have hcontexts : (if state.exec.deferredContexts.isEmpty then normalized
        else normalized.withAdditionalContexts (state.exec.deferredContexts ++
          normalized.additionalContexts)).value = normalized.value := by
      split
      · rfl
      · exact value_withAdditionalContexts _ _
    exact hcontexts.symm.trans (value_of_cancellable hvalue)

theorem Core.finalize (hcore : Core print input state) {before : ToolExecutionResult Message}
    (hbefore : ∀ value, before.value = some value →
      ∃ visible tool, lastNormalized state.log = some (visible, tool, value))
    (decision : Except ToolError (PostToolDecision Message)) (content : Option (List ContentBlock)) :
    Core print input (state.finalize print before decision content) ∧
      Reached (state.finalize print before decision content) := by
  unfold State.finalize
  dsimp only
  generalize houtcome : decision.bind (state.exec.applyDecision state.world print before) = outcome
  split
  next error =>
    have hposted : Core print input (state.record (.posted before (.error error))) :=
      hcore.record (fun _ _ h => nomatch h) (fun h => nomatch h) rfl rfl
    exact ⟨hposted.finish (presentable_of_isError rfl) content, _, mem_cons_self⟩
  next after =>
    cases decision with
    | error error => cases houtcome
    | ok decision =>
      obtain ⟨hfailure, hreplaced, hkept⟩ := applyDecision_ok print houtcome
      have hposted : Core print input (state.record (.posted before (.ok after))) := by
        refine hcore.record (fun herror other h => ?_) (fun h => nomatch h) rfl rfl
        cases h
        exact hfailure herror
      -- the recorded state, and the contract that the value of a success passed
      have hrecorded : ∀ normalized : State Message, Core print input normalized →
          normalized.world = state.world →
          (∀ value, after.value = some value →
            ∃ visible tool, lastNormalized normalized.log = some (visible, tool, value)) →
          ∀ result, result = (if state.exec.callerAborted state.world ∧ ¬ after.isError then
              state.exec.cancellationResult (some after) else after) →
            Core print input (normalized.finish result content) := by
        rintro normalized hnormalized hworld hlast result rfl
        refine hnormalized.finish ?_ content
        split
        · exact presentable_of_isError (isError_cancellationResult _ _)
        next haborted =>
          intro value hvalue
          refine ⟨hlast value hvalue, Bool.eq_false_of_not_eq_true fun h => haborted ⟨?_, ?_⟩⟩
          · rw [hcore.callerAborted, ← hworld]
            exact h
          · rw [← value_eq_none_iff, hvalue]
            exact fun h => nomatch h
      refine ⟨?_, _, mem_cons_self⟩
      split
      next hreplaces =>
        obtain ⟨hnormalized, hlast⟩ := hposted.recordNormalized (hreplaced hreplaces)
        refine hrecorded _ hnormalized ?_ hlast _ rfl
        unfold State.recordNormalized
        split
        · rfl
        · split <;> rfl
      next hreplaces =>
        refine hrecorded _ hposted rfl (fun value hvalue => ?_) _ rfl
        have hsame : after.value = before.value := by
          refine hkept (Bool.eq_false_of_not_eq_true hreplaces) ?_
          rw [← Bool.not_eq_true, ← value_eq_none_iff, hvalue]
          exact fun h => nomatch h
        exact hbefore value (hsame ▸ hvalue)

theorem Reached.later (hreached : Reached state) (hinner : state.inner ≠ .uncalled none)
    (hstage : next.stage = state.stage) (hlast : lastNormalized next.log = lastNormalized state.log)
    (hlog : state.log ⊆ next.log) : Reached next := by
  unfold Reached at hreached ⊢
  rw [hstage]
  cases hcase : state.stage with
  | preExecute listeners | approving | guarding denyReason cancelled =>
    rw [hcase] at hreached
    exact absurd hreached.1 hinner
  | around listeners => trivial
  | postExecute listeners result =>
    rw [hcase] at hreached
    dsimp only
    rw [hlast]
    exact hreached
  | finished result =>
    rw [hcase] at hreached
    obtain ⟨world, hfinished⟩ := hreached
    exact ⟨world, hlog hfinished⟩

theorem Reached.congr (hreached : Reached state) (hstage : next.stage = state.stage)
    (hinner : next.inner = state.inner) (hlog : next.log = state.log) : Reached next := by
  unfold Reached at hreached ⊢
  rw [hstage, hinner, hlog]
  exact hreached

section
variable (hcore : Core print input state)
include hcore

theorem Core.serviceAsk (hinner : state.inner = .uncalled none) {reason : Option String}
    (hgates : state.log.filter Event.isGate = [.decided (.ok (.ask reason))]) :
    Core print input (state.serviceAsk reason) ∧ Reached (state.serviceAsk reason) := by
  unfold State.serviceAsk
  split
  · exact ⟨hcore.stage _, hinner, fun h => nomatch h⟩
  · split
    · exact ⟨hcore.stage _, hinner, fun h => nomatch h⟩
    · exact ⟨hcore.stage _, hinner, reason, hgates⟩

theorem preReturns_keeps {listeners : Nat} (hstage : state.stage = .preExecute listeners)
    (hreached : Reached state) {authored : Option (Except ToolError PreToolDecision)}
    {content : Option (List ContentBlock)}
    (hstep : step print state (.preReturns authored content) = some next) :
    Core print input next ∧ Reached next := by
  rw [Reached, hstage] at hreached
  obtain ⟨hinner, hgates⟩ := hreached
  simp only [step, hstage] at hstep
  obtain ⟨outcome, -, rfl⟩ := map_eq_some_iff.mp hstep
  have hdecided : Core print input (state.record (.decided outcome)) :=
    hcore.record trivial (fun _ => hinner) rfl rfl
  have hlog : (state.record (.decided outcome)).log.filter Event.isGate = [.decided outcome] := by
    rw [State.record, filter_cons, hgates]
    rfl
  cases outcome with
  | error error =>
    exact ⟨hdecided.finish (presentable_of_isError rfl) content, _, mem_cons_self⟩
  | ok decision =>
    cases decision with
    | allow => exact ⟨hdecided.stage _, hinner, fun _ => Or.inl hlog⟩
    | deny reason => exact ⟨hdecided.stage _, hinner, fun h => nomatch h⟩
    | ask reason => exact hdecided.serviceAsk hinner hlog

theorem approvalReturns_keeps (hstage : state.stage = .approving) (hreached : Reached state)
    {outcome : ApprovalOutcome} (hstep : step print state (.approvalReturns outcome) = some next) :
    Core print input next ∧ Reached next := by
  rw [Reached, hstage] at hreached
  obtain ⟨hinner, reason, hgates⟩ := hreached
  simp only [step, hstage, some.injEq] at hstep
  subst hstep
  have happroved : Core print input (state.record (.approved outcome)) :=
    hcore.record trivial (fun _ => hinner) rfl rfl
  refine ⟨happroved.stage _, hinner, fun hnone => Or.inr ⟨reason, ?_⟩⟩
  cases outcome with
  | allowedOnce =>
    rw [State.record, filter_cons, hgates]
    rfl
  | rejected | cancelled | unavailable => cases hnone

theorem delegate_keeps (hreached : Reached state) (hstep : step print state .delegate = some next) :
    Core print input next ∧ Reached next := by
  simp only [step] at hstep
  split at hstep
  next hinner =>
    cases hstep
    have hne : state.inner ≠ .uncalled none := by rw [hinner]; exact fun h => nomatch h
    have hdelegated := hcore.delegated
    rw [hinner] at hdelegated
    refine ⟨?_, hreached.later hne rfl rfl (subset_cons_self _ _)⟩
    exact { hcore with
      justified := ⟨trivial, hcore.justified⟩
      granted := fun _ => hcore.granted hne
      idle := fun _ => hcore.idle (by rw [hinner]; rfl)
      running := fun _ _ _ h => nomatch h
      delegated := by
        rw [State.record, countP_cons, hdelegated]
        rfl }
  next listeners hinner =>
    cases hstep
    have hne : state.inner ≠ .uncalled none := by rw [hinner]; exact fun h => nomatch h
    have hdelegated := hcore.delegated
    rw [hinner] at hdelegated
    refine ⟨?_, hreached.later hne rfl rfl (List.Subset.refl _)⟩
    exact { hcore with
      granted := fun _ => hcore.granted hne
      idle := fun _ => hcore.idle (by rw [hinner]; rfl)
      running := fun _ _ _ h => nomatch h
      delegated := hdelegated }
  · cases hstep

theorem step_keeps (hreached : Reached state) {action : Action Message}
    (hstep : step print state action = some next) : Core print input next ∧ Reached next := by
  cases action with
  | turn world =>
    simp only [step] at hstep
    split at hstep
    · cases hstep
      exact ⟨hcore.congr rfl rfl rfl rfl rfl rfl, hreached.congr rfl rfl rfl⟩
    · cases hstep
  | setSignal signal | deferContext message | concludeTurn =>
    cases hstep
    exact ⟨hcore.congr rfl rfl rfl rfl rfl rfl, hreached.congr rfl rfl rfl⟩
  | preReturns authored content =>
    cases hstage : state.stage with
    | preExecute listeners => exact preReturns_keeps hcore hstage hreached hstep
    | _ => simp [step, hstage] at hstep
  | approvalReturns outcome =>
    cases hstage : state.stage with
    | approving => exact approvalReturns_keeps hcore hstage hreached hstep
    | _ => simp [step, hstage] at hstep
  | guardsAnswer answers =>
    cases hstage : state.stage with
    | guarding denyReason cancelled =>
      simp only [step, hstage, some.injEq] at hstep
      subst hstep
      exact hcore.gate hstage hreached answers
    | _ => simp [step, hstage] at hstep
  | delegate => exact delegate_keeps hcore hreached hstep
  | pollInner =>
    cases hinner : state.inner with
    | called =>
      simp only [step, hinner, some.injEq] at hstep
      subst hstep
      have hne : state.inner ≠ .uncalled none := by rw [hinner]; exact fun h => nomatch h
      refine ⟨hcore.dispatchToolBody hinner, hreached.later hne ?_ ?_ ?_⟩
      all_goals
        unfold State.dispatchToolBody
        dsimp only
      · split
        · rfl
        · split <;> rfl
      · split
        · rfl
        · split <;> rfl
      · split
        · exact List.Subset.refl _
        · split
          · exact List.Subset.refl _
          · exact subset_cons_self _ _
    | _ => simp [step, hinner] at hstep
  | bodyReturns outcome =>
    cases hinner : state.inner with
    | body tool fused wrapper =>
      simp only [step, hinner, some.injEq] at hstep
      subst hstep
      have hne : state.inner ≠ .uncalled none := by rw [hinner]; exact fun h => nomatch h
      exact ⟨hcore.settleBody hinner outcome,
        hreached.later hne rfl rfl (List.Subset.refl _)⟩
    | _ => simp [step, hinner] at hstep
  | aroundReturns authored content =>
    cases hstage : state.stage with
    | around listeners =>
      simp only [step, hstage] at hstep
      obtain ⟨outcome, -, rfl⟩ := map_eq_some_iff.mp hstep
      exact hcore.settleDispatch outcome content
    | _ => simp [step, hstage] at hstep
  | postReturns authored content =>
    cases hstage : state.stage with
    | postExecute listeners result =>
      rw [Reached, hstage] at hreached
      simp only [step, hstage] at hstep
      obtain ⟨decision, -, rfl⟩ := map_eq_some_iff.mp hstep
      exact hcore.finalize hreached decision content
    | _ => simp [step, hstage] at hstep

end

theorem execute_keeps (world : World) (content : Option (List ContentBlock)) :
    Core print input (@execute Message input world content) ∧
      Reached (@execute Message input world content) := by
  unfold execute
  dsimp only
  have hcore : ∀ exec : ToolExecution Message, exec.name = input.name → exec.agent = input.agent →
      exec.callerSignal = input.signal → exec.bodyInvoked = false →
      Core print input
        { exec, world, stage := .preExecute world.preListeners, inner := .uncalled none,
          log := [] } := by
    intro exec hname hagent hcaller hbody
    exact {
      name := hname
      agent := hagent
      caller := hcaller
      justified := trivial
      granted := fun h => absurd rfl h
      idle := fun _ => hbody
      running := fun _ _ _ h => nomatch h
      delegated := rfl
      invoked := by
        rw [hbody]
        rfl }
  split
  · exact ⟨(hcore _ rfl rfl rfl rfl).finish (presentable_of_isError rfl) content, _,
      mem_cons_self⟩
  · exact ⟨hcore _ rfl rfl rfl rfl, rfl, rfl⟩

end Invariant

section Codes

variable {print : Value → String} {input : ToolExecutionInput} {state next : State Message}
  {code : String}

def Stage.pastGate : Stage Message → Bool
  | .around _ | .postExecute .. | .finished _ => true
  | _ => false

/-- The body was not invoked and never will be. -/
def Undispatched (state : State Message) : Prop :=
  state.exec.bodyInvoked = false ∧ (state.inner = .uncalled none ∨
    (∃ result, state.inner = .settled result) ∨ state.exec.callerAborted state.world = true)

def Truth (code : String) (state : State Message) : Prop :=
  (code = TOOL_ABORTED_BEFORE_DISPATCH → Undispatched state) ∧
    (code = TOOL_ABORTED → state.exec.bodyInvoked = true)

theorem truth_of_other (hbefore : code ≠ TOOL_ABORTED_BEFORE_DISPATCH) (hafter : code ≠ TOOL_ABORTED) :
    Truth code state :=
  ⟨fun h => absurd h hbefore, fun h => absurd h hafter⟩

theorem truth_of_undispatched (hcode : some TOOL_ABORTED_BEFORE_DISPATCH = some code)
    (hundispatched : Undispatched state) : Truth code state := by
  cases hcode
  exact ⟨fun _ => hundispatched, fun h => absurd h (by decide)⟩

theorem truth_of_invoked (hcode : some TOOL_ABORTED = some code)
    (hinvoked : state.exec.bodyInvoked = true) : Truth code state := by
  cases hcode
  exact ⟨fun h => absurd h (by decide), fun _ => hinvoked⟩

/-- The codes on the results at hand are true. -/
structure Marked (code : String) (state : State Message) : Prop where
  inner : ∀ result, state.inner = .settled result → result.code = some code → Truth code state
  post : ∀ listeners result, state.stage = .postExecute listeners result →
    result.code = some code → Truth code state
  finished : ∀ result, state.stage = .finished result → result.code = some code → Truth code state

/-- What a step cannot undo. -/
structure Frame (state next : State Message) : Prop where
  caller : next.exec.callerSignal = state.exec.callerSignal
  aborted : state.world.aborted ⊆ next.world.aborted
  invoked : state.exec.bodyInvoked = true → next.exec.bodyInvoked = true
  invokes : next.exec.bodyInvoked = true → state.exec.bodyInvoked = true ∨
    state.inner = .called ∧ state.exec.callerAborted state.world = false
  settled : ∀ result, state.inner = .settled result → next.inner = .settled result
  uncalled : state.stage.pastGate = true → state.inner = .uncalled none → next.inner = .uncalled none

theorem Frame.truth (hframe : Frame state next) (hpast : state.stage.pastGate = true)
    (htruth : Truth code state) : Truth code next := by
  refine ⟨fun hcode => ?_, fun hcode => hframe.invoked (htruth.2 hcode)⟩
  obtain ⟨hbody, hreason⟩ := htruth.1 hcode
  refine ⟨Bool.eq_false_of_not_eq_true fun hinvoked => ?_, ?_⟩
  · rcases hframe.invokes hinvoked with hbefore | ⟨hcalled, hcaller⟩
    · rw [hbody] at hbefore
      cases hbefore
    · rcases hreason with hinner | ⟨result, hinner⟩ | haborted
      · rw [hcalled] at hinner
        cases hinner
      · rw [hcalled] at hinner
        cases hinner
      · rw [hcaller] at haborted
        cases haborted
  · rcases hreason with hinner | ⟨result, hinner⟩ | haborted
    · exact Or.inl (hframe.uncalled hpast hinner)
    · exact Or.inr (Or.inl ⟨result, hframe.settled result hinner⟩)
    · refine Or.inr (Or.inr ?_)
      rw [ToolExecution.callerAborted, hframe.caller]
      exact AbortSignal.aborted_mono hframe.aborted _ haborted

theorem Frame.of_same (hcaller : next.exec.callerSignal = state.exec.callerSignal)
    (hbody : next.exec.bodyInvoked = state.exec.bodyInvoked)
    (haborted : state.world.aborted ⊆ next.world.aborted) (hinner : next.inner = state.inner) :
    Frame state next where
  caller := hcaller
  aborted := haborted
  invoked h := hbody.trans h
  invokes h := Or.inl (hbody.symm.trans h)
  settled _ h := hinner.trans h
  uncalled _ h := hinner.trans h

theorem Reached.pastGate (hreached : Reached state) (hinner : state.inner ≠ .uncalled none) :
    state.stage.pastGate = true := by
  unfold Reached at hreached
  cases hstage : state.stage with
  | preExecute listeners | approving | guarding denyReason cancelled =>
    rw [hstage] at hreached
    exact absurd hreached.1 hinner
  | around listeners | postExecute listeners result | finished result => rfl

theorem Frame.marked (hframe : Frame state next) (hreached : Reached state)
    (hmarked : Marked code state) (hstage : next.stage = state.stage)
    (hinner : ∀ result, next.inner = .settled result → result.code = some code →
      state.inner = .settled result ∨ Truth code next) : Marked code next where
  inner result hresult hcode := by
    rcases hinner result hresult hcode with hsame | htruth
    · have hne : state.inner ≠ .uncalled none := by rw [hsame]; exact fun h => nomatch h
      exact hframe.truth (hreached.pastGate hne) (hmarked.inner result hsame hcode)
    · exact htruth
  post listeners result hresult hcode := by
    rw [hstage] at hresult
    exact hframe.truth (by rw [hresult]; rfl) (hmarked.post listeners result hresult hcode)
  finished result hresult hcode := by
    rw [hstage] at hresult
    exact hframe.truth (by rw [hresult]; rfl) (hmarked.finished result hresult hcode)

theorem marked_of_stage {result : ToolExecutionResult Message}
    (hstage : (∃ listeners,
    next.stage = .postExecute listeners result) ∨ next.stage = .finished result)
    (hinner : ∀ result, next.inner = .settled result → result.code = some code → Truth code next)
    (htruth : result.code = some code → Truth code next) : Marked code next where
  inner := hinner
  post listeners other hother hcode := by
    rcases hstage with ⟨_, hstage⟩ | hstage
    · rw [hstage] at hother
      cases hother
      exact htruth hcode
    · rw [hstage] at hother
      cases hother
  finished other hother hcode := by
    rcases hstage with ⟨_, hstage⟩ | hstage
    · rw [hstage] at hother
      cases hother
    · rw [hstage] at hother
      cases hother
      exact htruth hcode

theorem marked_of_none (hstage : next.stage.pastGate = false)
    (hinner : ∀ result, next.inner ≠ .settled result) : Marked code next where
  inner result hresult := absurd hresult (hinner result)
  post listeners result hresult := by
    rw [hresult] at hstage
    cases hstage
  finished result hresult := by
    rw [hresult] at hstage
    cases hstage

def ToolError.Plain (error : ToolError) : Prop :=
  error.kind = .toolNotFound ∨ error.kind = .toolOutput ∨ error.kind = .other

theorem truth_of_plain {error : ToolError} (hplain : error.Plain)
    (hcode : (toolErrorResult error : ToolExecutionResult Message).code = some code) :
    Truth code state := by
  rw [toolErrorResult, ToolExecutionResult.code, errorInfo] at hcode
  rcases hplain with hkind | hkind | hkind
  · rw [hkind] at hcode
    cases hcode
    exact truth_of_other (by decide) (by decide)
  · rw [hkind] at hcode
    cases hcode
    exact truth_of_other (by decide) (by decide)
  · rw [hkind] at hcode
    cases hcode

theorem createSuccessResult_code (print : Value → String) (exec : ToolExecution Message)
    (tool : ToolDefinition) (value : Value) :
    (∀ error, exec.createSuccessResult print tool value = .error error → error.Plain) ∧
      ∀ result, exec.createSuccessResult print tool value = .ok result → result.code = none := by
  constructor
  · intro error herror
    refine Or.inr (Or.inl ?_)
    unfold ToolExecution.createSuccessResult at herror
    split at herror
    · cases hrender : tool.output.render exec.arguments value with
      | error failed =>
        rw [hrender] at herror
        cases herror
        rfl
      | ok content =>
        rw [hrender] at herror
        cases hmeta : exec.presentation tool value with
        | error failed =>
          rw [hmeta] at herror
          cases herror
          unfold ToolExecution.presentation at hmeta
          split at hmeta
          next project _ _ =>
            cases hproject : project exec.arguments value with
            | error raised =>
              rw [hproject] at hmeta
              cases hmeta
              rfl
            | ok metadata =>
              rw [hproject] at hmeta
              cases hmeta
          · cases hmeta
        | ok metadata =>
          rw [hmeta] at herror
          cases herror
    · cases herror
      rfl
  · intro result hresult
    obtain ⟨-, hvalue⟩ := createSuccessResult_ok print hresult
    cases result with
    | success value content metadata contexts concludes => rfl
    | failure error content metadata contexts => cases hvalue

theorem normalizeDispatchResult_code (print : Value → String) (exec : ToolExecution Message)
    (world : World) (result : ToolExecutionResult Message) :
    (∀ error, exec.normalizeDispatchResult world print result = .error error → error.Plain) ∧
      ∀ normalized, exec.normalizeDispatchResult world print result = .ok normalized →
        normalized.code = result.code := by
  cases result with
  | failure error content metadata contexts =>
    exact ⟨fun _ h => (nomatch h), fun _ h => by cases h; rfl⟩
  | success value content metadata contexts concludes =>
    rw [ToolExecution.normalizeDispatchResult]
    cases exec.visible world with
    | none => exact ⟨fun _ h => by cases h; exact Or.inl rfl, fun _ h => (nomatch h)⟩
    | some tool =>
      dsimp only
      obtain ⟨hplain, hnone⟩ := createSuccessResult_code print exec tool value
      cases hcreated : exec.createSuccessResult print tool value with
      | error error =>
        exact ⟨fun _ h => by cases h; exact hplain error hcreated, fun _ h => (nomatch h)⟩
      | ok created =>
        refine ⟨fun _ h => (nomatch h), fun _ h => ?_⟩
        cases h
        rw [code_withAdditionalContexts, hnone created hcreated]
        rfl

theorem applyDecision_code (print : Value → String) (exec : ToolExecution Message) (world : World)
    (result : ToolExecutionResult Message) (decision : PostToolDecision Message) :
    (∀ error, exec.applyDecision world print result decision = .error error → error.Plain) ∧
      ∀ after, exec.applyDecision world print result decision = .ok after →
        after.code = none ∨ after.code = result.code := by
  cases decision with
  | block feedback contexts => exact ⟨fun _ h => (nomatch h), fun _ h => by cases h; exact Or.inl rfl⟩
  | accept replace contexts =>
    unfold ToolExecution.applyDecision
    dsimp only
    split
    · refine ⟨fun _ h => (nomatch h), fun _ h => Or.inr ?_⟩
      cases h
      rw [code_withAdditionalContexts]
    next content =>
      refine ⟨fun _ h => (nomatch h), fun _ h => Or.inr ?_⟩
      cases h
      rw [code_withAdditionalContexts, code_withContent]
    next value =>
      split
      · exact ⟨fun _ h => by cases h; exact Or.inr (Or.inr rfl), fun _ h => (nomatch h)⟩
      · cases exec.visible world with
        | none => exact ⟨fun _ h => by cases h; exact Or.inl rfl, fun _ h => (nomatch h)⟩
        | some tool =>
          dsimp only
          obtain ⟨hplain, hnone⟩ := createSuccessResult_code print exec tool value
          cases hcreated : exec.createSuccessResult print tool value with
          | error error =>
            exact ⟨fun _ h => by cases h; exact hplain error hcreated, fun _ h => (nomatch h)⟩
          | ok created =>
            refine ⟨fun _ h => (nomatch h), fun _ h => Or.inl ?_⟩
            cases h
            rw [code_withAdditionalContexts, hnone created hcreated]

theorem truth_of_cancellation {prior : Option (ToolExecutionResult Message)}
    (haborted : state.exec.callerAborted state.world = true)
    (hcode : (state.exec.cancellationResult prior).code = some code) : Truth code state := by
  unfold ToolExecution.cancellationResult at hcode
  split at hcode
  next hinvoked => exact truth_of_invoked hcode hinvoked
  next hinvoked =>
    exact truth_of_undispatched hcode
      ⟨Bool.eq_false_of_not_eq_true hinvoked, Or.inr (Or.inr haborted)⟩

theorem truth_of_cancellable {held : ToolExecutionResult Message}
    (hheld : held.code = some code → Truth code state)
    (hcode : (if state.exec.callerAborted state.world = true ∧ ¬ held.isError = true then
      state.exec.cancellationResult (some held) else held).code = some code) : Truth code state := by
  split at hcode
  next haborted => exact truth_of_cancellation haborted.1 hcode
  · exact hheld hcode

section
variable
    (hinner : ∀ settled, state.inner = .settled settled → settled.code = some code → Truth code state)
include hinner

theorem marked_finish {result : ToolExecutionResult Message}
    (htruth : result.code = some code → Truth code state) (content : Option (List ContentBlock)) :
    Marked code (state.finish result content) := by
  have hsame : ∃ finalized : ToolExecutionResult Message, finalized.code = result.code ∧
      (state.finish result content).stage = .finished finalized := by
    unfold State.finish
    refine ⟨_, ?_, rfl⟩
    split
    · exact code_withContent _ _
    · rfl
  obtain ⟨finalized, hcode, hstage⟩ := hsame
  exact marked_of_stage (Or.inr hstage) hinner fun h => htruth (hcode.symm.trans h)

theorem marked_post {result : ToolExecutionResult Message}
    (htruth : result.code = some code → Truth code state) : Marked code (state.post result) :=
  marked_of_stage (Or.inl ⟨_, rfl⟩) hinner htruth

end

/-- The results of the inner dispatch stay true when the stage gets a result. -/
theorem Marked.settled (hmarked : Marked code state) : ∀ settled : ToolExecutionResult Message,
    state.inner = .settled settled → settled.code = some code → Truth code state :=
  hmarked.inner

theorem recordNormalized_same (state : State Message) (result : ToolExecutionResult Message) :
    (state.recordNormalized result).exec = state.exec ∧
      (state.recordNormalized result).world = state.world ∧
      (state.recordNormalized result).inner = state.inner := by
  unfold State.recordNormalized
  split
  · exact ⟨rfl, rfl, rfl⟩
  · split <;> exact ⟨rfl, rfl, rfl⟩

theorem truth_recordNormalized (state : State Message) (result : ToolExecutionResult Message) :
    Truth code (state.recordNormalized result) ↔ Truth code state := by
  obtain ⟨hexec, hworld, hinner⟩ := recordNormalized_same state result
  unfold Truth Undispatched
  rw [hexec, hworld, hinner]

section
variable (hmarked : Marked code state)
include hmarked

theorem settled_recordNormalized (result : ToolExecutionResult Message)
    (settled : ToolExecutionResult Message)
    (hsettled : (state.recordNormalized result).inner = .settled settled)
    (hcode : settled.code = some code) : Truth code (state.recordNormalized result) := by
  rw [(recordNormalized_same state result).2.2] at hsettled
  exact (truth_recordNormalized state result).mpr (hmarked.inner settled hsettled hcode)

theorem settleDispatch_marked {outcome : Except ToolError (ToolExecutionResult Message)}
    (herror : ∀ error, outcome = .error error →
      (errorInfo error).map ToolErrorInfo.code ≠ some code)
    (hresult : ∀ result, outcome = .ok result → result.code = some code → Truth code state)
    (content : Option (List ContentBlock)) :
    Marked code (state.settleDispatch print outcome content) := by
  unfold State.settleDispatch
  split
  next error hfailed =>
    refine marked_finish hmarked.settled (fun hcode => ?_) content
    cases outcome with
    | error raised =>
      cases hfailed
      exact absurd hcode (herror _ rfl)
    | ok result =>
      exact truth_of_plain ((normalizeDispatchResult_code print _ _ result).1 error hfailed) hcode
  next normalized hnormalized =>
    refine marked_post (settled_recordNormalized hmarked normalized) fun hcode =>
      (truth_recordNormalized state normalized).mpr (truth_of_cancellable (fun hcode => ?_) hcode)
    cases outcome with
    | error error => cases hnormalized
    | ok result =>
      refine hresult result rfl ?_
      rw [← (normalizeDispatchResult_code print _ _ result).2 normalized hnormalized, ← hcode]
      split
      · rfl
      · exact (code_withAdditionalContexts _ _).symm

theorem finalize_marked {before : ToolExecutionResult Message}
    (hbefore : before.code = some code → Truth code state)
    {decision : Except ToolError (PostToolDecision Message)}
    (herror : ∀ error, decision = .error error →
      (errorInfo error).map ToolErrorInfo.code ≠ some code) (content : Option (List ContentBlock)) :
    Marked code (state.finalize print before decision content) := by
  unfold State.finalize
  dsimp only
  generalize houtcome : decision.bind (state.exec.applyDecision state.world print before) = outcome
  have hposted : Marked code (state.record (.posted before outcome)) :=
    ⟨hmarked.inner, hmarked.post, hmarked.finished⟩
  split
  next error =>
    refine marked_finish hposted.settled (fun hcode => ?_) content
    cases decision with
    | error raised =>
      cases houtcome
      exact absurd hcode (herror _ rfl)
    | ok decision =>
      exact truth_of_plain ((applyDecision_code print _ _ before decision).1 error houtcome) hcode
  next after =>
    have htruth : (if state.exec.callerAborted state.world = true ∧ ¬ after.isError = true then
        state.exec.cancellationResult (some after) else after).code = some code →
          Truth code state := by
      refine truth_of_cancellable fun hcode => ?_
      cases decision with
      | error raised => cases houtcome
      | ok decision =>
        rcases (applyDecision_code print _ _ before decision).2 after houtcome with hnone | hsame
        · rw [hnone] at hcode
          cases hcode
        · exact hbefore (hsame.symm.trans hcode)
    split
    · exact marked_finish (settled_recordNormalized hposted after)
        (fun hcode => (truth_recordNormalized _ after).mpr (htruth hcode)) content
    · exact marked_finish hposted.settled htruth content

end

theorem gate_marked (hcore : Core print input state) (hinner : state.inner = .uncalled none)
    (denyReason : Option String) (cancelled : Bool) (answers : Nat → Option String) :
    Marked code (state.gate denyReason cancelled answers) := by
  have hbody : state.exec.bodyInvoked = false := hcore.idle (by rw [hinner]; rfl)
  have hcancelled : ∀ asked : State Message, asked.exec = state.exec → asked.inner = state.inner →
      Marked code (asked.post (toolAbortedBeforeDispatchResult none)) := by
    intro asked hexec hsame
    have hasked : Undispatched asked := ⟨by rw [hexec, hbody], Or.inl (hsame.trans hinner)⟩
    refine marked_post (fun settled hsettled => ?_) fun hcode => truth_of_undispatched hcode hasked
    rw [hsame, hinner] at hsettled
    cases hsettled
  have hdenied : ∀ (asked : State Message) (reason : String), asked.inner = state.inner →
      Marked code (asked.post (.failure ⟨reason, none⟩ [.text ("Error: " ++ reason)] none [])) := by
    intro asked reason hsame
    refine marked_post (fun settled hsettled => ?_) fun hcode => nomatch hcode
    rw [hsame, hinner] at hsettled
    cases hsettled
  unfold State.gate
  split
  · exact hcancelled _ rfl rfl
  · cases denyReason with
    | some reason => exact hdenied _ _ rfl
    | none =>
      dsimp only
      split
      · exact hdenied _ _ rfl
      · split
        · exact hcancelled _ rfl rfl
        · unfold State.dispatch
          split
          · exact ⟨fun _ h => (nomatch h), fun _ _ h => (nomatch h), fun _ h => (nomatch h)⟩
          · exact ⟨fun _ h => (nomatch h), fun _ _ h => (nomatch h), fun _ h => (nomatch h)⟩

theorem preReturns_marked (hinner : state.inner = .uncalled none)
    {authored : Option (Except ToolError PreToolDecision)} {content : Option (List ContentBlock)}
    (hauthors : ¬ Authors code state (.preReturns authored content))
    (hstep : step print state (.preReturns authored content) = some next) : Marked code next := by
  cases hstage : state.stage with
  | preExecute listeners =>
    simp only [step, hstage] at hstep
    obtain ⟨outcome, houtcome, rfl⟩ := map_eq_some_iff.mp hstep
    have hsettled : ∀ settled : ToolExecutionResult Message, state.inner ≠ .settled settled := by
      intro settled hsettled
      rw [hinner] at hsettled
      cases hsettled
    cases outcome with
    | error error =>
      have hauthored : authored = some (.error error) := by
        unfold waterfall at houtcome
        split at houtcome
        next outcome =>
          split at houtcome
          · cases houtcome
          · rw [Option.some.inj houtcome]
        · cases houtcome
      subst hauthored
      dsimp only
      refine marked_finish ?_ ?_ content
      · exact fun settled h => absurd h (hsettled settled)
      · exact fun hcode => absurd hcode hauthors
    | ok decision =>
      cases decision with
      | allow | deny reason => exact marked_of_none rfl hsettled
      | ask reason =>
        dsimp only
        unfold State.serviceAsk
        split
        · exact marked_of_none rfl hsettled
        · split <;> exact marked_of_none rfl hsettled
  | _ => simp [step, hstage] at hstep

section
variable (hcore : Core print input state) (hreached : Reached state) (hmarked : Marked code state)
include hcore hreached hmarked

theorem pollInner_marked (hinner : state.inner = .called) : Marked code state.dispatchToolBody := by
  have hbody : state.exec.bodyInvoked = false := hcore.idle (by rw [hinner]; rfl)
  have hpast := hreached.pastGate (by rw [hinner]; exact fun h => nomatch h)
  have hsettled : ∀ result : ToolExecutionResult Message,
      (result.code = some code → Undispatched { state with inner := .settled result } →
        Truth code { state with inner := .settled result }) →
      Marked code { state with inner := .settled result } := by
    intro result htruth
    have hframe : Frame state { state with inner := .settled result } := {
      caller := rfl
      aborted := List.Subset.refl _
      invoked := id
      invokes := Or.inl
      settled := fun other h => by
        rw [hinner] at h
        cases h
      uncalled := fun _ h => by
        rw [hinner] at h
        cases h }
    refine hframe.marked hreached hmarked rfl fun other hother hcode => Or.inr ?_
    cases hother
    exact htruth hcode ⟨hbody, Or.inr (Or.inl ⟨_, rfl⟩)⟩
  unfold State.dispatchToolBody
  dsimp only
  split
  · exact hsettled _ truth_of_undispatched
  next hfused =>
    split
    · exact hsettled _ fun hcode _ => truth_of_plain (Or.inl rfl) hcode
    next tool _ =>
      have hcaller : state.exec.callerAborted state.world = false :=
        Bool.eq_false_of_not_eq_true fun h => hfused (AbortSignal.any_caller h)
      have hframe : Frame state { state with
          exec := { state.exec with
            signal := AbortSignal.any [state.exec.callerSignal, state.exec.signal]
            bodyInvoked := true }
          inner := .body tool (AbortSignal.any [state.exec.callerSignal, state.exec.signal])
            state.exec.signal
          log := .invoked state.world tool :: state.log } := {
        caller := rfl
        aborted := List.Subset.refl _
        invoked := fun _ => rfl
        invokes := fun _ => Or.inr ⟨hinner, hcaller⟩
        settled := fun other h => by
          rw [hinner] at h
          cases h
        uncalled := fun _ h => by
          rw [hinner] at h
          cases h }
      exact hframe.marked hreached hmarked rfl fun _ h => nomatch h

theorem bodyReturns_marked {tool : ToolDefinition} {fused wrapper : AbortSignal}
    (hinner : state.inner = .body tool fused wrapper) {outcome : Except ToolError Value}
    (hauthors : ¬ Authors code state (.bodyReturns outcome)) :
    Marked code (state.settleBody print tool fused wrapper outcome) := by
  have hbody := hcore.running tool fused wrapper hinner
  have hframe : Frame state (state.settleBody print tool fused wrapper outcome) := {
    caller := rfl
    aborted := List.Subset.refl _
    invoked := id
    invokes := Or.inl
    settled := fun other h => by
      rw [hinner] at h
      cases h
    uncalled := fun _ h => by
      rw [hinner] at h
      cases h }
  refine hframe.marked hreached hmarked rfl fun result hresult hcode => Or.inr ?_
  have hresult := Inner.settled.inj hresult
  subst hresult
  refine ⟨fun hbefore => ?_, fun _ => hbody⟩
  subst hbefore
  have htruth : ∀ truth : State Message, Truth TOOL_ABORTED_BEFORE_DISPATCH truth →
    Undispatched truth :=
    fun truth h => h.1 rfl
  refine htruth _ ?_
  generalize houtcome : outcome.bind (state.exec.createSuccessResult print tool) = created at hcode
  cases created with
  | error error =>
    cases outcome with
    | error raised =>
      cases houtcome
      exact absurd ⟨rfl, hcode⟩ hauthors
    | ok value => exact truth_of_plain ((createSuccessResult_code print _ tool value).1 error houtcome) hcode
  | ok result =>
    dsimp only at hcode
    split at hcode
    · exact absurd (Option.some.inj hcode) (by decide)
    · cases outcome with
      | error raised => cases houtcome
      | ok value =>
        rw [(createSuccessResult_code print _ tool value).2 result houtcome] at hcode
        cases hcode

theorem step_marked {action : Action Message} (hauthors : ¬ Authors code state action)
    (hstep : step print state action = some next) : Marked code next := by
  cases action with
  | turn world =>
    simp only [step] at hstep
    split at hstep
    next haborted =>
      cases hstep
      have hframe : Frame state { state with world } := .of_same rfl rfl haborted rfl
      exact hframe.marked hreached hmarked rfl fun _ h _ => Or.inl h
    · cases hstep
  | setSignal signal =>
    cases hstep
    have hframe : Frame state { state with exec := { state.exec with signal } } :=
      .of_same rfl rfl (List.Subset.refl _) rfl
    exact hframe.marked hreached hmarked rfl fun _ h _ => Or.inl h
  | deferContext message =>
    cases hstep
    have hframe : Frame state { state with exec := { state.exec with
        deferredContexts := state.exec.deferredContexts ++ [message] } } :=
      .of_same rfl rfl (List.Subset.refl _) rfl
    exact hframe.marked hreached hmarked rfl fun _ h _ => Or.inl h
  | concludeTurn =>
    cases hstep
    have hframe : Frame state { state with exec := { state.exec with concludes := true } } :=
      .of_same rfl rfl (List.Subset.refl _) rfl
    exact hframe.marked hreached hmarked rfl fun _ h _ => Or.inl h
  | preReturns authored content =>
    have hinner : state.inner = .uncalled none := by
      cases hstage : state.stage with
      | preExecute listeners =>
        rw [Reached, hstage] at hreached
        exact hreached.1
      | _ => simp [step, hstage] at hstep
    exact preReturns_marked hinner hauthors hstep
  | approvalReturns outcome =>
    cases hstage : state.stage with
    | approving =>
      rw [Reached, hstage] at hreached
      simp only [step, hstage, some.injEq] at hstep
      subst hstep
      refine marked_of_none rfl fun settled (hsettled : state.inner = _) => ?_
      rw [hreached.1] at hsettled
      cases hsettled
    | _ => simp [step, hstage] at hstep
  | guardsAnswer answers =>
    cases hstage : state.stage with
    | guarding denyReason cancelled =>
      rw [Reached, hstage] at hreached
      simp only [step, hstage, some.injEq] at hstep
      subst hstep
      exact gate_marked hcore hreached.1 denyReason cancelled answers
    | _ => simp [step, hstage] at hstep
  | delegate =>
    simp only [step] at hstep
    have hkeeps : ∀ delegated : State Message, delegated.exec = state.exec →
        delegated.world = state.world → delegated.stage = state.stage →
        (∃ listeners, state.inner = .uncalled (some listeners)) →
        (∀ settled, delegated.inner ≠ .settled settled) → Marked code delegated := by
      rintro delegated hexec hworld hstage ⟨listeners, hinner⟩ hnone
      have hframe : Frame state delegated := {
        caller := by rw [hexec]
        aborted := by
          rw [hworld]
          exact List.Subset.refl _
        invoked := fun h => by
          rw [hexec]
          exact h
        invokes := fun h => Or.inl (by rwa [hexec] at h)
        settled := fun other h => by
          rw [hinner] at h
          cases h
        uncalled := fun _ h => by
          rw [hinner] at h
          cases h }
      exact hframe.marked hreached hmarked hstage fun settled h => absurd h (hnone settled)
    split at hstep
    next hinner =>
      cases hstep
      exact hkeeps _ rfl rfl rfl ⟨_, hinner⟩ fun _ h => nomatch h
    next listeners hinner =>
      cases hstep
      exact hkeeps _ rfl rfl rfl ⟨_, hinner⟩ fun _ h => nomatch h
    · cases hstep
  | pollInner =>
    cases hinner : state.inner with
    | called =>
      simp only [step, hinner, some.injEq] at hstep
      subst hstep
      exact pollInner_marked hcore hreached hmarked hinner
    | _ => simp [step, hinner] at hstep
  | bodyReturns outcome =>
    cases hinner : state.inner with
    | body tool fused wrapper =>
      simp only [step, hinner, some.injEq] at hstep
      subst hstep
      exact bodyReturns_marked hcore hreached hmarked hinner hauthors
    | _ => simp [step, hinner] at hstep
  | aroundReturns authored content =>
    cases hstage : state.stage with
    | around listeners =>
      simp only [step, hstage] at hstep
      obtain ⟨outcome, houtcome, rfl⟩ := map_eq_some_iff.mp hstep
      have hcases : authored = some outcome ∨
          ∃ settled, state.inner = .settled settled ∧ outcome = .ok settled := by
        unfold waterfall at houtcome
        split at houtcome
        · split at houtcome <;> simp_all
        · split at houtcome
          next settled hinner => exact Or.inr ⟨settled, hinner, (Option.some.inj houtcome).symm⟩
          · cases houtcome
      refine settleDispatch_marked hmarked (fun error herror hcode => ?_)
        (fun result hresult hcode => ?_) content
      · subst herror
        rcases hcases with rfl | ⟨settled, -, h⟩
        · exact hauthors hcode
        · cases h
      · subst hresult
        rcases hcases with rfl | ⟨settled, hinner, h⟩
        · by_contra hfalse
          exact hauthors ⟨hcode, fun settled hinner hsettled =>
            hfalse (hmarked.inner settled hinner hsettled)⟩
        · cases h
          exact hmarked.inner result hinner hcode
    | _ => simp [step, hstage] at hstep
  | postReturns authored content =>
    cases hstage : state.stage with
    | postExecute listeners result =>
      simp only [step, hstage] at hstep
      obtain ⟨decision, hdecision, rfl⟩ := map_eq_some_iff.mp hstep
      refine finalize_marked hmarked (hmarked.post listeners result hstage)
        (fun error herror hcode => ?_) content
      subst herror
      have hauthored : authored = some (.error error) := by
        unfold waterfall at hdecision
        split at hdecision
        · split at hdecision <;> simp_all
        · cases hdecision
      subst hauthored
      exact hauthors hcode
    | _ => simp [step, hstage] at hstep

end

theorem execute_marked (world : World) (content : Option (List ContentBlock)) :
    Marked code (@execute Message input world content) := by
  unfold execute
  dsimp only
  split
  · refine marked_finish ?_ ?_ content
    · exact fun _ h => nomatch h
    · exact fun hcode => truth_of_undispatched hcode ⟨rfl, Or.inl rfl⟩
  · exact marked_of_none rfl fun _ h => nomatch h

end Codes

section Pipeline

variable {log : List (Event Message)}

theorem lastNormalized_mem {visible : World} {tool : ToolDefinition}
    {value : Value} (hlast : lastNormalized log = some (visible, tool, value)) :
    .normalized visible tool value ∈ log := by
  induction log with
  | nil => cases hlast
  | cons event before ih =>
    cases event with
    | normalized _ _ _ =>
      cases hlast
      exact mem_cons_self
    | _ => exact mem_cons_of_mem _ (ih hlast)

theorem Justified.sound {print : Value → String} {input : ToolExecutionInput}
    (hjustified : Justified print input log) {event : Event Message} (hevent : event ∈ log) :
    ∃ before, before ⊆ log ∧ Justified print input before ∧ Sound print input before event := by
  induction log with
  | nil => cases hevent
  | cons first before ih =>
    rcases mem_cons.mp hevent with rfl | hmem
    · exact ⟨before, subset_cons_self _ _, hjustified.2, hjustified.1⟩
    · obtain ⟨earlier, hsubset, hrest⟩ := ih hjustified.2 hmem
      exact ⟨earlier, subset_cons_of_subset _ hsubset, hrest⟩

theorem sound_of_finished {print : Value → String} {input : ToolExecutionInput}
    (hjustified : Justified print input log) {last : World}
    {result : ToolExecutionResult Message} (hfinished : .finished last result ∈ log) (value : Value)
    (hvalue : result.value = some value) :
    (∃ visible tool, .normalized visible tool value ∈ log ∧
      visible.registry.get input.name (agentScope input.agent) = some tool ∧
      validateJsonSchemaValue print tool.output.schema value "value" = []) ∧
    input.signal.aborted last.aborted = false := by
  obtain ⟨before, hsubset, hbefore, hsound⟩ := hjustified.sound hfinished
  cases result with
  | failure error content metadata contexts => cases hvalue
  | success found content metadata contexts concludes =>
    cases hvalue
    obtain ⟨⟨visible, tool, hlast⟩, haborted⟩ := hsound value content metadata contexts concludes rfl
    have hmem := lastNormalized_mem hlast
    obtain ⟨earlier, -, -, hvisible, hvalid⟩ := hbefore.sound hmem
    exact ⟨⟨visible, tool, hsubset hmem, hvisible, hvalid⟩, haborted⟩

variable (print : Value → String) (input : ToolExecutionInput) (world : World)
  (content : Option (List ContentBlock))

/-- What is known of a call at any time. -/
def Known (state : State Message) : Prop := Core print input state ∧ Reached state

def KnownMarked (code : String) (state : State Message) : Prop :=
  Known print input state ∧ Marked code state

def OwnCodes (code : String) (actions : List (Action Message)) : Prop :=
  Trace.Guarded (step print) (fun state action => ¬ Authors code state action)
    (execute input world content) actions

/-- Along every run of a call: the body is invoked once at most, when the innermost `next` was
called, and every event is sound. A returned success has a value that passed the output contract
of a visible tool, and its caller had not aborted when the call was finished. A returned
cancellation code that the run does not author says whether the body was invoked. -/
theorem execute_fail_closed (actions : List (Action Message)) (state : State Message)
    (hrun : Trace.run (step print) (execute input world content) actions = some state) :
    (state.log.countP Event.isInvoked ≤ state.log.countP Event.isDelegated ∧
      state.log.countP Event.isDelegated ≤ 1) ∧
    Justified print input state.log ∧
    ∀ result, state.stage = .finished result →
      (∀ value, result.value = some value →
        (∃ visible tool, .normalized visible tool value ∈ state.log ∧
          visible.registry.get input.name (agentScope input.agent) = some tool ∧
          validateJsonSchemaValue print tool.output.schema value "value" = []) ∧
        ∃ last, .finished last result ∈ state.log ∧ input.signal.aborted last.aborted = false) ∧
      (OwnCodes print input world content TOOL_ABORTED_BEFORE_DISPATCH actions →
        result.code = some TOOL_ABORTED_BEFORE_DISPATCH →
          state.log.countP Event.isInvoked = 0) ∧
      (OwnCodes print input world content TOOL_ABORTED actions →
        result.code = some TOOL_ABORTED → state.log.countP Event.isInvoked = 1) := by
  have hknown : Known print input state := Trace.run_invariant
    (fun _ _ _ hknown hstep => step_keeps hknown.1 hknown.2 hstep) (execute_keeps world content) hrun
  obtain ⟨hcore, hreached⟩ := hknown
  have hmarked : ∀ code, OwnCodes print input world content code actions → Marked code state := by
    intro code howns
    have hall : KnownMarked print input code state := Trace.guarded_invariant
      (fun _ _ _ hkept hauthors hstep => ⟨step_keeps hkept.1.1 hkept.1.2 hstep,
        step_marked hkept.1.1 hkept.1.2 hkept.2 hauthors hstep⟩)
      ⟨execute_keeps world content, execute_marked world content⟩ howns hrun
    exact hall.2
  refine ⟨⟨?_, ?_⟩, hcore.justified, fun result hresult => ⟨fun value hvalue => ?_,
    fun howns hcode => ?_, fun howns hcode => ?_⟩⟩
  · rw [hcore.invoked, hcore.delegated]
    by_cases hbody : state.exec.bodyInvoked = true
    · rw [hcore.begun hbody]
      split <;> decide
    · rw [if_neg hbody]
      exact Nat.zero_le _
  · rw [hcore.delegated]
    split <;> decide
  · rw [Reached, hresult] at hreached
    obtain ⟨last, hfinished⟩ := hreached
    obtain ⟨⟨visible, tool, hlast⟩, haborted⟩ :=
      sound_of_finished hcore.justified hfinished value hvalue
    exact ⟨⟨visible, tool, hlast⟩, last, hfinished, haborted⟩
  · obtain ⟨hbody, -⟩ := ((hmarked _ howns).finished result hresult hcode).1 rfl
    rw [hcore.invoked, hbody]
    rfl
  · rw [hcore.invoked, ((hmarked _ howns).finished result hresult hcode).2 rfl]
    rfl

/-- A global tool without an output contract. -/
def echo : ToolDefinition :=
  ⟨"echo", "Echo the input.", [], ⟨.object [], fun _ _ => .ok [], none⟩, false, none, none⟩

def echoInput : ToolExecutionInput := ⟨"echo", .null, none, none, .never⟩

/-- A world with that tool and so many around listeners. -/
def echoWorld (aroundListeners : Nat) : World where
  aborted := []
  registry := {
    global := ⟨[("echo", echo)], [], []⟩
    tree := ⟨fun _ => none, fun _ => 0, fun _ _ h => nomatch h⟩
    overlays := fun _ => none }
  approval := false
  preListeners := 0
  aroundListeners
  postListeners := 0

def failingBody : List (Action Unit) :=
  [.preReturns none none, .guardsAnswer fun _ => none, .pollInner,
    .bodyReturns (.error ⟨"no echo", .other⟩), .aroundReturns none none, .postReturns none none]

theorem execute_fail_closed_failing_body :
    ∃ state, Trace.run (step fun _ => "") (execute echoInput (echoWorld 0) none) failingBody =
        some state ∧
      (state.log.countP Event.isInvoked ≤ state.log.countP Event.isDelegated ∧
        state.log.countP Event.isDelegated ≤ 1) ∧
      Justified (fun _ => "") echoInput state.log := by
  obtain ⟨state, hrun⟩ : ∃ state, Trace.run (step fun _ => "")
      (execute echoInput (echoWorld 0) none) failingBody = some state := ⟨_, rfl⟩
  have hsafe := execute_fail_closed _ _ _ _ failingBody state hrun
  exact ⟨state, hrun, hsafe.1, hsafe.2.1⟩

/-- A wrapper authors a failure with the code of an invoked body, and never delegates. -/
def authoredAbort : List (Action Unit) :=
  [.preReturns none none, .guardsAnswer fun _ => none,
    .aroundReturns (some (.ok (toolAbortedResult none))) none, .postReturns none none]

/-- The code alone does not say that the body was invoked. -/
theorem authored_abort_without_body :
    ¬ ∀ (print : Value → String) (input : ToolExecutionInput) (world : World)
      (content : Option (List ContentBlock)) (actions : List (Action Unit)) (state : State Unit)
      (result : ToolExecutionResult Unit),
      Trace.run (step print) (execute input world content) actions = some state →
        state.stage = .finished result →
        (result.code = some TOOL_ABORTED_BEFORE_DISPATCH → state.log.countP Event.isInvoked = 0) ∧
        (result.code = some TOOL_ABORTED → state.log.countP Event.isInvoked = 1) := by
  intro hall
  have hclaim := hall (fun _ => "") echoInput (echoWorld 1) none authoredAbort _ _ rfl rfl
  exact absurd (hclaim.2 rfl) (by decide)

end Pipeline

end Keel.Tools
