import Keel.Engine.Registry
import Keel.Engine.Workflow

/-! # Typed routing at a session boundary

The registry supplies eligible harness and model pairs; a selector answers with one of the
opaque ids it was offered, or abstains. The answer is resolved against the prepared routes
and revalidated against the registry as it is by then.
-/

namespace Keel.JevRouting

open Workflow (PreparedAction TaskState ValidationContext RejectReason)

def maxRoutes : Nat := 16

def maxModelsPerHarness : Nat := 3

def maxLocalRoutes : Nat := 8

structure RouteChoice where
  harness : HarnessId
  model : Option String
deriving DecidableEq

structure RouteDecision where
  choice : Option RouteChoice
  event : Option DecisionEvent

def RouteDecision.skipped : RouteDecision := ⟨none, none⟩

structure PreparedRoute where
  id : String
  choice : RouteChoice
  description : String
  providerName : String
  modelLabel : String
  reasoningLevels : List ReasoningLevel

def option? (request : RunRequest) (key : String) : Option Json :=
  (request.modelOptions.find? fun entry => entry.1 = key).map Prod.snd

def requested (request : RunRequest) : Bool :=
  option? request "jevAuto" == some (.bool true)
    && option? request "jevRouted" != some (.bool true)
    && request.modelOptions.all fun entry => entry.1 == "jevAuto" || entry.1 == "jevRouted"

def reasoningCompatible (requested : Option ReasoningLevel) (offered : List ReasoningLevel) : Bool :=
  requested.all fun level => decide (level ∈ offered)

/-- The registry with the environment that `prepare_routes` reads beside it. -/
structure RegistryState where
  registry : HarnessRegistry
  deepseekApiKey : Option String

def probed (state : RegistryState) (descriptor : HarnessDescriptor) : Bool :=
  descriptor.installed && descriptorEnabled descriptor && descriptor.id != .mock
    && (descriptor.id != .dsh
      || state.deepseekApiKey.any fun key => !(Text.trim key.toList).isEmpty)

/-- Resolve the descriptors in order and list their models. -/
def probe (registry : HarnessRegistry) :
    List HarnessDescriptor → List (HarnessDescriptor × List Model) × HarnessRegistry
  | [] => ([], registry)
  | descriptor :: rest =>
    let (harness, resolved) := registry.resolve descriptor.id
    let (later, final) := probe resolved rest
    match harness.bind Harness.models with
    | some models => ((descriptor, models) :: later, final)
    | none => (later, final)

def routeId (index : Nat) : String := "route_" ++ toString index

def preparedRoute (descriptor : HarnessDescriptor) (model : Model) (index : Nat) : PreparedRoute where
  id := routeId index
  choice := { harness := descriptor.id, model := some model.id }
  description := descriptor.name ++ " coding agent, model " ++ model.label ++ ". "
    ++ model.description.getD ""
  providerName := descriptor.name
  modelLabel := model.label
  reasoningLevels := model.reasoningLevels

/-- One harness's models, until the route limit. -/
def addModels (reasoning : Option ReasoningLevel) (descriptor : HarnessDescriptor) :
    List Model → List PreparedRoute → List PreparedRoute
  | [], routes => routes
  | model :: rest, routes =>
    if maxRoutes ≤ routes.length then routes
    else if reasoningCompatible reasoning model.reasoningLevels then
      addModels reasoning descriptor rest
        (routes ++ [preparedRoute descriptor model routes.length])
    else addModels reasoning descriptor rest routes

def addHarness (reasoning : Option ReasoningLevel) (routes : List PreparedRoute)
    (listing : HarnessDescriptor × List Model) : List PreparedRoute :=
  addModels reasoning listing.1 (listing.2.take maxModelsPerHarness) routes

/-- The routes of a registry, with the registry once its slots are resolved. -/
def prepareRoutes (state : RegistryState) (reasoning : Option ReasoningLevel) :
    List PreparedRoute × HarnessRegistry :=
  let (listings, registry) := probe state.registry (state.registry.descriptors.filter (probed state))
  (listings.foldl (addHarness reasoning) [], registry)

/-- What the fingerprint covers of a route. -/
def routeRow (route : PreparedRoute) :
    String × String × HarnessId × Option String × List ReasoningLevel :=
  (route.id, route.description, route.choice.harness, route.choice.model, route.reasoningLevels)

/-- The two functions under a fingerprint: serialization, which may fail, and the digest. -/
structure Hashing where
  toVec : List (String × String × HarnessId × Option String × List ReasoningLevel) →
    Option (List UInt8)
  sha256 : List UInt8 → String

def routeFingerprint (hashing : Hashing) (routes : List PreparedRoute) : Option String :=
  Workflow.fingerprintOf hashing.toVec hashing.sha256 (routes.map routeRow)

/-- The harnesses of the routes, each once, in the order they first appear. -/
def providers (prepared : List PreparedRoute) : List HarnessId :=
  prepared.foldl (fun known route =>
    if route.choice.harness ∈ known then known else known ++ [route.choice.harness]) []

/-- Each provider's route of the given rank, provider by provider. -/
def rankedRoutes (prepared : List PreparedRoute) (modelIndex : Nat) : List PreparedRoute :=
  (providers prepared).filterMap fun provider =>
    (prepared.filter fun route => route.choice.harness == provider)[modelIndex]?

def compactLocalRoutes (prepared : List PreparedRoute) : List PreparedRoute :=
  ((List.range maxModelsPerHarness).flatMap (rankedRoutes prepared)).take maxLocalRoutes

structure Candidate where
  id : String
  description : String

structure SelectionInput where
  task : String
  context : String
  stateVersion : Nat
  candidates : List Candidate

/-- A selector's answer and what its trace reports. -/
structure SelectorOutcome where
  selectedId : Option String
  fallback : Option String
  confidence : Option F64
  selectedProbability : Option F64
  fit : Option F64

/-- The two backends, each with its selector. The hosted one is built from the app's key
first, which may fail. -/
inductive RouteBackend where
  | localLaya (select : SelectionInput → SelectorOutcome)
  | typeSafeJev (build : Option (SelectionInput → SelectorOutcome))

/-- The readings of the host's clock, in milliseconds. -/
structure Clock where
  task : Int
  action : Nat → Int
  initial : Int
  receipt : Int
  validation : Int

def i64Max : Int := 2 ^ 63 - 1

def saturatingAdd (a b : Int) : Int := min (a + b) i64Max

def prepareAction (state : TaskState) (fingerprint : String) (clock : Clock) (index : Nat)
    (route : PreparedRoute) : PreparedAction RouteChoice where
  id := route.id
  description := route.description
  payload := route.choice
  preparedAtRevision := state.revision
  preconditions := []
  readSetFingerprint := some fingerprint
  expiresAtMs := some (saturatingAdd (clock.action index) 45000)

def takeChars (text : String) (count : Nat) : String := String.ofList (text.toList.take count)

def sandboxName : SandboxLevel → String
  | .readOnly => "ReadOnly"
  | .workspaceWrite => "WorkspaceWrite"
  | .dangerFullAccess => "DangerFullAccess"

def jevInput (request : RunRequest) (revision : Nat) (prepared : List PreparedRoute) :
    SelectionInput where
  task := takeChars request.prompt 6000
  context := "Coding task. Sandbox: " ++ sandboxName request.sandbox ++ ". Image attachments: "
    ++ toString request.attachments.length ++ ". Select one available coding provider/model that "
    ++ "can address the task. The host retains execution and permission authority."
  stateVersion := revision
  candidates := prepared.map fun route => ⟨route.id, route.description⟩

def localSummary (route : PreparedRoute) : String := route.providerName ++ ": " ++ route.modelLabel

def layaInput (request : RunRequest) (revision : Nat) (offered : List PreparedRoute) :
    SelectionInput where
  task := takeChars request.prompt 900
  context := "Choose a coding agent/model. Sandbox " ++ sandboxName request.sandbox ++ "; "
    ++ toString request.attachments.length ++ " attachments. Host enforces permissions."
  stateVersion := revision
  candidates := offered.map fun route => ⟨route.id, takeChars (localSummary route) 90⟩

/-- What a call to a selector gives the receipt. -/
structure Consultation where
  backend : DecisionBackend
  considered : List DecisionCandidate
  outcome : SelectorOutcome

/-- Call the selector; `none` when the hosted one cannot be built. -/
def consult (backend : RouteBackend) (request : RunRequest) (revision : Nat)
    (prepared : List PreparedRoute) : Option Consultation :=
  match backend with
  | .typeSafeJev build =>
    build.map fun select =>
      { backend := .jev
        considered := prepared.map fun route => ⟨route.id, route.description⟩
        outcome := { select (jevInput request revision prepared) with selectedProbability := none } }
  | .localLaya select =>
    let offered := compactLocalRoutes prepared
    some
      { backend := .laya
        considered := offered.map fun route => ⟨route.id, localSummary route⟩
        outcome := { select (layaInput request revision offered) with fit := none } }

/-- The receipt before the answer is validated. -/
def intakeEvent (revision : Nat) (consultation : Consultation) (clock : Clock) : DecisionEvent :=
  let event := DecisionEvent.new ("intake-" ++ toString revision) revision consultation.backend
    .intake consultation.considered
    (match consultation.outcome.selectedId with
      | some candidateId => .selected candidateId
      | none => .abstained)
    .accepted clock.receipt
  let reported := { event with
    confidence := consultation.outcome.confidence
    selectedProbability := consultation.outcome.selectedProbability
    fit := consultation.outcome.fit }.bounded
  match consultation.outcome.fallback with
  | some reason => reported.withFallback reason
  | none => reported

def validationOf : Option RejectReason → DecisionValidation
  | some .expired => .expired
  | some .unauthorized => .unauthorized
  | some .staleReadSet | some .staleRevision => .stale
  | _ => .rejected

/-- No choice: the receipt says why and that the original harness stays. -/
def refused (event : DecisionEvent) (validation : DecisionValidation) (reason : String) :
    RouteDecision where
  choice := none
  event := some <| ({ event with validation }.withFallback reason).withObservedOutcome
    "Original harness retained"

def stillEligible (registry : HarnessRegistry) (choice : RouteChoice) : Bool :=
  registry.descriptors.any fun descriptor =>
    descriptor.id == choice.harness && descriptor.installed && descriptorEnabled descriptor

/-- The chosen model is still listed by the chosen harness with the requested effort. -/
def modelValid (registry : HarnessRegistry) (choice : RouteChoice)
    (reasoning : Option ReasoningLevel) : Bool :=
  let models := (registry.resolve choice.harness).1.bind Harness.models
  (models.bind fun models => models.find? fun model => some model.id == choice.model).any fun model =>
    reasoningCompatible reasoning model.reasoningLevels

/-- Everything after the selector's answer. -/
def resolveAnswer (hashing : Hashing) (clock : Clock) (request : RunRequest) (state : TaskState)
    (actions : List (PreparedAction RouteChoice)) (later : RegistryState)
    (event : DecisionEvent) (selectedId : Option String) : RouteDecision :=
  match selectedId with
  | none => ⟨none, some (event.withObservedOutcome "Original harness retained")⟩
  | some selected =>
    match actions.find? fun action => action.id = selected with
    | none => refused event .rejected "Unknown route ID"
    | some action =>
      let (live, registry) := prepareRoutes later request.reasoning
      match routeFingerprint hashing live with
      | none => refused event .stale "Route catalog unavailable"
      | some liveFingerprint =>
        let validation := Workflow.validateSelected state action selected
          { nowMs := clock.validation
            currentReadSetFingerprint := some liveFingerprint
            authorized := stillEligible registry action.payload }
        if !validation.accepted then
          refused event (validationOf validation.rejection) "Route changed before dispatch"
        else if !modelValid registry action.payload request.reasoning then
          refused event .stale "Selected model unavailable"
        else ⟨some action.payload, some event⟩

/-- The decision, and the marks the activity callback receives around the selector. -/
def chooseWithReport (hashing : Hashing) (clock : Clock) (offered later : RegistryState)
    (request : RunRequest) (backend : RouteBackend) : RouteDecision × List Bool :=
  if !requested request then (.skipped, [])
  else
    let prepared := (prepareRoutes offered request.reasoning).1
    if prepared.isEmpty then (.skipped, [])
    else
      let state := TaskState.new (max clock.task 0).toNat
      match routeFingerprint hashing prepared with
      | none => (.skipped, [])
      | some fingerprint =>
        let actions := prepared.mapIdx (prepareAction state fingerprint clock)
        let initialContext : ValidationContext :=
          { nowMs := clock.initial
            currentReadSetFingerprint := some fingerprint
            authorized := true }
        if !(actions.all fun action => Workflow.eligible state action initialContext) then
          (.skipped, [])
        else
          match consult backend request state.revision prepared with
          | none => (.skipped, [])
          | some consultation =>
            (resolveAnswer hashing clock request state actions later
                (intakeEvent state.revision consultation clock)
                consultation.outcome.selectedId,
              [true, false])

end Keel.JevRouting
