import Keel.Foundation.Text
import Keel.Proto.Json

/-! # Decision receipts

A receipt records one host-owned decision boundary. `bounded` is the transcript
trust boundary: every receipt passes through it before it is folded or stored.
-/

namespace Keel

open Text

inductive DecisionBackend where
  | laya
  | jev
deriving DecidableEq

inductive DecisionPhase where
  | choosing
  | choosingFocus
deriving DecidableEq

structure DecisionActivity where
  backend : DecisionBackend
  phase : DecisionPhase
deriving DecidableEq

inductive DecisionStage where
  | intake
  | preStep
  | context
  | toolBoundary
  | completion
deriving DecidableEq

structure DecisionCandidate where
  id : String
  summary : String
deriving DecidableEq

inductive DecisionResult where
  | selected (candidateId : String)
  | abstained
deriving DecidableEq

inductive DecisionValidation where
  | accepted
  | rejected
  | stale
  | expired
  | unauthorized
deriving DecidableEq

structure DecisionEvent where
  schemaVersion : Nat
  id : String
  taskRevision : Nat
  backend : DecisionBackend
  stage : DecisionStage
  candidates : List DecisionCandidate
  result : DecisionResult
  validation : DecisionValidation
  confidence : Option F64
  selectedProbability : Option F64
  fit : Option F64
  fallback : Option String
  observedOutcome : Option String
  createdAt : Int
deriving DecidableEq

def decisionEventSchemaVersion : Nat := 1

def decisionEventMaxCandidates : Nat := 16

def boundedId (value : String) : String :=
  String.ofList <| (value.toList.filter fun c =>
    isAsciiAlphanumeric c || c == '.' || c == '_' || c == ':' || c == '-').take 64

/-- Needles whose presence in a lowercased text redacts all of it. -/
def redactedNeedles : List String :=
  ["api_key", "api-key", "authorization:", "bearer ", "sk-"]

def boundedPublicText (value : String) (maxChars : Nat) : String :=
  let singleLine := join [' '] <| splitWhitespace <|
    value.toList.map fun c => if isControl c then ' ' else c
  let lower := singleLine.map toAsciiLowercase
  if redactedNeedles.any fun needle => decide (needle.toList <:+: lower) then
    "[redacted]"
  else
    String.ofList (singleLine.take maxChars)

/-- A selector-reported number: finite values clamp to the unit interval,
others are dropped. -/
def boundedUnit (value : Option F64) : Option F64 :=
  (value.filter F64.isFinite).map F64.clampUnit

/-- An optional public text; one that bounds to nothing is dropped. -/
def boundedOptionalText (value : Option String) (maxChars : Nat) : Option String :=
  (value.map fun text => boundedPublicText text maxChars).filter fun text => text ≠ ""

def DecisionResult.bounded : DecisionResult → DecisionResult
  | .selected candidateId => .selected (boundedId candidateId)
  | .abstained => .abstained

def DecisionEvent.bounded (event : DecisionEvent) : DecisionEvent :=
  { event with
    schemaVersion := decisionEventSchemaVersion
    id := boundedId event.id
    candidates := (event.candidates.take decisionEventMaxCandidates).map fun candidate =>
      { id := boundedId candidate.id, summary := boundedPublicText candidate.summary 96 }
    result := event.result.bounded
    confidence := boundedUnit event.confidence
    selectedProbability := boundedUnit event.selectedProbability
    fit := boundedUnit event.fit
    fallback := boundedOptionalText event.fallback 160
    observedOutcome := boundedOptionalText event.observedOutcome 240 }

namespace DecisionEvent

def new (id : String) (taskRevision : Nat) (backend : DecisionBackend) (stage : DecisionStage)
    (candidates : List DecisionCandidate) (result : DecisionResult)
    (validation : DecisionValidation) (createdAt : Int) : DecisionEvent :=
  DecisionEvent.bounded
    { schemaVersion := decisionEventSchemaVersion
      id, taskRevision, backend, stage, candidates, result, validation
      confidence := none
      selectedProbability := none
      fit := none
      fallback := none
      observedOutcome := none
      createdAt }

def withFallback (event : DecisionEvent) (fallback : String) : DecisionEvent :=
  { event with fallback := some fallback }.bounded

def withObservedOutcome (event : DecisionEvent) (outcome : String) : DecisionEvent :=
  { event with observedOutcome := some outcome }.bounded

@[simp] theorem bounded_result (event : DecisionEvent) :
    event.bounded.result = event.result.bounded := rfl

@[simp] theorem withObservedOutcome_result (event : DecisionEvent) (outcome : String) :
    (event.withObservedOutcome outcome).result = event.result.bounded := rfl

end DecisionEvent

end Keel
