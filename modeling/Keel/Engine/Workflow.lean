import Keel.Foundation.Text
import Keel.Foundation.Trace
import Mathlib.Algebra.Group.Nat.Defs
import Mathlib.Data.Finset.Insert
import Mathlib.Data.Set.Function

/-! # Host-owned prepared actions

A selector sees descriptions and opaque ids; the host keeps the exact payload,
validates a selection against the task state and records what the execution gave.
Validation traces are plain data: a caller may keep one, replay it, or present it with
another action after the task has moved on.
-/

namespace Keel.Workflow

open Option

variable {α : Type}

inductive Precondition where
  | completed (id : String)
deriving DecidableEq

structure PreparedAction (α : Type) where
  id : String
  description : String
  payload : α
  preparedAtRevision : Nat
  preconditions : List Precondition
  readSetFingerprint : Option String
  expiresAtMs : Option Int
deriving DecidableEq

structure ValidationContext where
  nowMs : Int
  currentReadSetFingerprint : Option String
  authorized : Bool

inductive RejectReason where
  | cancelled
  | invalidId
  | wrongSelection
  | staleRevision
  | expired
  | unmetPrecondition
  | staleReadSet
  | unauthorized

structure ValidationTrace where
  actionId : String
  taskRevision : Nat
  accepted : Bool
  rejection : Option RejectReason

inductive ExecutionOutcome where
  | verified
  | failed
  | unverified

inductive OutcomeStatus where
  | verified
  | executionFailed
  | verificationFailed
  | rejected
deriving DecidableEq

structure OutcomeTrace where
  actionId : String
  taskRevision : Nat
  status : OutcomeStatus
  rejection : Option RejectReason

structure TaskState where
  revision : Nat
  cancelled : Bool := false
  completed : Finset String := ∅

namespace TaskState

def new (revision : Nat) : TaskState := { revision }

/-- `u64::checked_add(1)`; the exhausted revision panics. -/
def invalidate (state : TaskState) : Option TaskState :=
  if state.revision + 1 < 2 ^ 64 then some { state with revision := state.revision + 1 } else none

def isCompleted (state : TaskState) (id : String) : Bool := decide (id ∈ state.completed)

/-- Whether `record_outcome` refuses the trace without looking at the outcome. -/
def refuses (state : TaskState) (action : PreparedAction α) (validation : ValidationTrace) : Bool :=
  !validation.accepted
    || validation.actionId != action.id
    || validation.taskRevision != state.revision
    || state.revision != action.preparedAtRevision
    || state.cancelled

/-- The status decided, with the task state it leaves; `none` is the revision's panic. -/
def settle (state : TaskState) (action : PreparedAction α) (validation : ValidationTrace)
    (outcome : ExecutionOutcome) : Option (TaskState × OutcomeStatus) :=
  if state.refuses action validation then some (state, .rejected)
  else match outcome with
    | .verified =>
      ({ state with completed := insert action.id state.completed }.invalidate).map
        fun next => (next, .verified)
    | .failed => some (state, .executionFailed)
    | .unverified => some (state, .verificationFailed)

def recordOutcome (state : TaskState) (action : PreparedAction α) (validation : ValidationTrace)
    (outcome : ExecutionOutcome) : Option (TaskState × OutcomeTrace) :=
  (state.settle action validation outcome).map fun (next, status) =>
    (next,
      { actionId := action.id
        taskRevision := next.revision
        status
        rejection :=
          if status = .rejected then validation.rejection.or (some .staleRevision) else none })

end TaskState

def Precondition.unmet (state : TaskState) : Precondition → Bool
  | .completed id => !state.isCompleted id

def rejectionOf (state : TaskState) (action : PreparedAction α) (selectedId : String)
    (context : ValidationContext) : Option RejectReason :=
  if state.cancelled then some .cancelled
  else if (Text.trim action.id.toList).isEmpty ∨ action.id = "escalate" then some .invalidId
  else if action.id ≠ selectedId then some .wrongSelection
  else if state.revision ≠ action.preparedAtRevision then some .staleRevision
  else if action.expiresAtMs.any (fun deadline => deadline ≤ context.nowMs) then some .expired
  else if action.preconditions.any (Precondition.unmet state) then some .unmetPrecondition
  else if action.readSetFingerprint ≠ context.currentReadSetFingerprint then some .staleReadSet
  else if !context.authorized then some .unauthorized
  else none

def validateSelected (state : TaskState) (action : PreparedAction α) (selectedId : String)
    (context : ValidationContext) : ValidationTrace :=
  let rejection := rejectionOf state action selectedId context
  { actionId := action.id
    taskRevision := state.revision
    accepted := rejection.isNone
    rejection }

def eligible (state : TaskState) (action : PreparedAction α) (context : ValidationContext) : Bool :=
  (validateSelected state action action.id context).accepted

/-- The digest of a serialized read-set snapshot; serialization may fail. -/
def fingerprintOf {β : Type} (toVec : β → Option (List UInt8)) (sha256 : List UInt8 → String)
    (value : β) : Option String :=
  (toVec value).map sha256

/-- What an accepted validation has checked. -/
structure Accepts (state : TaskState) (action : PreparedAction α) (selectedId : String)
    (context : ValidationContext) : Prop where
  active : state.cancelled = false
  selected : action.id = selectedId
  current : state.revision = action.preparedAtRevision
  inTime : ∀ deadline, action.expiresAtMs = some deadline → context.nowMs < deadline
  met : ∀ id, Precondition.completed id ∈ action.preconditions → id ∈ state.completed
  readSet : action.readSetFingerprint = context.currentReadSetFingerprint
  authorized : context.authorized = true

variable {state : TaskState} {action : PreparedAction α}

theorem accepts_of_validateSelected {selectedId : String} {context : ValidationContext}
    (haccepted : (validateSelected state action selectedId context).accepted = true) :
    Accepts state action selectedId context := by
  have hnone : rejectionOf state action selectedId context = none :=
    isNone_iff_eq_none.mp haccepted
  unfold rejectionOf at hnone
  split at hnone
  · cases hnone
  next hactive =>
  split at hnone
  · cases hnone
  next =>
  split at hnone
  · cases hnone
  next hselected =>
  split at hnone
  · cases hnone
  next hcurrent =>
  split at hnone
  · cases hnone
  next htime =>
  split at hnone
  · cases hnone
  next hmet =>
  split at hnone
  · cases hnone
  next hread =>
  split at hnone
  · cases hnone
  next hauthorized =>
    refine
      { active := Bool.eq_false_iff.mpr hactive
        selected := not_not.mp hselected
        current := not_not.mp hcurrent
        inTime := ?_
        met := ?_
        readSet := not_not.mp hread
        authorized := by simpa using hauthorized }
    · intro deadline hdeadline
      simpa [hdeadline] using htime
    · intro id hid
      simp only [List.any_eq_true, not_exists, not_and] at hmet
      simpa [Precondition.unmet, TaskState.isCompleted] using hmet _ hid

/-- A validation and the outcome recorded with it agree on everything `record_outcome` reads. -/
structure Matches (state : TaskState) (action : PreparedAction α) (validation : ValidationTrace) :
    Prop where
  accepted : validation.accepted = true
  actionId : validation.actionId = action.id
  taskRevision : validation.taskRevision = state.revision
  current : state.revision = action.preparedAtRevision
  active : state.cancelled = false

theorem matches_of_not_refuses {validation : ValidationTrace}
    (hrefuses : state.refuses action validation = false) : Matches state action validation := by
  simp only [TaskState.refuses, Bool.or_eq_false_iff, Bool.not_eq_false', bne_eq_false_iff_eq]
    at hrefuses
  obtain ⟨⟨⟨⟨haccepted, hid⟩, hrevision⟩, hcurrent⟩, hactive⟩ := hrefuses
  exact ⟨haccepted, hid, hrevision, hcurrent, hactive⟩

/-- Recording either leaves the task as it was, or verifies a matching trace: then the id
is completed and the revision moves on. -/
theorem recordOutcome_cases {next : TaskState}
    {validation : ValidationTrace} {outcome : ExecutionOutcome} {result : OutcomeTrace}
    (hrecord : state.recordOutcome action validation outcome = some (next, result)) :
    (result.status ≠ .verified ∧ next = state) ∨
      (result.status = .verified ∧ outcome = .verified ∧ Matches state action validation ∧
        next = { state with
          revision := state.revision + 1
          completed := insert action.id state.completed }) := by
  simp only [TaskState.recordOutcome, map_eq_some_iff, Prod.exists, Prod.mk.injEq] at hrecord
  obtain ⟨settled, status, hsettle, rfl, rfl⟩ := hrecord
  unfold TaskState.settle at hsettle
  split at hsettle
  · simp only [some.injEq, Prod.mk.injEq] at hsettle
    obtain ⟨rfl, rfl⟩ := hsettle
    exact .inl ⟨OutcomeStatus.noConfusion, rfl⟩
  next hrefuses =>
    cases outcome with
    | failed | unverified =>
      simp only [some.injEq, Prod.mk.injEq] at hsettle
      obtain ⟨rfl, rfl⟩ := hsettle
      exact .inl ⟨OutcomeStatus.noConfusion, rfl⟩
    | verified =>
      simp only [TaskState.invalidate, map_eq_some_iff, ite_none_right_eq_some,
        some.injEq, Prod.mk.injEq] at hsettle
      obtain ⟨_, ⟨-, rfl⟩, rfl, rfl⟩ := hsettle
      exact .inr ⟨rfl, rfl, matches_of_not_refuses (Bool.eq_false_iff.mpr hrefuses), rfl⟩

end Keel.Workflow
