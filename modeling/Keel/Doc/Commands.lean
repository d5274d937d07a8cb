import Keel.Proto.Agent

/-! # Durable command entries and their evaluation

Entries are append-only; the chat's host alone writes outcomes. Evaluation of a
single pending entry is pure: processed ids are skipped, expired and superseded
entries are resolved without running, and everything else executes.
-/

namespace Keel

inductive SessionCommandKind where
  | run
  | steer
  | interrupt
  | respondInput
deriving DecidableEq

inductive SessionCommandStatus where
  | pending
  | applied
  | rejected
  | expired
  | superseded
  | cancelled
deriving DecidableEq

/-- The outcomes that only the host writes. -/
def SessionCommandStatus.isHostOutcome : SessionCommandStatus → Bool
  | .applied | .rejected | .expired | .superseded => true
  | .pending | .cancelled => false

inductive SessionCommandPayload where
  | run (request : RunRequest) (messageId : String)
  | steer (prompt : String) (messageId : Option String)
  | interrupt
  | respondInput (requestId : String) (answers : List UserInputAnswer)
deriving DecidableEq

def SessionCommandPayload.kind : SessionCommandPayload → SessionCommandKind
  | .run .. => .run
  | .steer .. => .steer
  | .interrupt => .interrupt
  | .respondInput .. => .respondInput

structure CommandBasedOn where
  turnId : Option String
  frontier : Option String
deriving DecidableEq

structure SessionCommandEntry where
  id : String
  payload : SessionCommandPayload
  issuedBy : String
  /-- Epoch millis. -/
  issuedAt : Int
  basedOn : Option CommandBasedOn
  /-- Epoch millis; absent means the default time to live after `issuedAt`. -/
  expiresAt : Option Int
  status : SessionCommandStatus
  resolution : Option String
deriving DecidableEq

/-- Default time to live of a durable command, in millis. -/
def commandDefaultTtlMs : Int := 24 * 60 * 60 * 1000

namespace SessionCommandEntry

def kind (entry : SessionCommandEntry) : SessionCommandKind := entry.payload.kind

def effectiveExpiry (entry : SessionCommandEntry) : Int :=
  entry.expiresAt.getD (entry.issuedAt + commandDefaultTtlMs)

end SessionCommandEntry

/-- Only the composer that issued a still-pending command may cancel it. -/
def canComposerCancel (entry : SessionCommandEntry) (deviceId : String) : Bool :=
  entry.status = .pending && entry.issuedBy == deviceId

inductive CommandDisposition where
  | skip
  | expired
  | superseded
  | execute
deriving DecidableEq

/-- What the host evaluates a pending command against. -/
structure EvaluationContext where
  isProcessed : String → Bool
  nowMs : Int
  entries : List SessionCommandEntry
  currentTurnId : Option String
  turnIsPast : String → Bool

/-- A newer pending command of the same kind exists among the entries. -/
def hasNewerSameKind (entries : List SessionCommandEntry) (entry : SessionCommandEntry) : Bool :=
  entries.any fun other => other.id != entry.id && decide (other.kind = entry.kind) &&
    decide (other.status = .pending) && decide (entry.issuedAt < other.issuedAt)

/-- An interrupt based on a turn that is over and is not the current one. -/
def interruptIsMoot (context : EvaluationContext) (entry : SessionCommandEntry) : Bool :=
  match entry.kind, entry.basedOn.bind CommandBasedOn.turnId with
  | .interrupt, some turnId =>
    decide (context.currentTurnId ≠ some turnId) && context.turnIsPast turnId
  | _, _ => false

def evaluateCommand (entry : SessionCommandEntry) (context : EvaluationContext) :
    CommandDisposition :=
  if context.isProcessed entry.id then .skip
  else if entry.effectiveExpiry ≤ context.nowMs then .expired
  else if (entry.kind = .steer ∨ entry.kind = .interrupt) ∧
      hasNewerSameKind context.entries entry then .superseded
  else if interruptIsMoot context entry then .superseded
  else .execute

theorem not_isProcessed_of_execute {entry : SessionCommandEntry} {context : EvaluationContext}
    (hexecute : evaluateCommand entry context = .execute) :
    context.isProcessed entry.id = false := by
  cases hprocessed : context.isProcessed entry.id with
  | false => rfl
  | true => simp [evaluateCommand, hprocessed] at hexecute

end Keel
