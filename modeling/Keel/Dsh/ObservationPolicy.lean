import Keel.Dsh.FsEffects
import Keel.Dsh.ToolRuntime
import Keel.Foundation.Trace

/-! # The filesystem tools under the observation policy

The policy records, for each owner, what its calls last observed of a target, and decides
from that record what a write or an edit may do. A tool call runs in stages: it stops at
each of its awaits and between two calls of the filesystem, and there other calls go on and
other programs change the disk.
-/

namespace Keel.Fs

/-- The session of the calling agent. -/
abbrev FsOwnerKey := String

/-! ## The policy -/

/-- Observed-file state keyed by owner, then by target key. -/
abbrev ObservedState := FsOwnerKey → FsTargetKey → Option FsObservation

def prior (state : ObservedState) (owner : Option FsOwnerKey) (target : FsTarget) :
    Option FsObservation :=
  match owner with
  | none => none
  | some owner => state owner target.targetKey

/-- Unseen or confirmed absent means a guarded create; confirmed present means a guarded
replace at the observed version. -/
def writeIntent (state : ObservedState) (target : FsTarget) (owner : Option FsOwnerKey) :
    FsWriteIntent :=
  match prior state owner target with
  | some (.present version) => .replaceIfVersion version
  | _ => .createIfAbsent

def editIntent (state : ObservedState) (target : FsTarget) (owner : Option FsOwnerKey) :
    Except FsError FsVersion :=
  match prior state owner target with
  | none => .error
      ⟨"edit requires reading \"" ++ target.displayPath ++ "\" first", .notObserved⟩
  | some .absent => .error
      ⟨"cannot edit \"" ++ target.displayPath ++ "\": not found", .notFound⟩
  | some (.present version) => .ok version

/-- The listener that records an observation of a call with an owner. -/
def observe (state : ObservedState) (target : FsTarget) (observation : FsObservation) :
    Option FsOwnerKey → ObservedState
  | none => state
  | some owner => fun other key =>
    if other = owner ∧ key = target.targetKey then some observation else state other key

/-- What is recorded is the new observation, of the call's owner, or an earlier one. -/
theorem observe_cases {state : ObservedState} {target : FsTarget}
    {observation found : FsObservation} {owner : Option FsOwnerKey} {other : FsOwnerKey}
    {key : FsTargetKey} (hfound : observe state target observation owner other key = some found) :
    (owner = some other ∧ key = target.targetKey ∧ found = observation) ∨
      state other key = some found := by
  cases owner with
  | none => exact .inr hfound
  | some known =>
    simp only [observe] at hfound
    split at hfound
    next hsame =>
      obtain ⟨rfl, rfl⟩ := hsame
      exact .inl ⟨rfl, rfl, (Option.some.inj hfound).symm⟩
    · exact .inr hfound

/-! ## The read window -/

structure ReadFileLine where
  number : Nat
  text : List Char
deriving DecidableEq

structure ReadWindow where
  offset : Nat
  limit : Nat
  maxLineLength : Nat
  maxBytes : Nat

structure WindowResult where
  lines : List ReadFileLine
  totalLines : Nat
  truncatedByBytes : Bool

def truncateLine (line : List Char) (maxLineLength : Nat) : List Char :=
  if maxLineLength < line.length then
    line.take maxLineLength ++
      ("... (line truncated to " ++ toString maxLineLength ++ " chars)").toList
  else line

/-- The lines of a text. A trailing newline ends the last one. -/
def windowParts (text : List Char) : List (List Char) :=
  if text = [] then []
  else if (text.splitOn '\n').getLast? = some [] then (text.splitOn '\n').dropLast
  else text.splitOn '\n'

/-- The window while the lines are scanned. -/
structure WindowScan extends WindowResult where
  outputBytes : Nat

def scanLine (request : ReadWindow) (scan : WindowScan) (raw : List Char) : WindowScan :=
  let number := scan.totalLines + 1
  let rendered := truncateLine (Text.stripReturn raw) request.maxLineLength
  let bytes := Utf8.byteLength rendered + if scan.lines = [] then 0 else 1
  if scan.truncatedByBytes ∨ number < request.offset ∨ request.limit ≤ scan.lines.length then
    { scan with totalLines := number }
  else if request.maxBytes < scan.outputBytes + bytes then
    { scan with totalLines := number, truncatedByBytes := true }
  else
    { scan with
      lines := scan.lines ++ [⟨number, rendered⟩]
      totalLines := number
      outputBytes := scan.outputBytes + bytes }

def buildWindow (text : List Char) (request : ReadWindow) (displayPath : String) :
    Except FsError WindowResult :=
  let scan := (windowParts text).foldl (scanLine request) ⟨⟨[], 0, false⟩, 0⟩
  if ¬scan.truncatedByBytes ∧ scan.totalLines < request.offset ∧
      ¬(scan.totalLines = 0 ∧ request.offset = 1) then
    .error ⟨"offset " ++ toString request.offset ++ " is out of range for \"" ++ displayPath ++
      "\" (" ++ toString scan.totalLines ++ " lines)", .notFound⟩
  else .ok scan.toWindowResult

/-! ## The tools -/

section Errors

/-- A typed filesystem failure in the registry's error vocabulary. -/
def fsToolError (error : FsError) : Tools.ToolError :=
  ⟨error.message, .harness error.code.asStr⟩

/-- The recovery instruction of a guarded mutation's failure. -/
def remedy : FsErrorCode → Option String
  | .staleVersion => some "re-read the file, then retry"
  | .notObserved => some "read the file, then retry"
  | _ => none

def remediateFsError (error : FsError) : Tools.ToolError :=
  match remedy error.code with
  | some remedy => ⟨error.message ++ " — " ++ remedy, .harness error.code.asStr⟩
  | none => fsToolError error

end Errors

/-- A call's tool and its parsed arguments. -/
inductive FsRequest where
  | read (offset limit : Nat)
  | write (content : List Char)
  | edit (edit : FsEditRequest)

/-- What a successful call has worked out: the values its answer is made of, and for a read
the version and the text they come from. -/
inductive Answer where
  | read (version : FsVersion) (text : List Char) (window : WindowResult)
  | write (outcome : FsWriteOutcome)
  | edit (outcome : FsEditOutcome)

abbrev Result := Except Tools.ToolError Answer

/-- Where a call with a resolved target stands. -/
inductive Stage where
  | resolved
  | statted (info : FsInfo)
  | intended (intent : FsWriteIntent)
  | guarded (version : FsVersion)
  /-- An observation is about to be dispatched. -/
  | observing (observation : FsObservation) (result : Result)
  /-- The observation is recorded and the dispatch still awaited. -/
  | observed (result : Result)
  | returned (result : Result)

inductive Progress where
  | issued
  | unresolved (error : Tools.ToolError)
  | running (target : FsTarget) (stage : Stage)

structure Call where
  owner : Option FsOwnerKey
  request : FsRequest
  progress : Progress

def Call.result (call : Call) : Option Result :=
  match call.progress with
  | .unresolved error => some (.error error)
  | .running _ (.returned result) => some result
  | _ => none

structure FsTools where
  fs : LocalFileSystem
  readMaxLineLength : Nat
  readMaxBytes : Nat

section Stages

variable (tools : FsTools) (io : Io) (disk : Disk) (target : FsTarget)

def statStage : Stage :=
  match stat io disk target with
  | .error error => .returned (.error (fsToolError error))
  | .ok none => .observing .absent (.error (fsToolError
      ⟨"cannot read \"" ++ target.displayPath ++ "\": not found", .notFound⟩))
  | .ok (some info) =>
    if info.entryType ≠ .file then
      .returned (.error (fsToolError (notRegularFile target "read")))
    else .statted info

/-- A read takes the text and cuts the window out of it. -/
def readStage (offset limit : Nat) (info : FsInfo) : Stage :=
  match readText io disk target with
  | .error error => .returned (.error (fsToolError error))
  | .ok text =>
    match buildWindow text ⟨offset, limit, tools.readMaxLineLength, tools.readMaxBytes⟩
        target.displayPath with
    | .error error => .returned (.error (fsToolError error))
    | .ok window => .observing (.present info.version) (.ok (.read info.version text window))

/-- An edit asks the policy for its guard. -/
def guardStage (state : ObservedState) (owner : Option FsOwnerKey) : Stage :=
  match editIntent state target owner with
  | .error error => .returned (.error (remediateFsError error))
  | .ok version => .guarded version

def writtenStage : Except FsError FsWriteOutcome → Stage
  | .error error => .returned (.error (remediateFsError error))
  | .ok outcome => .observing (.present outcome.version) (.ok (.write outcome))

def editedStage : Except FsError FsEditOutcome → Stage
  | .error error => .returned (.error (remediateFsError error))
  | .ok outcome => .observing (.present outcome.version) (.ok (.edit outcome))

def pollStage (state : ObservedState) (id : CallId) (owner : Option FsOwnerKey) :
    FsRequest → Stage → Option (Stage × Disk × ObservedState)
  | .read _ _, .resolved => some (statStage io disk target, disk, state)
  | .write _, .resolved => some (.intended (writeIntent state target owner), disk, state)
  | .edit _, .resolved => some (guardStage target state owner, disk, state)
  | .read offset limit, .statted info =>
    some (readStage tools io disk target offset limit info, disk, state)
  | .write content, .intended intent =>
    (writeText io disk target tools.fs id content (some intent)).map
      fun done => (writtenStage done.2, done.1, state)
  | .edit edit, .guarded version =>
    (editText io disk target id edit (some version)).map
      fun done => (editedStage done.2, done.1, state)
  | _, .observing observation result =>
    some (.observed result, disk, observe state target observation owner)
  | _, .observed result => some (.returned result, disk, state)
  | _, _ => none

end Stages

/-! ## The system -/

structure State where
  disk : Disk
  observed : ObservedState
  calls : List Call

def State.initial : State where
  disk := { store := { current := fun _ => none, history := [] }, denied := fun _ => none }
  observed := fun _ _ => none
  calls := []

inductive Action where
  /-- An agent, or nobody, calls a tool. -/
  | issue (owner : Option FsOwnerKey) (request : FsRequest)
  /-- A call goes on. -/
  | poll (id : CallId) (io : Io)
  /-- Another program puts a node at a path. -/
  | change (key : FsTargetKey) (node : Node)
  /-- Another program clears a path. -/
  | remove (key : FsTargetKey)
  /-- A path becomes one that cannot be looked up, or stops being one. -/
  | deny (key : FsTargetKey) (fault : Option IoFault)

/-- A call goes on from where it stands. -/
def pollCall (tools : FsTools) (state : State) (id : CallId) (io : Io) (call : Call) :
    Option State :=
  match call.progress with
  | .issued =>
    match io.resolved with
    | .error error => some { state with
        calls := state.calls.set id { call with progress := .unresolved (fsToolError error) } }
    | .ok target => some { state with
        calls := state.calls.set id { call with progress := .running target .resolved } }
  | .unresolved _ => none
  | .running target stage =>
    match pollStage tools io state.disk target state.observed id call.owner call.request
        stage with
    | none => none
    | some (stage, disk, observed) => some
        { disk
          observed
          calls := state.calls.set id { call with progress := .running target stage } }

def step (tools : FsTools) (state : State) : Action → Option State
  | .issue owner request =>
    some { state with calls := state.calls ++ [⟨owner, request, .issued⟩] }
  | .poll id io =>
    match state.calls[id]? with
    | none => none
    | some call => pollCall tools state id io call
  | .change key node => (state.disk.put none key node).map fun disk => { state with disk }
  | .remove key => some { state with disk := state.disk.remove key }
  | .deny key fault => some { state with
      disk := { state.disk with denied := Function.update state.disk.denied key fault } }

end Keel.Fs
