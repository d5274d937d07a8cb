import Mathlib.Algebra.Group.Int.Defs
import Mathlib.Algebra.Group.Nat.Defs
import Keel.Doc.Commands
import Keel.Doc.Parts

/-! # The session document

A session document is a list of message entries and a list of command entries.
The containers behave as ordinary lists, maps and strings for one writer. A
part is stored as a flat map of optional keys; reading it back goes through the
serialization library, whose composite effect on each stored value is a
parameter.
-/

namespace Keel

/-- What reading back a stored value yields, for the value types that pass
through JSON. Tool calls and diff statistics always parse: every field that may
be missing from them has a default. -/
class Serde where
  call : ToolCall → Option ToolCall
  questions : List UserInputQuestion → Option (List UserInputQuestion)
  diff : ToolDiff → Option ToolDiff
  diffStats : List ToolDiffStat → Option (List ToolDiffStat)
  decision : DecisionEvent → Option DecisionEvent
  call_isSome : ∀ toolCall, (call toolCall).isSome
  diffStats_isSome : ∀ stats, (diffStats stats).isSome

/-- Every value reads back as it was stored. -/
@[reducible] def Serde.verbatim : Serde where
  call := some
  questions := some
  diff := some
  diffStats := some
  decision := some
  call_isSome _ := rfl
  diffStats_isSome _ := rfl

inductive MessageRole where
  | user
  | assistant
  | system
deriving DecidableEq

/-- One entry of the `messages` list, as read. -/
structure SessionMessageEntry where
  id : String
  role : MessageRole
  parts : List MessagePart
  /-- Epoch millis. -/
  createdAt : Int
  deviceId : String
  status : Option MessageStatus
  continuationOf : Option String
deriving DecidableEq

/-- The flat part record. Input parts key on their request id. -/
structure DocPartJson where
  id : String
  kind : String
  text : Option String := none
  call : Option ToolCall := none
  isError : Option Bool := none
  questions : Option (List UserInputQuestion) := none
  resolved : Option Bool := none
  message : Option String := none
  decision : Option DecisionEvent := none
  output : Option String := none
  diff : Option ToolDiff := none
  outputRef : Option String := none
  outputBytes : Option Nat := none
  diffRef : Option String := none
  diffStats : Option (List ToolDiffStat) := none

/-- The presence of `isError` is the resolution marker of a tool part. -/
def toDocPart : MessagePart → DocPartJson
  | .text id text => { id, kind := "text", text := some text }
  | .tool fields =>
    { id := fields.id, kind := "tool", call := some fields.call,
      isError := if fields.resolved then some fields.isError else none,
      output := fields.output, diff := fields.diff, outputRef := fields.outputRef,
      outputBytes := fields.outputBytes, diffRef := fields.diffRef,
      diffStats := fields.diffStats }
  | .input _ requestId questions resolved =>
    { id := requestId, kind := "input", questions := some questions,
      resolved := some resolved }
  | .error id message => { id, kind := "error", message := some message }
  | .decision id event => { id, kind := "decision", decision := some event.bounded }

/-- Malformed tool and decision parts degrade to empty text. -/
def fromDocPart [Serde] (part : DocPartJson) : MessagePart :=
  if part.kind = "tool" then
    match part.call.bind Serde.call with
    | some call => .tool
        { id := part.id, call, isError := part.isError.getD false,
          resolved := part.isError.isSome, output := part.output,
          diff := part.diff.bind Serde.diff, outputRef := part.outputRef,
          outputBytes := part.outputBytes, diffRef := part.diffRef,
          diffStats := part.diffStats.bind Serde.diffStats }
    | none => .text part.id ""
  else if part.kind = "input" then
    .input part.id part.id ((part.questions.bind Serde.questions).getD [])
      (part.resolved.getD false)
  else if part.kind = "error" then
    .error part.id (part.message.getD "")
  else if part.kind = "decision" then
    match part.decision.bind Serde.decision with
    | some event => .decision part.id event.bounded
    | none => .text part.id ""
  else
    .text part.id (part.text.getD "")

/-- A part as the doc holds it: one optional value per key. The byte count is
stored as a signed 64-bit integer. -/
structure PartMap where
  id : Option String := none
  kind : Option String := none
  text : Option String := none
  call : Option ToolCall := none
  isError : Option Bool := none
  questions : Option (List UserInputQuestion) := none
  resolved : Option Bool := none
  message : Option String := none
  decision : Option DecisionEvent := none
  output : Option String := none
  diff : Option ToolDiff := none
  outputRef : Option String := none
  outputBytes : Option Int := none
  diffRef : Option String := none
  diffStats : Option (List ToolDiffStat) := none

/-- Reinterpret an unsigned 64-bit integer as a signed one. -/
def asI64 (value : Nat) : Int :=
  if value % 2 ^ 64 < 2 ^ 63 then value % 2 ^ 64 else (value % 2 ^ 64 : Int) - 2 ^ 64

/-- Insert every present field of a part record into an empty map. -/
def PartMap.ofDocPart (part : DocPartJson) : PartMap :=
  { id := some part.id, kind := some part.kind, text := part.text, call := part.call,
    isError := part.isError, questions := part.questions, resolved := part.resolved,
    message := part.message, decision := part.decision, output := part.output,
    diff := part.diff, outputRef := part.outputRef,
    outputBytes := part.outputBytes.map asI64, diffRef := part.diffRef,
    diffStats := part.diffStats }

def pushPart (parts : List PartMap) (part : MessagePart) : List PartMap :=
  parts ++ [.ofDocPart (toDocPart part)]

/-- A stored byte count read as unsigned: absent, present, or malformed. -/
def unsigned? : Option Int → Option (Option Nat)
  | none => some none
  | some (.ofNat value) => some (some value)
  | some (.negSucc _) => none

/-- The strict shape of a part: `id` and `kind` are required and a byte count
is unsigned. -/
def PartMap.toDocPart? (map : PartMap) : Option DocPartJson := do
  let id ← map.id
  let kind ← map.kind
  let outputBytes ← unsigned? map.outputBytes
  return { id, kind, text := map.text, call := map.call, isError := map.isError,
           questions := map.questions, resolved := map.resolved, message := map.message,
           decision := map.decision, output := map.output, diff := map.diff,
           outputRef := map.outputRef, outputBytes, diffRef := map.diffRef,
           diffStats := map.diffStats }

/-- Salvage a part whose strict shape failed, by its content. -/
def salvagePart [Serde] (map : PartMap) (entryId : String) (index : Nat) : Option MessagePart :=
  let id := map.id.getD (entryId ++ "#recovered-" ++ toString index)
  match map.text, map.call.bind Serde.call, map.message with
  | some text, _, _ => some (.text id text)
  | none, some call, _ => some <| .tool
      { id, call, isError := map.isError.getD false, resolved := map.resolved.getD true,
        output := map.output, diff := none, outputRef := none, outputBytes := none,
        diffRef := none, diffStats := none }
  | none, none, some message => some (.error id message)
  | none, none, none => none

/-- One entry of the doc's `messages` list, with its stored parts. -/
structure EntryMap where
  id : String
  role : MessageRole
  createdAt : Int
  deviceId : String
  status : Option MessageStatus
  continuationOf : Option String
  parts : List PartMap

/-- Read an entry's parts: strictly when every part has its strict shape, else
part by part with salvage. -/
def readParts [Serde] (entryId : String) (parts : List PartMap) : List MessagePart :=
  match parts.mapM PartMap.toDocPart? with
  | some parts => parts.map fromDocPart
  | none => parts.zipIdx.filterMap fun (map, index) =>
    match map.toDocPart? with
    | some part => some (fromDocPart part)
    | none => salvagePart map entryId index

def entryFromJson [Serde] (entry : EntryMap) : SessionMessageEntry :=
  { id := entry.id, role := entry.role, parts := readParts entry.id entry.parts,
    createdAt := entry.createdAt, deviceId := entry.deviceId, status := entry.status,
    continuationOf := entry.continuationOf }

inductive DocError where
  | schema (message : String)

/-- A session document. `epoch` is the lineage marker of its metadata. -/
structure SessionDoc where
  chatId : Option String
  epoch : Nat
  messages : List EntryMap
  commands : List SessionCommandEntry

namespace SessionDoc

def init (chatId : String) : SessionDoc :=
  { chatId := some chatId, epoch := 0, messages := [], commands := [] }

def pushMessage (doc : SessionDoc) (entry : SessionMessageEntry) : SessionDoc :=
  { doc with messages := doc.messages ++
      [{ id := entry.id, role := entry.role, createdAt := entry.createdAt,
         deviceId := entry.deviceId, status := entry.status,
         continuationOf := entry.continuationOf,
         parts := entry.parts.foldl pushPart [] }] }

def readEntries [Serde] (doc : SessionDoc) : List SessionMessageEntry :=
  doc.messages.map entryFromJson

def readCommands (doc : SessionDoc) : List SessionCommandEntry := doc.commands

/-- Append a command entry; a resolution is written only with an outcome. -/
def queueCommand (doc : SessionDoc) (entry : SessionCommandEntry) : SessionDoc :=
  { doc with commands := doc.commands ++ [{ entry with resolution := none }] }

/-- An entry with its outcome; an absent resolution leaves the stored one. -/
def withOutcome (status : SessionCommandStatus) (resolution : Option String)
    (entry : SessionCommandEntry) : SessionCommandEntry :=
  { entry with status, resolution := resolution.or entry.resolution }

/-- Write the outcome of the first command with the given id. -/
def setCommandStatus (doc : SessionDoc) (commandId : String) (status : SessionCommandStatus)
    (resolution : Option String) : Except DocError SessionDoc :=
  if doc.commands.any fun entry => entry.id == commandId then
    .ok { doc with commands := doc.commands.lookmap fun entry =>
      if entry.id = commandId then some (withOutcome status resolution entry) else none }
  else .error (.schema ("command " ++ commandId ++ " not found"))

end SessionDoc

end Keel
