import Mathlib.Data.List.Lookmap
import Keel.Proto.Agent

/-! # Message parts and the event fold

The fold turns a stream of agent events into the parts of one assistant entry.
Apart from the two boundary events that clear it, the fold only appends parts,
grows the trailing text, or refreshes fields of a part in place.
-/

namespace Keel

open Text

/-- Line-level insert and delete counts of two texts, as the diff library
reports them. -/
class LineDiff where
  changes : String → String → Nat × Nat

/-- A whole-text comparison: every line of the old text out, every line of the
new one in. -/
@[reducible] def LineDiff.replaceAll : LineDiff where
  changes old new := ((lines new.toList).length, (lines old.toList).length)

/-- Per-file diff statistics kept in place of an inline diff. -/
structure ToolDiffStat where
  path : String
  additions : Nat
  deletions : Nat
deriving DecidableEq

def diffStat [LineDiff] (diff : ToolDiff) : ToolDiffStat :=
  match diff.oldText with
  | none => ⟨diff.path, (lines diff.newText.toList).length, 0⟩
  | some old =>
    let (additions, deletions) := LineDiff.changes old diff.newText
    ⟨diff.path, additions, deletions⟩

/-- Character cap of a tool-output summary. -/
def toolOutputSummaryMax : Nat := 160

/-- The doc-resident form of a tool output: code fences are stripped, a short
output rides whole, a long one keeps its first nonblank line. -/
def summarizeToolOutput (text : String) : Option String :=
  let kept := (lines text.toList).filter fun line =>
    !("```".toList.isPrefixOf (trimStart line))
  let stripped := trim (join ['\n'] kept)
  if stripped.isEmpty then none
  else if stripped.length ≤ toolOutputSummaryMax then some (String.ofList stripped)
  else
    let line := trimEnd <| ((lines stripped).find? fun line =>
      !(trim line).isEmpty).getD stripped
    some (String.ofList (line.take toolOutputSummaryMax ++ ['…']))

inductive MessageStatus where
  | streaming
  | complete
  | aborted
deriving DecidableEq

/-- The fields of a tool part. -/
structure ToolPart where
  id : String
  call : ToolCall
  isError : Bool
  resolved : Bool
  output : Option String
  diff : Option ToolDiff
  outputRef : Option String
  outputBytes : Option Nat
  diffRef : Option String
  diffStats : Option (List ToolDiffStat)
deriving DecidableEq

/-- One rendered part of a message. -/
inductive MessagePart where
  | text (id text : String)
  | tool (fields : ToolPart)
  | input (id requestId : String) (questions : List UserInputQuestion) (resolved : Bool)
  | error (id message : String)
  | decision (id : String) (event : DecisionEvent)
deriving DecidableEq

namespace MessagePart

def id : MessagePart → String
  | .text id _ | .input id _ _ _ | .error id _ | .decision id _ => id
  | .tool fields => fields.id

/-- The text a part contributes to the transcript. -/
def textOf : MessagePart → String
  | .text _ body => body
  | _ => ""

def toolId? : MessagePart → Option String
  | .tool fields => some fields.id
  | _ => none

end MessagePart

def ToolPart.opened (id : String) (call : ToolCall) : ToolPart :=
  { id, call, isError := false, resolved := false, output := none, diff := none,
    outputRef := none, outputBytes := none, diffRef := none, diffStats := none }

/-- A tool part once its result arrived: outputs and inline diffs never enter
the doc, only the error flag and diff statistics do. -/
def ToolPart.withResult [LineDiff] (tool : ToolPart) (isError : Bool)
    (diff : Option ToolDiff) : ToolPart :=
  { tool with isError, resolved := true, output := none, outputBytes := none, diff := none,
              diffStats := diff.map fun diff => [diffStat diff] }

def MessagePart.refreshCall (id : String) (call : ToolCall) : MessagePart → Option MessagePart
  | .tool fields => if fields.id = id then some (.tool { fields with call }) else none
  | _ => none

def MessagePart.refreshDecision (id : String) (event : DecisionEvent) :
    MessagePart → Option MessagePart
  | .decision partId _ => if partId = id then some (.decision partId event) else none
  | _ => none

def MessagePart.applyResult [LineDiff] (id : String) (isError : Bool) (diff : Option ToolDiff) :
    MessagePart → MessagePart
  | .tool fields =>
    if fields.id = id then .tool (fields.withResult isError diff) else .tool fields
  | part => part

def MessagePart.resolveInput (requestId : String) : MessagePart → MessagePart
  | .input id rid questions resolved =>
    if rid = requestId then .input id rid questions true else .input id rid questions resolved
  | part => part

/-- Refresh the first part that accepts the update, or append a new part. -/
def refreshOrPush (refresh : MessagePart → Option MessagePart) (fresh : MessagePart)
    (out : List MessagePart) : List MessagePart :=
  if out.any fun part => (refresh part).isSome then out.lookmap refresh else out ++ [fresh]

/-- Append to the trailing text part, or start one. -/
def pushText (out : List MessagePart) (text : String) : List MessagePart :=
  match out.getLast? with
  | some (.text id tail) => out.dropLast ++ [.text id (tail ++ text)]
  | _ => out ++ [.text ("t" ++ toString out.length) text]

def pushError (out : List MessagePart) (message : String) : List MessagePart :=
  out ++ [.error ("e" ++ toString out.length) message]

def foldEventIntoParts [LineDiff] (out : List MessagePart) : AgentEvent → List MessagePart
  | .sessionStarted .. | .steered .. => []
  | .textDelta text => pushText out text
  | .reasoningDelta _ => out
  | .decision event =>
    let event := event.bounded
    let id := "decision-" ++ event.id
    refreshOrPush (MessagePart.refreshDecision id event) (.decision id event) out
  | .toolCall id call =>
    refreshOrPush (MessagePart.refreshCall id call) (.tool (.opened id call)) out
  | .toolResult id isError _ diff => out.map (MessagePart.applyResult id isError diff)
  | .inputRequested requestId questions =>
    let id := "in-" ++ requestId
    if out.any fun part => part.id == id then out
    else out ++ [.input id requestId questions false]
  | .inputResolved requestId => out.map (MessagePart.resolveInput requestId)
  | .error message => pushError out message
  | .done _ _ error _ =>
    match error with
    | some message => pushError out message
    | none => out
  | .assistantMessageCompleted _ | .decisionActivity _ | .usage .. | .availableCommands _ => out

/-- The render-only privacy policy: heavy or sensitive tool inputs are stripped
before a call enters the doc. -/
def sanitizeToolCall : ToolCall → ToolCall
  | .writeFile path _ => .writeFile path none
  | .editFile path _ _ => .editFile path none none
  | .webFetch url _ => .webFetch url none
  | .mcp server tool _ => .mcp server tool none
  | .unknown name _ => .unknown name none
  | call => call

end Keel
