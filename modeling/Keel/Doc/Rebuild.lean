import Keel.Doc.Schema

/-! # Thin rebuild of a session document

The rebuild copies every entry with fat tool outputs and inline diffs stripped,
and carries over only unresolved commands. What it strips is returned, to be
uploaded beside the doc.
-/

namespace Keel

open List

/-- Lineage marker written by the rebuild. -/
def thinDocEpoch : Nat := 2

/-- What one stripped part owes the sidecar. -/
structure SidecarPayload where
  partId : String
  output : Option String
  diff : Option ToolDiff

structure ThinRebuild where
  doc : SessionDoc
  sidecar : List SidecarPayload
  entries : Nat
  commandsCopied : Nat

/-- A fat inline output is text with no sidecar reference; a blank one drops. -/
def stripOutput (chatId : String) (tool : ToolPart) : ToolPart × Option String :=
  match tool.outputRef, tool.output with
  | none, some full =>
    if (Text.trim full.toList).isEmpty then ({ tool with output := none }, none)
    else
      ({ tool with output := summarizeToolOutput full, outputBytes := some full.utf8ByteSize,
                   outputRef := some (chatId ++ "/" ++ tool.id) }, some full)
  | _, _ => (tool, none)

/-- An inline diff is replaced by its statistics and a reference. -/
def stripDiff [LineDiff] (chatId : String) (tool : ToolPart) : ToolPart × Option ToolDiff :=
  match tool.diff with
  | some full =>
    ({ tool with diff := none, diffStats := some [diffStat full],
                 diffRef := tool.diffRef.or (some (chatId ++ "/" ++ tool.id ++ ".diff")) },
      some full)
  | none => (tool, none)

def stripPart [LineDiff] (chatId : String) : MessagePart → MessagePart × Option SidecarPayload
  | .tool tool =>
    let (thin, output) := stripOutput chatId tool
    let (thin, diff) := stripDiff chatId thin
    (.tool thin, if output.isSome || diff.isSome then some ⟨tool.id, output, diff⟩ else none)
  | part => (part, none)

def stripEntry [LineDiff] (chatId : String) (entry : SessionMessageEntry) :
    SessionMessageEntry × List SidecarPayload :=
  let stripped := entry.parts.map (stripPart chatId)
  ({ entry with parts := stripped.map Prod.fst }, stripped.filterMap Prod.snd)

def rebuildThinDoc [LineDiff] [Serde] (source : SessionDoc) : Except DocError ThinRebuild :=
  match source.chatId with
  | none => .error (.schema "source doc has no chatId")
  | some chatId =>
    let stripped := source.readEntries.map (stripEntry chatId)
    let pending := source.readCommands.filter fun command => command.status = .pending
    let thin := { SessionDoc.init chatId with epoch := thinDocEpoch }
    let thin := (stripped.map Prod.fst).foldl SessionDoc.pushMessage thin
    .ok { doc := pending.foldl SessionDoc.queueCommand thin
          sidecar := stripped.flatMap Prod.snd
          entries := stripped.length
          commandsCopied := pending.length }

theorem commands_foldl_pushMessage (entries : List SessionMessageEntry) (doc : SessionDoc) :
    (entries.foldl SessionDoc.pushMessage doc).commands = doc.commands := by
  induction entries generalizing doc with
  | nil => rfl
  | cons entry rest ih =>
    rw [foldl_cons, ih]
    rfl

theorem commands_foldl_queueCommand (entries : List SessionCommandEntry) (doc : SessionDoc) :
    (entries.foldl SessionDoc.queueCommand doc).commands =
      doc.commands ++ entries.map fun entry => { entry with resolution := none } := by
  induction entries generalizing doc with
  | nil => simp
  | cons entry rest ih =>
    rw [foldl_cons, ih]
    simp [SessionDoc.queueCommand]

theorem pending_of_mem_rebuild [LineDiff] [Serde] {source : SessionDoc} {rebuilt : ThinRebuild}
    (hrebuild : rebuildThinDoc source = .ok rebuilt) {entry : SessionCommandEntry}
    (hentry : entry ∈ rebuilt.doc.commands) : entry.status = .pending := by
  cases hchat : source.chatId with
  | none => simp [rebuildThinDoc, hchat] at hrebuild
  | some chatId =>
    simp only [rebuildThinDoc, hchat, Except.ok.injEq] at hrebuild
    rw [← hrebuild, commands_foldl_queueCommand, commands_foldl_pushMessage] at hentry
    simp only [SessionDoc.init, nil_append, mem_map, mem_filter,
      decide_eq_true_eq] at hentry
    obtain ⟨command, ⟨_, hpending⟩, rfl⟩ := hentry
    exact hpending

end Keel
