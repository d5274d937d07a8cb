import Keel.Doc.Rebuild
import Keel.Proto.JsonFields

/-! # Documents as any writer left them

A document is merged from the writes of every device and app version, so its
entries, parts and commands are JSON values of any shape. Reading is strict
first; what fails is salvaged field by field, and a value that is not a map at
all is skipped. Documents written by this code are a special case.
-/

namespace Keel

open List

/-- The derived (de)serializers, together with the value conversion of the
document library: what a stored value reads as and what a value is stored as.
None of them reads null. -/
class StoredValues where
  readCall : Json → Option ToolCall
  storeCall : ToolCall → Json
  readQuestions : Json → Option (List UserInputQuestion)
  storeQuestions : List UserInputQuestion → Json
  readDecision : Json → Option DecisionEvent
  storeDecision : DecisionEvent → Json
  readDiff : Json → Option ToolDiff
  storeDiff : ToolDiff → Json
  readDiffStats : Json → Option (List ToolDiffStat)
  storeDiffStats : List ToolDiffStat → Json
  readRole : Json → Option MessageRole
  storeRole : MessageRole → Json
  readStatus : Json → Option MessageStatus
  storeStatus : MessageStatus → Json
  readCommand : Json → Option SessionCommandEntry
  storeCommand : SessionCommandEntry → Json
  /-- The stand-in id of an entry without one, from a hash of its content. -/
  recoveredId : Json → String

open StoredValues

/-- What the libraries guarantee. Tool calls carry JSON of their own, whose
numbers may change when they are first stored but not after that. -/
class LawfulStoredValues [StoredValues] : Prop where
  call_isSome : ∀ call, (readCall (storeCall call)).isSome
  call_stable : ∀ json call, readCall json = some call → readCall (storeCall call) = some call
  questions : ∀ questions, readQuestions (storeQuestions questions) = some questions
  /-- A receipt that was read can be stored once it is bounded. -/
  decision_stable : ∀ json event, readDecision json = some event →
    readDecision (storeDecision event.bounded) = some event.bounded
  diffStats_isSome : ∀ stats, (readDiffStats (storeDiffStats stats)).isSome
  diffStats_stable : ∀ json stats, readDiffStats json = some stats →
    readDiffStats (storeDiffStats stats) = some stats
  role : ∀ role, readRole (storeRole role) = some role
  status : ∀ status, readStatus (storeStatus status) = some status
  status_ne_null : ∀ status, storeStatus status ≠ .null
  /-- A command that was read can be queued again. -/
  command_stable : ∀ json entry, readCommand json = some entry →
    readCommand (storeCommand { entry with resolution := none }) =
      some { entry with resolution := none }

/-- Storing a value and reading it back. -/
instance StoredValues.serde [StoredValues] [LawfulStoredValues] : Serde where
  call toolCall := readCall (storeCall toolCall)
  questions questions := readQuestions (storeQuestions questions)
  diff diff := readDiff (storeDiff diff)
  diffStats stats := readDiffStats (storeDiffStats stats)
  decision event := readDecision (storeDecision event)
  call_isSome := LawfulStoredValues.call_isSome
  diffStats_isSome := LawfulStoredValues.diffStats_isSome

/-! ## Reading -/

section Reading

variable [StoredValues]

/-- The strict shape of a stored part. The values inside it that do not parse
count as absent. -/
def readDocPart (json : Json) : Option DocPartJson := do
  guard (json.isRecord 15)
  let id ← (json.member? 0 "id").bind Json.str?
  let kind ← (json.member? 1 "kind").bind Json.str?
  let text ← Json.optional? Json.str? (json.member? 2 "text")
  let isError ← Json.optional? Json.bool? (json.member? 4 "isError")
  let resolved ← Json.optional? Json.bool? (json.member? 6 "resolved")
  let message ← Json.optional? Json.str? (json.member? 7 "message")
  let output ← Json.optional? Json.str? (json.member? 9 "output")
  let outputRef ← Json.optional? Json.str? (json.member? 11 "outputRef")
  let outputBytes ← Json.optional? Json.u64? (json.member? 12 "outputBytes")
  let diffRef ← Json.optional? Json.str? (json.member? 13 "diffRef")
  return { id, kind, text, isError, resolved, message, output, outputRef, outputBytes, diffRef
           call := (json.member? 3 "call").bind readCall
           questions := (json.member? 5 "questions").bind readQuestions
           decision := (json.member? 8 "decision").bind readDecision
           diff := (json.member? 10 "diff").bind readDiff
           diffStats := (json.member? 14 "diffStats").bind readDiffStats }

/-- The part of a strict record whose values are parsed already. -/
def ofDocPart (part : DocPartJson) : MessagePart := @fromDocPart .verbatim part

/-- Salvage one part by its content; a value that is not a map is lost. -/
def salvageStoredPart (json : Json) (entryId : String) (index : Nat) : Option MessagePart :=
  if json.isObject then
    let id := ((json.field? "id").bind Json.str?).getD (entryId ++ "#recovered-" ++ toString index)
    match (json.field? "text").bind Json.str?, (json.field? "call").bind readCall,
        (json.field? "message").bind Json.str? with
    | some text, _, _ => some (.text id text)
    | none, some call, _ => some <| .tool
        { id, call
          isError := ((json.field? "isError").bind Json.bool?).getD false
          resolved := ((json.field? "resolved").bind Json.bool?).getD true
          output := (json.field? "output").bind Json.str?
          diff := none, outputRef := none, outputBytes := none, diffRef := none
          diffStats := none }
    | none, none, some message => some (.error id message)
    | none, none, none => none
  else none

def readPart (json : Json) (entryId : String) (index : Nat) : Option MessagePart :=
  match readDocPart json with
  | some part => some (ofDocPart part)
  | none => salvageStoredPart json entryId index

/-- The strict shape of a parts list; a missing list is empty. -/
def readDocParts : Option Json → Option (List DocPartJson)
  | none => some []
  | some parts => parts.array?.bind fun parts => parts.mapM readDocPart

/-- The strict shape of an entry: every part must have its strict shape. -/
def readStrictEntry (json : Json) : Option SessionMessageEntry := do
  guard (json.isRecord 7)
  let id ← (json.member? 0 "id").bind Json.str?
  let role ← (json.member? 1 "role").bind readRole
  let parts ← readDocParts (json.member? 2 "parts")
  let createdAt ← (json.member? 3 "createdAt").bind Json.i64?
  let deviceId ← (json.member? 4 "deviceId").bind Json.str?
  let status ← Json.optional? readStatus (json.member? 5 "status")
  let continuationOf ← Json.optional? Json.str? (json.member? 6 "continuationOf")
  return { id, role, parts := parts.map ofDocPart, createdAt, deviceId, status, continuationOf }

/-- Salvage an entry field by field; missing fields get stand-ins. -/
def salvageEntry (json : Json) : Option SessionMessageEntry :=
  if json.isObject then
    let id := ((json.field? "id").bind Json.str?).getD (recoveredId json)
    let parts := ((json.field? "parts").bind Json.array?).getD []
    some
      { id
        role := ((json.field? "role").bind readRole).getD .assistant
        parts := parts.zipIdx.filterMap fun (part, index) => readPart part id index
        createdAt := ((json.field? "createdAt").bind Json.i64?).getD 0
        deviceId := ((json.field? "deviceId").bind Json.str?).getD ""
        status := (json.field? "status").bind readStatus
        continuationOf := (json.field? "continuationOf").bind Json.str? }
  else none

/-- The thin document of the entries and commands that were read. -/
def rebuildEntries [LineDiff] (chatId : String) (entries : List SessionMessageEntry)
    (commands : List SessionCommandEntry) : ThinRebuild :=
  let stripped := entries.map (stripEntry chatId)
  let pending := commands.filter fun command => command.status = .pending
  let thin := { SessionDoc.init chatId with epoch := thinDocEpoch }
  let thin := (stripped.map Prod.fst).foldl SessionDoc.pushMessage thin
  { doc := pending.foldl SessionDoc.queueCommand thin
    sidecar := stripped.flatMap Prod.snd
    entries := stripped.length
    commandsCopied := pending.length }

/-- A document with the values its lists hold. -/
structure RawSessionDoc where
  chatId : Option String
  messages : List Json
  commands : List Json

namespace RawSessionDoc

/-- Entries that cannot be salvaged are skipped. -/
def readEntries (doc : RawSessionDoc) : List SessionMessageEntry :=
  doc.messages.filterMap fun json => (readStrictEntry json).or (salvageEntry json)

def readCommands (doc : RawSessionDoc) : List SessionCommandEntry := doc.commands.filterMap readCommand

/-- The rebuild of a document, whoever wrote it. -/
def rebuildThinDoc [LineDiff] (source : RawSessionDoc) : Except DocError ThinRebuild :=
  match source.chatId with
  | none => .error (.schema "source doc has no chatId")
  | some chatId => .ok (rebuildEntries chatId source.readEntries source.readCommands)

end RawSessionDoc

/-! ## Documents this code wrote -/

def PartMap.stored (part : PartMap) : Json :=
  Json.record
    [("id", part.id.map .string), ("kind", part.kind.map .string), ("text", part.text.map .string),
      ("call", part.call.map storeCall), ("isError", part.isError.map .bool),
      ("questions", part.questions.map storeQuestions), ("resolved", part.resolved.map .bool),
      ("message", part.message.map .string), ("decision", part.decision.map storeDecision),
      ("output", part.output.map .string), ("diff", part.diff.map storeDiff),
      ("outputRef", part.outputRef.map .string), ("outputBytes", part.outputBytes.map .int),
      ("diffRef", part.diffRef.map .string), ("diffStats", part.diffStats.map storeDiffStats)]

def EntryMap.stored (entry : EntryMap) : Json :=
  Json.record
    [("id", some (.string entry.id)), ("role", some (storeRole entry.role)),
      ("createdAt", some (.int entry.createdAt)), ("deviceId", some (.string entry.deviceId)),
      ("status", entry.status.map storeStatus),
      ("continuationOf", entry.continuationOf.map .string),
      ("parts", some (.array (entry.parts.map PartMap.stored)))]

def SessionDoc.stored (doc : SessionDoc) : RawSessionDoc :=
  { chatId := doc.chatId, messages := doc.messages.map EntryMap.stored
    commands := doc.commands.map storeCommand }

/-- The part has its strict shape, with a byte count a document can hold. -/
structure PartMap.WellFormed (part : PartMap) : Prop where
  strict : part.toDocPart?.isSome
  outputBytes : ∀ bytes ∈ part.outputBytes, bytes < 2 ^ 63

structure EntryMap.WellFormed (entry : EntryMap) : Prop where
  createdAt : -2 ^ 63 ≤ entry.createdAt ∧ entry.createdAt < 2 ^ 63
  parts : ∀ part ∈ entry.parts, part.WellFormed

/-- The values inside a part record, each stored and read back. -/
def DocPartJson.reread (part : DocPartJson) : DocPartJson :=
  { part with
    call := part.call.bind fun call => readCall (storeCall call)
    questions := part.questions.bind fun questions => readQuestions (storeQuestions questions)
    decision := part.decision.bind fun event => readDecision (storeDecision event)
    diff := part.diff.bind fun diff => readDiff (storeDiff diff)
    diffStats := part.diffStats.bind fun stats => readDiffStats (storeDiffStats stats) }

end Reading

/-! ## Reading back what was written -/

theorem rebuildThinDoc_eq [LineDiff] [Serde] (source : SessionDoc) :
    rebuildThinDoc source = match source.chatId with
      | none => .error (.schema "source doc has no chatId")
      | some chatId => .ok (rebuildEntries chatId source.readEntries source.readCommands) := rfl

theorem bind_map_read {α β : Type} (read : Json → Option β) (store : α → Json) (value : Option α) :
    (value.map store).bind read = value.bind fun value => read (store value) := by
  cases value <;> rfl

theorem optional?_string (value : Option String) :
    Json.optional? Json.str? (value.map Json.string) = some value :=
  @Json.optional?_map String Json.str? Json.string (fun _ => rfl) (by simp) value

theorem optional?_bool (value : Option Bool) :
    Json.optional? Json.bool? (value.map Json.bool) = some value :=
  @Json.optional?_map Bool Json.bool? Json.bool (fun _ => rfl) (by simp) value

theorem optional?_u64 {bytes : Option Int} {count : Option Nat}
    (hbytes : ∀ value ∈ bytes, value < 2 ^ 63) (hcount : unsigned? bytes = some count) :
    Json.optional? Json.u64? (bytes.map Json.int) = some count := by
  cases bytes with
  | none =>
    cases hcount
    rfl
  | some value =>
    cases value with
    | ofNat value =>
      cases hcount
      have hfits := hbytes _ rfl
      rw [Int.ofNat_eq_natCast] at hfits
      rw [Option.map_some, Json.optional?_some _ (by simp)]
      exact congrArg (Option.map some) (Json.u64?_int (by omega))
    | negSucc value => cases hcount

section Written

variable [StoredValues]

theorem readDocPart_stored {part : PartMap} (hpart : part.WellFormed) :
    readDocPart part.stored = part.toDocPart?.map DocPartJson.reread := by
  obtain ⟨docPart, hstrict⟩ := Option.isSome_iff_exists.mp hpart.strict
  rw [hstrict]
  simp only [PartMap.toDocPart?, Option.bind_eq_bind, Option.bind_eq_some_iff, Option.pure_def,
    Option.some.injEq] at hstrict
  obtain ⟨id, hid, kind, hkind, count, hcount, rfl⟩ := hstrict
  have hbytes := optional?_u64 hpart.outputBytes hcount
  simp only [readDocPart, PartMap.stored, Json.member?_record_cons_self,
    Json.member?_record_cons_of_ne, ne_eq, String.reduceEq, not_false_eq_true,
    Json.member?_record_nil, Option.or_none, optional?_string, optional?_bool, hbytes, hid, hkind,
    bind_map_read]
  rfl

theorem mapM_readDocPart_stored {parts : List PartMap} (hparts : ∀ part ∈ parts, part.WellFormed) :
    ∃ docParts, parts.mapM PartMap.toDocPart? = some docParts ∧
      (parts.map PartMap.stored).mapM readDocPart = some (docParts.map DocPartJson.reread) := by
  induction parts with
  | nil => exact ⟨[], rfl, rfl⟩
  | cons part rest ih =>
    rw [forall_mem_cons] at hparts
    obtain ⟨docPart, hdocPart⟩ := Option.isSome_iff_exists.mp hparts.1.strict
    obtain ⟨docParts, hstrict, hstored⟩ := ih hparts.2
    have hread := readDocPart_stored hparts.1
    rw [hdocPart] at hread
    exact ⟨docPart :: docParts, by simp [hdocPart, hstrict], by simp [hread, hstored]⟩

variable [LawfulStoredValues]

theorem ofDocPart_reread (part : DocPartJson) : ofDocPart part.reread = fromDocPart part := by
  have hcall (value) : Option.bind value (@Serde.call .verbatim) = value :=
    Option.bind_fun_some value
  have hquestions (value) : Option.bind value (@Serde.questions .verbatim) = value :=
    Option.bind_fun_some value
  have hdecision (value) : Option.bind value (@Serde.decision .verbatim) = value :=
    Option.bind_fun_some value
  have hdiff (value) : Option.bind value (@Serde.diff .verbatim) = value :=
    Option.bind_fun_some value
  have hdiffStats (value) : Option.bind value (@Serde.diffStats .verbatim) = value :=
    Option.bind_fun_some value
  simp only [ofDocPart, fromDocPart, DocPartJson.reread, hcall, hquestions, hdecision, hdiff,
    hdiffStats]
  rfl

theorem readStrictEntry_stored {entry : EntryMap} (hentry : entry.WellFormed) :
    readStrictEntry entry.stored = some (entryFromJson entry) := by
  obtain ⟨docParts, hstrict, hstored⟩ := mapM_readDocPart_stored hentry.parts
  have hcreated := Json.i64?_int hentry.createdAt.1 hentry.createdAt.2
  have hstatus : Json.optional? readStatus (entry.status.map storeStatus) = some entry.status :=
    Json.optional?_map LawfulStoredValues.status LawfulStoredValues.status_ne_null entry.status
  have hparts : readParts entry.id entry.parts =
      (docParts.map DocPartJson.reread).map ofDocPart := by
    rw [readParts, hstrict, map_map]
    exact map_congr_left fun docPart _ => (ofDocPart_reread docPart).symm
  simp only [readStrictEntry, EntryMap.stored, Json.member?_record_cons_self,
    Json.member?_record_cons_of_ne, ne_eq, String.reduceEq, not_false_eq_true,
    Json.member?_record_nil, Option.or_none, optional?_string, Option.bind_some,
    hcreated, hstatus, LawfulStoredValues.role, Json.str?, readDocParts, Json.array?, hstored]
  rw [entryFromJson, hparts]
  rfl

theorem SessionDoc.readEntries_stored {doc : SessionDoc}
    (hdoc : ∀ entry ∈ doc.messages, entry.WellFormed) :
    doc.stored.readEntries = doc.readEntries := by
  rw [RawSessionDoc.readEntries, SessionDoc.stored, filterMap_map, SessionDoc.readEntries,
    ← filterMap_eq_map]
  apply filterMap_congr
  intro entry hentry
  simp [readStrictEntry_stored (hdoc entry hentry)]

end Written

end Keel
