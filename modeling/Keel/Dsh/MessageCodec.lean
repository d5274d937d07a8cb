import Keel.Dsh.Inbox
import Keel.Proto.JsonFields

/-! # Messages as JSON values

The shape the derived serializers give messages and splices, with a reader of that shape. A
field that may be absent is absent too when it is null.
-/

namespace Keel.AgentInbox

open Json (str? bool? optional? record list?)
open Session (ContentBlock ContextSnapshotSection ContextForm AssistantProvenance MessageSource)
open Session (Message Role)

section ReadingBack

/-- A null replay state reads back as an absent one. -/
def settleSource : MessageSource → MessageSource
  | .model provenance => .model { provenance with
      replayState := provenance.replayState.filter fun state => state ≠ .null }
  | source => source

def settle (message : Message) : Message := { message with source := settleSource message.source }

theorem settle_id (message : Message) : (settle message).id = message.id := rfl

def InboxSplice.settled (splice : InboxSplice) : InboxSplice :=
  { splice with inserted := splice.inserted.map settle }

/-- What the serializer documents: an absent field and a null one read the same, and all else
reads back as it was written. -/
def SpliceCodec.Reads (codec : SpliceCodec) : Prop :=
  ∀ splice, codec.fromValue (codec.toValue splice) = some splice.settled

/-- The message carries no null replay state. -/
def Lossless (message : Message) : Prop :=
  match message.source with
  | .model provenance => provenance.replayState ≠ some .null
  | _ => True

instance (message : Message) : Decidable (Lossless message) := by
  unfold Lossless
  cases message.source <;> infer_instance

theorem settle_eq_self {message : Message} : settle message = message ↔ Lossless message := by
  obtain ⟨id, role, content, source⟩ := message
  cases source with
  | model provenance =>
    obtain ⟨provider, model, replayState⟩ := provenance
    cases replayState with
    | none => simp [settle, settleSource, Lossless]
    | some state =>
      by_cases hstate : state = .null <;>
        simp [settle, settleSource, Lossless, hstate, Option.filter]
  | _ => simp [settle, settleSource, Lossless]

end ReadingBack

attribute [local simp] List.lookup_cons str? settleSource Json.field?

section Content

mutual

def blockToJson : ContentBlock → Json
  | .text text => .object [("type", .string "text"), ("text", .string text)]
  | .reasoning text => .object [("type", .string "reasoning"), ("text", .string text)]
  | .image attachment => .object [("type", .string "image"), ("attachment", attachment)]
  | .toolCall id name arguments =>
    .object [("type", .string "tool-call"), ("id", .string id), ("name", .string name),
      ("arguments", .string arguments)]
  | .toolResult toolCallId content isError =>
    record [("type", some (.string "tool-result")), ("tool_call_id", some (.string toolCallId)),
      ("content", some (.array (blocksToJson content))), ("is_error", isError.map .bool)]

def blocksToJson : List ContentBlock → List Json
  | [] => []
  | block :: rest => blockToJson block :: blocksToJson rest

end

mutual

def blockOfJson : Json → Option ContentBlock
  | .object fields => do
      match ← (fields.lookup "type").bind str? with
      | "text" => return .text (← (fields.lookup "text").bind str?)
      | "reasoning" => return .reasoning (← (fields.lookup "text").bind str?)
      | "image" => return .image (← fields.lookup "attachment")
      | "tool-call" =>
        return .toolCall (← (fields.lookup "id").bind str?) (← (fields.lookup "name").bind str?)
          (← (fields.lookup "arguments").bind str?)
      | "tool-result" =>
        return .toolResult (← (fields.lookup "tool_call_id").bind str?) (← contentOfFields fields)
          (← optional? bool? (fields.lookup "is_error"))
      | _ => none
  | _ => none

/-- The blocks of the field `content`. -/
def contentOfFields : List (String × Json) → Option (List ContentBlock)
  | [] => none
  | (key, .array items) :: rest =>
    if key = "content" then blocksOfItems items else contentOfFields rest
  | (key, _) :: rest => if key = "content" then none else contentOfFields rest

def blocksOfItems : List Json → Option (List ContentBlock)
  | [] => some []
  | item :: rest => do return (← blockOfJson item) :: (← blocksOfItems rest)

end

mutual

theorem blockOfJson_toJson : ∀ block, blockOfJson (blockToJson block) = some block
  | .text text | .reasoning text | .image attachment | .toolCall id name arguments =>
    by simp [blockToJson, blockOfJson]
  | .toolResult toolCallId content isError => by
      cases isError <;> simp [blockToJson, record, blockOfJson, contentOfFields,
        blocksOfItems_toJson content, optional?, bool?]

theorem blocksOfItems_toJson : ∀ blocks, blocksOfItems (blocksToJson blocks) = some blocks
  | [] => rfl
  | block :: rest => by
      simp [blocksToJson, blocksOfItems, blockOfJson_toJson block, blocksOfItems_toJson rest]

end

end Content

section Sources

def sectionToJson (contribution : ContextSnapshotSection) : Json :=
  .object [("name", .string contribution.name), ("text", .string contribution.text)]

def sectionOfJson (json : Json) : Option ContextSnapshotSection := do
  return { name := ← (json.field? "name").bind str?, text := ← (json.field? "text").bind str? }

/-- The fields of a form, which stand among those of its source. -/
def formFields : ContextForm → List (String × Json)
  | .instructions => [("form", .string "instructions")]
  | .catalog => [("form", .string "catalog")]
  | .snapshot sections =>
    [("form", .string "snapshot"), ("sections", .array (sections.map sectionToJson))]
  | .notice summary => [("form", .string "notice"), ("summary", .string summary)]
  | .relay => [("form", .string "relay")]
  | .recall => [("form", .string "recall")]

def formOfJson (json : Json) : Option ContextForm := do
  match ← (json.field? "form").bind str? with
  | "instructions" => return .instructions
  | "catalog" => return .catalog
  | "snapshot" => return .snapshot (← (json.field? "sections").bind (list? sectionOfJson))
  | "notice" => return .notice (← (json.field? "summary").bind str?)
  | "relay" => return .relay
  | "recall" => return .recall
  | _ => none

def sourceToJson : MessageSource → Json
  | .user => .object [("kind", .string "user")]
  | .plugin plugin form =>
    .object (("kind", .string "plugin") :: ("plugin", .string plugin) ::
      (form.map formFields).getD [])
  | .model provenance =>
    record [("kind", some (.string "model")), ("provider", some (.string provenance.provider)),
      ("model", some (.string provenance.model)), ("replayState", provenance.replayState)]
  | .tool callId => .object [("kind", .string "tool"), ("call_id", .string callId)]

def sourceOfJson (json : Json) : Option MessageSource := do
  match ← (json.field? "kind").bind str? with
  | "user" => return .user
  | "plugin" => return .plugin (← (json.field? "plugin").bind str?) (formOfJson json)
  | "model" => return .model {
      provider := ← (json.field? "provider").bind str?
      model := ← (json.field? "model").bind str?
      replayState := ← optional? some (json.field? "replayState") }
  | "tool" => return .tool (← (json.field? "call_id").bind str?)
  | _ => none

theorem sectionOfJson_toJson (contribution : ContextSnapshotSection) :
    sectionOfJson (sectionToJson contribution) = some contribution := by
  simp [sectionToJson, sectionOfJson]

attribute [local simp] sourceToJson sourceOfJson

theorem sourceOfJson_toJson (source : MessageSource) :
    sourceOfJson (sourceToJson source) = some (settleSource source) := by
  cases source with
  | user => simp
  | plugin plugin form =>
    cases form with
    | none =>
      simp [formOfJson]
    | some form =>
      cases form <;> simp [formOfJson, formFields, Json.list?_array sectionOfJson_toJson]
  | model provenance =>
    obtain ⟨provider, model, replayState⟩ := provenance
    cases replayState with
    | none =>
      simp [record, optional?]
    | some state =>
      cases state <;> simp [record, optional?, Option.filter]
  | tool callId => simp

end Sources

section Splices

def roleToJson : Role → Json
  | .system => .string "system"
  | .user => .string "user"
  | .assistant => .string "assistant"

def roleOfJson (json : Json) : Option Role := do
  match ← json.str? with
  | "system" => return .system
  | "user" => return .user
  | "assistant" => return .assistant
  | _ => none

def messageToJson (message : Message) : Json :=
  .object [("id", .string message.id), ("role", roleToJson message.role),
    ("content", .array (blocksToJson message.content)), ("source", sourceToJson message.source)]

def messageOfJson (json : Json) : Option Message := do
  return {
    id := ← (json.field? "id").bind str?
    role := ← (json.field? "role").bind roleOfJson
    content := ← ((json.field? "content").bind Json.array?).bind blocksOfItems
    source := ← (json.field? "source").bind sourceOfJson }

theorem messageOfJson_toJson (message : Message) :
    messageOfJson (messageToJson message) = some (settle message) := by
  obtain ⟨id, role, content, source⟩ := message
  cases role <;> simp [messageToJson, messageOfJson, roleToJson, roleOfJson, Json.array?,
    blocksOfItems_toJson, sourceOfJson_toJson, settle]

def targetToJson : InboxTarget → Json
  | .nextTurn => .string "next-turn"
  | .nextStep => .string "next-step"

def targetOfJson (json : Json) : Option InboxTarget := do
  match ← json.str? with
  | "next-turn" => return .nextTurn
  | "next-step" => return .nextStep
  | _ => none

def natOfJson : Json → Option Nat
  | .int value => if 0 ≤ value then some value.toNat else none
  | _ => none

def outcomeOfJson (json : Json) : Option SpliceOutcome := do
  match ← json.str? with
  | "canceled" => return .canceled
  | _ => none

/-- A splice as its derived serializer writes it, and as its derived deserializer reads it. -/
def derivedCodec : SpliceCodec where
  toValue splice := record [("target", some (targetToJson splice.target)),
    ("start", some (.int splice.start)),
    ("removedCount", splice.removedCount.map fun count => .int count),
    ("inserted", some (.array (splice.inserted.map messageToJson))),
    ("outcome", splice.outcome.map fun _ => .string "canceled")]
  fromValue json := do
    return {
      target := ← (json.field? "target").bind targetOfJson
      start := ← (json.field? "start").bind natOfJson
      removedCount := ← optional? natOfJson (json.field? "removedCount")
      inserted := ← (json.field? "inserted").bind (list? messageOfJson)
      outcome := ← optional? outcomeOfJson (json.field? "outcome") }

theorem derivedCodec_reads : derivedCodec.Reads := by
  rintro ⟨target, start, removedCount, inserted, outcome⟩
  have hmessages := Json.list?_array_map messageOfJson_toJson inserted
  cases target <;> cases removedCount <;> rcases outcome with _ | ⟨⟨⟩⟩ <;>
    simp [derivedCodec, record, targetToJson, targetOfJson, natOfJson, optional?, outcomeOfJson,
      hmessages, InboxSplice.settled]

end Splices

end Keel.AgentInbox
