import Keel.Dsh.SessionLog
import Keel.Dsh.Translate

/-! # Incremental chunk-to-message assembly

Adapters emit chunks whose indexes tell interleaved blocks apart. The assembler gathers the deltas
of each index; a block end is authoritative and freezes its block. Reaching one of the assembler's
panics is `none`.
-/

namespace Keel.Llm

open Session (ContentBlock)

section Chunks

/-- The block `type` tag vocabulary. -/
inductive BlockType where
  | text
  | reasoning
  | image
  | toolCall
  | toolResult
deriving DecidableEq

def blockType : ContentBlock → BlockType
  | .text .. => .text
  | .reasoning .. => .reasoning
  | .image .. => .image
  | .toolCall .. => .toolCall
  | .toolResult .. => .toolResult

/-- Why a model response stopped. -/
inductive FinishReason where
  | stop
  | toolCalls
  | maxTokens
  | aborted (failure : LlmFailure)
  | error (failure : LlmFailure)
deriving DecidableEq

/-- Token accounting for one model call. Counts are disjoint. -/
structure TokenUsage where
  inputTokens : Nat
  outputTokens : Nat
  cacheReadTokens : Option Nat
  cacheWriteTokens : Option Nat
  reasoningTokens : Option Nat

/-- The streaming protocol of adapters. -/
inductive StreamChunk where
  | blockStart (index : Nat) (blockType : BlockType)
  | textDelta (index : Nat) (text : String)
  | reasoningDelta (index : Nat) (text : String)
  | toolCallDelta (index : Nat) (id : String) (name : Option String) (argumentsDelta : String)
  | blockEnd (index : Nat) (block : ContentBlock)
  | usage (usage : TokenUsage)
  | finish (reason : FinishReason) (replayState : Option Json)

end Chunks

section Assembler

structure PartialBlock where
  blockType : BlockType
  text : String
  toolCallId : Option String
  toolCallName : Option String
  toolCallArguments : String
  /-- Set by a block end: authoritative, and freezes the partial. -/
  block : Option ContentBlock

def PartialBlock.new (blockType : BlockType) : PartialBlock :=
  ⟨blockType, "", none, none, "", none⟩

structure BlockAssembler where
  partials : Nat → Option PartialBlock := fun _ => none
  order : List Nat := []
  usage : Option TokenUsage := none
  finish : Option FinishReason := none
  replayState : Option Json := none

namespace BlockAssembler

/-- The assembler with a partial for the index, a new one if there is none. -/
def ensure (assembler : BlockAssembler) (index : Nat) (blockType : BlockType) : BlockAssembler :=
  match assembler.partials index with
  | some _ => assembler
  | none =>
    { assembler with
      order := assembler.order ++ [index]
      partials := Function.update assembler.partials index (some (.new blockType)) }

/-- Change the partial of an index as long as no block end has frozen it. -/
def change (assembler : BlockAssembler) (index : Nat) (f : PartialBlock → PartialBlock) :
    Option BlockAssembler :=
  (assembler.partials index).map fun old =>
    if old.block.isNone then
      { assembler with partials := Function.update assembler.partials index (some (f old)) }
    else assembler

/-- Feed one chunk into the assembly state, in stream order. -/
def push (assembler : BlockAssembler) : StreamChunk → Option BlockAssembler
  | .blockStart index blockType => some (assembler.ensure index blockType)
  | .textDelta index text =>
    (assembler.ensure index .text).change index fun old => { old with text := old.text ++ text }
  | .reasoningDelta index text =>
    (assembler.ensure index .reasoning).change index fun old =>
      { old with text := old.text ++ text }
  | .toolCallDelta index id name argumentsDelta =>
    (assembler.ensure index .toolCall).change index fun old =>
      { old with
        toolCallId := some id
        toolCallName := (name.filter (· ≠ "")).or old.toolCallName
        toolCallArguments := old.toolCallArguments ++ argumentsDelta }
  | .blockEnd index block =>
    (assembler.ensure index (blockType block)).change index fun old =>
      { old with block := some block }
  | .usage usage => some { assembler with usage := some usage }
  | .finish reason replayState =>
    some { assembler with finish := some reason, replayState := replayState }

def pushAll (assembler : BlockAssembler) (chunks : List StreamChunk) : Option BlockAssembler :=
  chunks.foldlM push assembler

/-- Finish reason from the finish chunk; stop when the stream ended without one. -/
def finishReason (assembler : BlockAssembler) : FinishReason := assembler.finish.getD .stop

/-- An open block assembles from its accumulated deltas. Blocks of other types cannot. -/
def assemble (content : PartialBlock) (index : Nat) : Option ContentBlock :=
  match content.block with
  | some block => some block
  | none =>
    match content.blockType with
    | .text => some (.text content.text)
    | .reasoning => some (.reasoning content.text)
    | .toolCall =>
      some (.toolCall (content.toolCallId.getD ("call-" ++ toString index))
        (content.toolCallName.getD "") content.toolCallArguments)
    | .image | .toolResult => none

/-- Assemble all blocks seen so far, in stream order. Max-token truncation drops tool calls that
cannot be executed safely. -/
def blocks (assembler : BlockAssembler) : Option (List ContentBlock) := do
  let blocks ← assembler.order.mapM fun index => do
    assemble (← assembler.partials index) index
  if assembler.finishReason = .maxTokens then
    pure (blocks.filter fun block => blockType block ≠ .toolCall)
  else pure blocks

end BlockAssembler

end Assembler

end Keel.Llm
