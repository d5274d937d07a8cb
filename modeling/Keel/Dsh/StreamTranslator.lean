import Keel.Dsh.BlockAssembler
import Keel.Foundation.Grouping

/-! # Wire chunks translated and assembled

The translator keeps one block per content, reasoning or tool-call index and defers block ends,
usage and finish to the sentinel. What it emits is given by the fragments alone, and so is what
the assembler makes of it, with the block ends or without them.
-/

namespace Keel.Llm

open List Option

open Session (ContentBlock)

section Wire

/-- The token accounting of the wire. Prompt tokens include cache hits. -/
structure WireUsage where
  promptTokens : Nat
  completionTokens : Nat
  promptCacheHitTokens : Option Nat
  /-- `prompt_tokens_details.cached_tokens`. -/
  cachedTokens : Option Nat
  /-- `completion_tokens_details.reasoning_tokens`. -/
  reasoningTokens : Option Nat

structure WireFunctionDelta where
  name : Option String
  arguments : Option String

/-- A fragment of one tool call; fragments that share an index concatenate into one call. -/
structure WireToolCallDelta where
  index : Nat
  id : Option String
  function : Option WireFunctionDelta

structure WireDelta where
  content : Option String
  reasoningContent : Option String
  toolCalls : List WireToolCallDelta

structure WireChoice where
  delta : Option WireDelta
  finishReason : Option String

/-- One parsed payload. -/
structure WireChunk where
  choices : List WireChoice
  usage : Option WireUsage

/-- Uppercase of the Unicode tables, and the parser of payloads. -/
class WireLibrary where
  toUppercase : String → String
  parse : String → Option WireChunk

variable [WireLibrary]

def mapFinishReason (reason : String) : FinishReason :=
  if reason = "stop" then .stop
  else if reason = "tool_calls" then .toolCalls
  else if reason = "length" then .maxTokens
  else .error ⟨"model stopped: " ++ reason, WireLibrary.toUppercase reason⟩

/-- Cache reads subtract out of the input tokens. -/
def mapUsage (usage : WireUsage) : TokenUsage :=
  let cacheRead := usage.cachedTokens.or usage.promptCacheHitTokens
  { inputTokens := usage.promptTokens - cacheRead.getD 0
    outputTokens := usage.completionTokens
    cacheReadTokens := cacheRead
    cacheWriteTokens := none
    reasoningTokens := usage.reasoningTokens }

end Wire

section Translator

inductive OpenKind where
  | text
  | reasoning
  | toolCall

/-- What a block is opened for: the content, the reasoning, or a tool-call index. -/
inductive Slot where
  | text
  | reasoning
  | toolCall (index : Nat)
deriving DecidableEq

def Slot.kind : Slot → OpenKind
  | .text => .text
  | .reasoning => .reasoning
  | .toolCall _ => .toolCall

def Slot.blockType : Slot → BlockType
  | .text => .text
  | .reasoning => .reasoning
  | .toolCall _ => .toolCall

structure OpenBlock where
  index : Nat
  kind : OpenKind
  text : String
  callId : Option String
  name : Option String

def closeBlock (block : OpenBlock) : ContentBlock :=
  match block.kind with
  | .text => .text block.text
  | .reasoning => .reasoning block.text
  | .toolCall => .toolCall (block.callId.getD "") (block.name.getD "") block.text

structure Translator where
  nextIndex : Nat := 0
  textSlot : Option Nat := none
  reasoningSlot : Option Nat := none
  toolSlots : Nat → Option Nat := fun _ => none
  order : List OpenBlock := []
  pendingFinish : Option FinishReason := none
  pendingUsage : Option TokenUsage := none

namespace Translator

def slotOf (translator : Translator) : Slot → Option Nat
  | .text => translator.textSlot
  | .reasoning => translator.reasoningSlot
  | .toolCall index => translator.toolSlots index

def remember (translator : Translator) (place : Nat) : Slot → Translator
  | .text => { translator with textSlot := some place }
  | .reasoning => { translator with reasoningSlot := some place }
  | .toolCall index =>
    { translator with toolSlots := Function.update translator.toolSlots index (some place) }

/-- `open`: a new block behind the others, and its place. -/
def openBlock (translator : Translator) (kind : OpenKind) : Translator × Nat :=
  ({ translator with
      nextIndex := translator.nextIndex + 1
      order := translator.order ++ [⟨translator.nextIndex, kind, "", none, none⟩] },
    translator.order.length)

/-- The place of the block of a slot, opened and announced when there is none. -/
def ensureSlot (translator : Translator) (slot : Slot) :
    Option (Translator × Nat × List StreamChunk) :=
  match translator.slotOf slot with
  | some place => some (translator, place, [])
  | none => do
      let (opened, place) := translator.openBlock slot.kind
      let block ← opened.order[place]?
      pure (opened.remember place slot, place, [.blockStart block.index slot.blockType])

/-- Content or reasoning; an empty text does not open a block. -/
def feedText (translator : Translator) (slot : Slot) (delta : Nat → String → StreamChunk)
    (text : Option String) : Option (Translator × List StreamChunk) :=
  match text with
  | none => some (translator, [])
  | some text =>
    if text = "" then some (translator, [])
    else do
      let (translator, place, started) ← translator.ensureSlot slot
      let block ← translator.order[place]?
      let block := { block with text := block.text ++ text }
      pure ({ translator with order := translator.order.set place block },
        started ++ [delta block.index text])

def feedReasoning (translator : Translator) (delta : WireDelta) :
    Option (Translator × List StreamChunk) :=
  translator.feedText .reasoning .reasoningDelta delta.reasoningContent

def feedContent (translator : Translator) (delta : WireDelta) :
    Option (Translator × List StreamChunk) :=
  translator.feedText .text .textDelta delta.content

def feedCall (translator : Translator) (call : WireToolCallDelta) :
    Option (Translator × List StreamChunk) := do
  let (translator, place, started) ← translator.ensureSlot (.toolCall call.index)
  let block ← translator.order[place]?
  let fragment := (call.function.bind (·.arguments)).getD ""
  let block := { block with
    callId := call.id.or block.callId
    name := (call.function.bind (·.name)).or block.name
    text := block.text ++ fragment }
  pure ({ translator with order := translator.order.set place block },
    started ++ [.toolCallDelta block.index (block.callId.getD "") block.name fragment])

def feedCalls (translator : Translator) :
    List WireToolCallDelta → Option (Translator × List StreamChunk)
  | [] => some (translator, [])
  | call :: calls => do
      let (translator, first) ← translator.feedCall call
      let (translator, rest) ← translator.feedCalls calls
      pure (translator, first ++ rest)

variable [WireLibrary]

def noteFinish (translator : Translator) (finishReason : Option String) : Translator :=
  { translator with
    pendingFinish := (finishReason.map mapFinishReason).or translator.pendingFinish }

/-- Reasoning first: thinking mode interleaves it before text. -/
def feedChoice (translator : Translator) (choice : WireChoice) :
    Option (Translator × List StreamChunk) :=
  match choice.delta with
  | none => some (translator.noteFinish choice.finishReason, [])
  | some delta => do
      let (translator, reasoning) ← translator.feedReasoning delta
      let (translator, content) ← translator.feedContent delta
      let (translator, calls) ← translator.feedCalls delta.toolCalls
      pure (translator.noteFinish choice.finishReason, reasoning ++ content ++ calls)

def feedChoices (translator : Translator) :
    List WireChoice → Option (Translator × List StreamChunk)
  | [] => some (translator, [])
  | choice :: choices => do
      let (translator, first) ← translator.feedChoice choice
      let (translator, rest) ← translator.feedChoices choices
      pure (translator, first ++ rest)

/-- Translate one parsed payload. The latest usage is kept. -/
def feedChunk (translator : Translator) (chunk : WireChunk) :
    Option (Translator × List StreamChunk) := do
  let (translator, out) ← translator.feedChoices chunk.choices
  pure ({ translator with pendingUsage := (chunk.usage.map mapUsage).or translator.pendingUsage },
    out)

/-- Translate one payload; a malformed one aborts the stream. -/
def feed (translator : Translator) (payload : String) :
    Option (Except LlmFailure (Translator × List StreamChunk)) :=
  match WireLibrary.parse payload with
  | some chunk => (translator.feedChunk chunk).map .ok
  | none =>
    some (.error ⟨"malformed SSE payload: " ++ String.ofList (payload.toList.take 120),
      "MALFORMED_RESPONSE"⟩)

def feedAll (translator : Translator) :
    List WireChunk → Option (Translator × List StreamChunk)
  | [] => some (translator, [])
  | chunk :: chunks => do
      let (translator, first) ← translator.feedChunk chunk
      let (translator, rest) ← translator.feedAll chunks
      pure (translator, first ++ rest)

/-- A stop, or no finish reason, without blocks is a degenerate completion. -/
def finishOf (translator : Translator) : FinishReason :=
  let reason := translator.pendingFinish.getD .stop
  if reason = .stop ∧ translator.order.isEmpty then
    .error ⟨"model returned a completed response with no content", "EMPTY_RESPONSE"⟩
  else reason

/-- The sentinel: the deferred block ends, usage, and the finish. -/
def done (translator : Translator) : List StreamChunk :=
  translator.order.map (fun block => .blockEnd block.index (closeBlock block)) ++
    (translator.pendingUsage.map .usage).toList ++ [.finish translator.finishOf none]

end Translator

end Translator

section Fragments

open Grouping (keys rank having)

/-- A fragment of the wire, with the slot it belongs to. -/
structure Piece where
  slot : Slot
  text : String
  id : Option String
  name : Option String

def textPieces (slot : Slot) (text : Option String) : List Piece :=
  (text.filter (· ≠ "")).toList.map fun text => ⟨slot, text, none, none⟩

def callPiece (call : WireToolCallDelta) : Piece :=
  ⟨.toolCall call.index, (call.function.bind (·.arguments)).getD "", call.id,
    call.function.bind (·.name)⟩

def deltaPieces (delta : WireDelta) : List Piece :=
  textPieces .reasoning delta.reasoningContent ++ textPieces .text delta.content ++
    delta.toolCalls.map callPiece

def choicePieces (choice : WireChoice) : List Piece := (choice.delta.map deltaPieces).getD []

def chunkPieces (chunk : WireChunk) : List Piece := chunk.choices.flatMap choicePieces

def textOf (past : List Piece) (slot : Slot) : String :=
  ((having Piece.slot past slot).map (·.text)).foldl (· ++ ·) ""

def idsOf (past : List Piece) (slot : Slot) : List String :=
  (having Piece.slot past slot).filterMap (·.id)

def namesOf (past : List Piece) (slot : Slot) : List String :=
  (having Piece.slot past slot).filterMap (·.name)

def lastId (past : List Piece) (slot : Slot) : Option String := (idsOf past slot).getLast?

def lastName (past : List Piece) (slot : Slot) : Option String := (namesOf past slot).getLast?

def lastNonemptyName (past : List Piece) (slot : Slot) : Option String :=
  ((namesOf past slot).filter (· ≠ "")).getLast?

variable {past : List Piece} {piece : Piece} {slot : Slot}

theorem textOf_snoc (past : List Piece) (piece : Piece) :
    textOf (past ++ [piece]) piece.slot = textOf past piece.slot ++ piece.text := by
  simp [textOf, Grouping.having_snoc_self]

theorem lastId_snoc (past : List Piece) (piece : Piece) :
    lastId (past ++ [piece]) piece.slot = piece.id.or (lastId past piece.slot) := by
  rw [lastId, idsOf, Grouping.having_snoc_self rfl, filterMap_append, getLast?_append]
  cases hid : piece.id <;> simp [hid, lastId, idsOf]

theorem lastName_snoc (past : List Piece) (piece : Piece) :
    lastName (past ++ [piece]) piece.slot = piece.name.or (lastName past piece.slot) := by
  rw [lastName, namesOf, Grouping.having_snoc_self rfl, filterMap_append,
    getLast?_append]
  cases hname : piece.name <;> simp [hname, lastName, namesOf]

theorem lastNonemptyName_eq {name : String} (hname : lastName past slot = some name)
    (hnonempty : name ≠ "") : lastNonemptyName past slot = some name := by
  obtain ⟨before, hbefore⟩ := getLast?_eq_some_iff.mp hname
  rw [lastNonemptyName, hbefore, filter_append, getLast?_append]
  simp [hnonempty]

theorem lastNonemptyName_snoc (past : List Piece) (piece : Piece) :
    lastNonemptyName (past ++ [piece]) piece.slot =
      ((lastName (past ++ [piece]) piece.slot).filter (· ≠ "")).or
        (lastNonemptyName past piece.slot) := by
  have hsnoc : lastNonemptyName (past ++ [piece]) piece.slot =
      (piece.name.filter (· ≠ "")).or (lastNonemptyName past piece.slot) := by
    rw [lastNonemptyName, namesOf, Grouping.having_snoc_self rfl, filterMap_append,
      filter_append, getLast?_append]
    cases hname : piece.name with
    | none => simp [hname, lastNonemptyName, namesOf]
    | some name =>
      by_cases hempty : name = "" <;>
        simp [hname, hempty, lastNonemptyName, namesOf, Option.filter]
  rw [hsnoc, lastName_snoc]
  cases piece.name with
  | some name => rfl
  | none =>
    cases hname : lastName past piece.slot with
    | none => rfl
    | some name =>
      by_cases hempty : name = ""
      · simp [hempty, Option.filter]
      · simp [hempty, Option.filter, lastNonemptyName_eq hname hempty]

end Fragments

section Emission

open Grouping (keys rank having)

/-- The delta of the last fragment received. -/
def deltaAt (past : List Piece) (piece : Piece) : StreamChunk :=
  match piece.slot with
  | .text => .textDelta (rank Piece.slot past piece.slot) piece.text
  | .reasoning => .reasoningDelta (rank Piece.slot past piece.slot) piece.text
  | .toolCall _ =>
    .toolCallDelta (rank Piece.slot past piece.slot) ((lastId past piece.slot).getD "")
      (lastName past piece.slot) piece.text

/-- The start of the block of a fragment, if it is the first of its slot. -/
def startAt (past : List Piece) (piece : Piece) : List StreamChunk :=
  if piece.slot ∈ keys Piece.slot past then []
  else [.blockStart (rank Piece.slot (past ++ [piece]) piece.slot) piece.slot.blockType]

/-- What is emitted for fragments that follow others. -/
def emissions (past : List Piece) : List Piece → List StreamChunk
  | [] => []
  | piece :: rest =>
    startAt past piece ++ [deltaAt (past ++ [piece]) piece] ++ emissions (past ++ [piece]) rest

theorem emissions_append (past first second : List Piece) :
    emissions past (first ++ second) =
      emissions past first ++ emissions (past ++ first) second := by
  induction first generalizing past with
  | nil => simp [emissions]
  | cons piece rest ih => simp [emissions, ih]

def openBlockAt (past : List Piece) (slot : Slot) : OpenBlock :=
  ⟨rank Piece.slot past slot, slot.kind, textOf past slot, lastId past slot, lastName past slot⟩

/-- The translator has received these fragments. -/
structure Translated (past : List Piece) (translator : Translator) : Prop where
  next : translator.nextIndex = (keys Piece.slot past).length
  order : translator.order = (keys Piece.slot past).map (openBlockAt past)
  slots : ∀ slot, translator.slotOf slot =
    if slot ∈ keys Piece.slot past then some (rank Piece.slot past slot) else none

def Piece.extend (piece : Piece) (block : OpenBlock) : OpenBlock :=
  { block with
    callId := piece.id.or block.callId
    name := piece.name.or block.name
    text := block.text ++ piece.text }

def Piece.delta (piece : Piece) (block : OpenBlock) : StreamChunk :=
  match piece.slot with
  | .text => .textDelta block.index piece.text
  | .reasoning => .reasoningDelta block.index piece.text
  | .toolCall _ =>
    .toolCallDelta block.index (block.callId.getD "") block.name piece.text

/-- All fragments are fed in the same way. -/
def Translator.feedPiece (translator : Translator) (piece : Piece) :
    Option (Translator × List StreamChunk) := do
  let (translator, place, started) ← translator.ensureSlot piece.slot
  let block ← translator.order[place]?
  pure ({ translator with order := translator.order.set place (piece.extend block) },
    started ++ [piece.delta (piece.extend block)])

theorem feedCall_eq (translator : Translator) (call : WireToolCallDelta) :
    translator.feedCall call = translator.feedPiece (callPiece call) := rfl

theorem feedReasoning_eq (translator : Translator) {text : String} (htext : text ≠ "") :
    translator.feedText .reasoning .reasoningDelta (some text) =
      translator.feedPiece ⟨.reasoning, text, none, none⟩ := by
  rw [Translator.feedText, if_neg htext]
  rfl

theorem feedContent_eq (translator : Translator) {text : String} (htext : text ≠ "") :
    translator.feedText .text .textDelta (some text) =
      translator.feedPiece ⟨.text, text, none, none⟩ := by
  rw [Translator.feedText, if_neg htext]
  rfl

/-- The block of a slot once the block of the next fragment is open. -/
def openedAt (past : List Piece) (piece : Piece) (slot : Slot) : OpenBlock :=
  { openBlockAt past slot with index := rank Piece.slot (past ++ [piece]) slot }

/-- The translator has opened the block of the next fragment. -/
structure Opened (past : List Piece) (piece : Piece) (translator opened : Translator) : Prop where
  next : opened.nextIndex = (keys Piece.slot (past ++ [piece])).length
  order : opened.order = (keys Piece.slot (past ++ [piece])).map (openedAt past piece)
  slots : ∀ slot, opened.slotOf slot = if slot ∈ keys Piece.slot (past ++ [piece]) then
    some (rank Piece.slot (past ++ [piece]) slot) else none
  pendingFinish : opened.pendingFinish = translator.pendingFinish

section
variable (translator : Translator) (place : Nat)
include translator place

theorem slotOf_remember (opened slot : Slot) : (translator.remember place opened).slotOf slot =
      if slot = opened then some place else translator.slotOf slot := by
  cases opened <;> cases slot <;>
    simp [Translator.remember, Translator.slotOf, Function.update_apply]

theorem remember_order (slot : Slot) :
    (translator.remember place slot).order = translator.order := by
  cases slot <;> rfl

theorem remember_nextIndex (slot : Slot) :
    (translator.remember place slot).nextIndex = translator.nextIndex := by
  cases slot <;> rfl

theorem remember_pendingFinish (slot : Slot) :
    (translator.remember place slot).pendingFinish = translator.pendingFinish := by
  cases slot <;> rfl

end

theorem slotOf_openBlock (translator : Translator) (kind : OpenKind) (slot : Slot) :
    (translator.openBlock kind).1.slotOf slot = translator.slotOf slot := by
  cases slot <;> rfl

theorem openBlockAt_of_not_mem (hnew : slot ∉ keys Piece.slot past) :
    openBlockAt past slot = ⟨rank Piece.slot past slot, slot.kind, "", none, none⟩ := by
  simp [openBlockAt, textOf, lastId, idsOf, lastName, namesOf, Grouping.having_eq_nil hnew]

variable {translator : Translator}

theorem Translated.ensureSlot (htranslated : Translated past translator) (piece : Piece) :
    ∃ opened, translator.ensureSlot piece.slot =
      some (opened, rank Piece.slot (past ++ [piece]) piece.slot, startAt past piece) ∧
      Opened past piece translator opened := by
  by_cases hold : piece.slot ∈ keys Piece.slot past
  · have hkeys := Grouping.keys_snoc_of_mem hold
    refine ⟨translator, ?_, ?_, ?_, ?_, rfl⟩
    · rw [Translator.ensureSlot, htranslated.slots, if_pos hold, startAt, if_pos hold,
        Grouping.rank_snoc hold]
    · rw [hkeys, htranslated.next]
    · rw [hkeys, htranslated.order]
      exact map_congr_left fun slot hslot => by
        rw [openedAt, Grouping.rank_snoc hslot, openBlockAt]
    · intro slot
      rw [hkeys, htranslated.slots slot]
      split
      next hslot => rw [Grouping.rank_snoc hslot]
      · rfl
  · have hkeys := Grouping.keys_snoc_of_not_mem hold
    have hrank := Grouping.rank_snoc_new hold
    have hlength : translator.order.length = (keys Piece.slot past).length := by
      rw [htranslated.order, length_map]
    refine ⟨((translator.openBlock piece.slot.kind).1).remember translator.order.length piece.slot,
      ?_, ?_, ?_, ?_, ?_⟩
    · rw [Translator.ensureSlot, htranslated.slots, if_neg hold, startAt, if_neg hold, hrank,
        ← hlength]
      simp [Translator.openBlock, htranslated.next, hlength]
    · rw [remember_nextIndex, hkeys, length_append, length_singleton,
        ← htranslated.next]
      rfl
    · rw [remember_order, hkeys, map_append, map_singleton]
      show translator.order ++ [⟨translator.nextIndex, piece.slot.kind, "", none, none⟩] = _
      rw [htranslated.order, openedAt, openBlockAt_of_not_mem hold, hrank, htranslated.next]
      refine congrArg (· ++ _) (map_congr_left fun slot hslot => ?_)
      rw [openedAt, Grouping.rank_snoc hslot, openBlockAt]
    · intro slot
      rw [slotOf_remember, slotOf_openBlock, htranslated.slots, hkeys, hlength]
      by_cases hslot : slot = piece.slot
      · rw [if_pos hslot, hslot, if_pos (mem_append_right _ mem_cons_self), hrank]
      · rw [if_neg hslot]
        by_cases hin : slot ∈ keys Piece.slot past
        · rw [if_pos hin, if_pos (mem_append_left _ hin), Grouping.rank_snoc hin]
        · rw [if_neg hin, if_neg (by simp [hin, hslot])]
    · rw [remember_pendingFinish]
      rfl

theorem extend_openedAt (past : List Piece) (piece : Piece) :
    piece.extend (openedAt past piece piece.slot) = openBlockAt (past ++ [piece]) piece.slot := by
  rw [Piece.extend, openedAt, openBlockAt, openBlockAt, textOf_snoc, lastId_snoc, lastName_snoc]

theorem openedAt_of_ne (hslot : slot ≠ piece.slot) :
    openedAt past piece slot = openBlockAt (past ++ [piece]) slot := by
  have hhaving := Grouping.having_snoc_of_ne past (Ne.symm hslot)
  simp only [openedAt, openBlockAt, textOf, lastId, idsOf, lastName, namesOf, hhaving]

theorem delta_openBlockAt (past : List Piece) (piece : Piece) :
    piece.delta (openBlockAt past piece.slot) = deltaAt past piece := by
  rw [Piece.delta, deltaAt]
  cases piece.slot <;> rfl

theorem Translated.feedPiece (htranslated : Translated past translator) (piece : Piece) :
    ∃ next, translator.feedPiece piece =
      some (next, startAt past piece ++ [deltaAt (past ++ [piece]) piece]) ∧
      Translated (past ++ [piece]) next ∧ next.pendingFinish = translator.pendingFinish := by
  obtain ⟨opened, hensure, hopened⟩ := htranslated.ensureSlot piece
  have hkey := Grouping.key_mem_keys_snoc Piece.slot past piece
  have hblock : opened.order[rank Piece.slot (past ++ [piece]) piece.slot]? =
      some (openedAt past piece piece.slot) := by
    rw [hopened.order, Grouping.getElem?_map_rank _ hkey]
  refine ⟨{ opened with
    order := opened.order.set (rank Piece.slot (past ++ [piece]) piece.slot)
      (openBlockAt (past ++ [piece]) piece.slot) }, ?_, ⟨hopened.next, ?_, ?_⟩,
    hopened.pendingFinish⟩
  · rw [Translator.feedPiece, hensure]
    simp only [Option.bind_eq_bind, Option.bind_some, hblock, Option.pure_def]
    rw [extend_openedAt, delta_openBlockAt]
  · show opened.order.set _ _ = _
    rw [hopened.order]
    exact Grouping.set_map_rank hkey fun other hother => openedAt_of_ne hother
  · intro slot
    rw [← hopened.slots slot]
    cases slot <;> rfl

/-- The translator has received further fragments, and no finish reason. -/
structure Advanced (past fed : List Piece) (before after : Translator) : Prop where
  translated : Translated (past ++ fed) after
  pendingFinish : after.pendingFinish = before.pendingFinish

theorem Advanced.none (htranslated : Translated past translator) :
    Advanced past [] translator translator :=
  ⟨(append_nil past).symm ▸ htranslated, rfl⟩

theorem Advanced.trans {first second : List Piece} {middle last : Translator}
    (hfirst : Advanced past first translator middle)
    (hsecond : Advanced (past ++ first) second middle last) :
    Advanced past (first ++ second) translator last :=
  ⟨append_assoc past first second ▸ hsecond.translated,
    hsecond.pendingFinish.trans hfirst.pendingFinish⟩

theorem feedPiece_spec (htranslated : Translated past translator) (piece : Piece) :
    ∃ next, translator.feedPiece piece = some (next, emissions past [piece]) ∧
      Advanced past [piece] translator next := by
  obtain ⟨next, hfeed, hnext, hfinish⟩ := htranslated.feedPiece piece
  refine ⟨next, ?_, hnext, hfinish⟩
  rw [hfeed, emissions, emissions, append_nil]

theorem feedText_spec (htranslated : Translated past translator)
    {delta : Nat → String → StreamChunk}
    (hfed : ∀ translator : Translator, ∀ text, text ≠ "" →
      translator.feedText slot delta (some text) =
        translator.feedPiece ⟨slot, text, none, none⟩) (text : Option String) :
    ∃ next, translator.feedText slot delta text =
      some (next, emissions past (textPieces slot text)) ∧
      Advanced past (textPieces slot text) translator next := by
  cases text with
  | none => exact ⟨translator, rfl, .none htranslated⟩
  | some text =>
    by_cases hempty : text = ""
    · subst hempty
      exact ⟨translator, by simp [Translator.feedText, textPieces, Option.filter, emissions],
        .none htranslated⟩
    · have hpieces : textPieces slot (some text) = [⟨slot, text, none, none⟩] := by
        simp [textPieces, Option.filter, hempty]
      rw [hfed translator text hempty, hpieces]
      exact feedPiece_spec htranslated _

theorem feedCalls_spec (calls : List WireToolCallDelta) : ∀ {past : List Piece}
    {translator : Translator}, Translated past translator →
    ∃ next, translator.feedCalls calls = some (next, emissions past (calls.map callPiece)) ∧
      Advanced past (calls.map callPiece) translator next := by
  induction calls with
  | nil => exact fun htranslated => ⟨_, rfl, .none htranslated⟩
  | cons call calls ih =>
    intro past translator htranslated
    obtain ⟨middle, hfirst, hmiddle⟩ := feedPiece_spec htranslated (callPiece call)
    obtain ⟨last, hrest, hlast⟩ := ih hmiddle.translated
    refine ⟨last, ?_, hmiddle.trans hlast⟩
    rw [Translator.feedCalls, feedCall_eq, hfirst]
    simp only [Option.bind_eq_bind, Option.bind_some, hrest, Option.pure_def]
    rw [← emissions_append]
    rfl

variable [WireLibrary]

/-- The translator has received further fragments and finish reasons. -/
structure Fed (past fed : List Piece) (reasons : List String) (before after : Translator) :
    Prop where
  translated : Translated (past ++ fed) after
  pendingFinish : after.pendingFinish =
    (reasons.getLast?.map mapFinishReason).or before.pendingFinish

theorem Fed.none (htranslated : Translated past translator) :
    Fed past [] [] translator translator :=
  ⟨(append_nil past).symm ▸ htranslated, rfl⟩

theorem Fed.trans {first second : List Piece} {reasons others : List String}
    {middle last : Translator} (hfirst : Fed past first reasons translator middle)
    (hsecond : Fed (past ++ first) second others middle last) :
    Fed past (first ++ second) (reasons ++ others) translator last := by
  refine ⟨append_assoc past first second ▸ hsecond.translated, ?_⟩
  rw [hsecond.pendingFinish, hfirst.pendingFinish, getLast?_append]
  cases others.getLast? <;> cases reasons.getLast? <;> rfl

theorem Translated.noteFinish (htranslated : Translated past translator)
    (reason : Option String) : Translated past (translator.noteFinish reason) := by
  refine ⟨htranslated.next, htranslated.order, fun slot => ?_⟩
  rw [← htranslated.slots slot]
  cases slot <;> rfl

theorem feedChoice_spec (htranslated : Translated past translator) (choice : WireChoice) :
    ∃ next, translator.feedChoice choice = some (next, emissions past (choicePieces choice)) ∧
      Fed past (choicePieces choice) choice.finishReason.toList translator next := by
  obtain ⟨delta, finishReason⟩ := choice
  have hfinish : ∀ fed next, Advanced past fed translator next →
      Fed past fed finishReason.toList translator (next.noteFinish finishReason) :=
    fun fed next hnext => ⟨hnext.translated.noteFinish finishReason, by
      rw [Translator.noteFinish, hnext.pendingFinish]
      cases finishReason <;> rfl⟩
  cases delta with
  | none => exact ⟨_, rfl, hfinish [] translator (.none htranslated)⟩
  | some delta =>
    obtain ⟨first, hreasoning, hfirst⟩ := feedText_spec htranslated
      (fun translator _ => feedReasoning_eq translator) delta.reasoningContent
    obtain ⟨second, hcontent, hsecond⟩ := feedText_spec hfirst.translated
      (fun translator _ => feedContent_eq translator) delta.content
    obtain ⟨last, hcalls, hlast⟩ := feedCalls_spec delta.toolCalls hsecond.translated
    have hall := (hfirst.trans hsecond).trans (append_assoc past _ _ ▸ hlast)
    refine ⟨_, ?_, hfinish _ last hall⟩
    simp only [Translator.feedChoice, Translator.feedReasoning, hreasoning, Option.bind_eq_bind,
      Option.bind_some, Translator.feedContent, hcontent, hcalls, Option.pure_def]
    rw [append_assoc past, ← emissions_append, ← emissions_append]
    rfl

theorem feedChoices_spec (choices : List WireChoice) : ∀ {past : List Piece}
    {translator : Translator}, Translated past translator →
    ∃ next, translator.feedChoices choices =
      some (next, emissions past (choices.flatMap choicePieces)) ∧
      Fed past (choices.flatMap choicePieces) (choices.filterMap (·.finishReason))
        translator next := by
  induction choices with
  | nil => exact fun htranslated => ⟨_, rfl, .none htranslated⟩
  | cons choice choices ih =>
    intro past translator htranslated
    obtain ⟨middle, hfirst, hmiddle⟩ := feedChoice_spec htranslated choice
    obtain ⟨last, hrest, hlast⟩ := ih hmiddle.translated
    refine ⟨last, ?_, ?_⟩
    · rw [Translator.feedChoices, hfirst]
      simp only [Option.bind_eq_bind, Option.bind_some, hrest, Option.pure_def]
      rw [flatMap_cons, emissions_append]
    · have hboth := hmiddle.trans hlast
      rw [flatMap_cons, filterMap_cons]
      cases hreason : choice.finishReason <;> rw [hreason] at hboth <;> exact hboth

theorem feedChunk_spec (htranslated : Translated past translator) (chunk : WireChunk) :
    ∃ next, translator.feedChunk chunk = some (next, emissions past (chunkPieces chunk)) ∧
      Fed past (chunkPieces chunk) (chunk.choices.filterMap (·.finishReason)) translator next := by
  obtain ⟨next, hfeed, hnext⟩ := feedChoices_spec chunk.choices htranslated
  refine ⟨{ next with
    pendingUsage := (chunk.usage.map mapUsage).or next.pendingUsage }, ?_,
    ⟨⟨hnext.translated.next, hnext.translated.order, fun slot => ?_⟩, hnext.pendingFinish⟩⟩
  · rw [Translator.feedChunk, hfeed]
    rfl
  · rw [chunkPieces, ← hnext.translated.slots slot]
    cases slot <;> rfl

def pieces (chunks : List WireChunk) : List Piece := chunks.flatMap chunkPieces

def finishReasons (chunks : List WireChunk) : List String :=
  chunks.flatMap fun chunk => chunk.choices.filterMap (·.finishReason)

theorem feedAll_spec (chunks : List WireChunk) : ∀ {past : List Piece}
    {translator : Translator}, Translated past translator →
    ∃ next, translator.feedAll chunks = some (next, emissions past (pieces chunks)) ∧
      Fed past (pieces chunks) (finishReasons chunks) translator next := by
  induction chunks with
  | nil => exact fun htranslated => ⟨_, rfl, .none htranslated⟩
  | cons chunk chunks ih =>
    intro past translator htranslated
    obtain ⟨middle, hfirst, hmiddle⟩ := feedChunk_spec htranslated chunk
    obtain ⟨last, hrest, hlast⟩ := ih hmiddle.translated
    refine ⟨last, ?_, hmiddle.trans hlast⟩
    rw [Translator.feedAll, hfirst]
    simp only [Option.bind_eq_bind, Option.bind_some, hrest, Option.pure_def]
    rw [pieces, pieces, flatMap_cons, emissions_append]

end Emission

end Keel.Llm
