import Keel.Dsh.StreamTranslator
import Keel.Foundation.Lists

/-! # Translation and assembly agree

The assembler keeps one partial for each slot, in the order in which the slots appear, and its
deltas add up to what the translator has gathered. Block ends freeze the partials with the
translator's own blocks; without them a tool call keeps the last of its names that is not empty.
-/

namespace Keel.Llm

open List Function

open Session (ContentBlock)
open Grouping (keys rank having)

variable {past : List Piece} {piece : Piece} {slot : Slot} {assembler : BlockAssembler}

section Deltas

/-- What the deltas of a slot add up to. -/
def partialAt (past : List Piece) (slot : Slot) : PartialBlock :=
  match slot with
  | .text => ⟨.text, textOf past slot, none, none, "", none⟩
  | .reasoning => ⟨.reasoning, textOf past slot, none, none, "", none⟩
  | .toolCall _ =>
    ⟨.toolCall, "", some ((lastId past slot).getD ""), lastNonemptyName past slot,
      textOf past slot, none⟩

/-- The assembler has received the deltas of these fragments. -/
structure Assembled (past : List Piece) (assembler : BlockAssembler) : Prop where
  order : assembler.order = (keys Piece.slot past).map (rank Piece.slot past)
  partials : ∀ slot ∈ keys Piece.slot past,
    assembler.partials (rank Piece.slot past slot) = some (partialAt past slot)
  fresh : ∀ index, (keys Piece.slot past).length ≤ index → assembler.partials index = none

/-- The partial of a slot before its next delta. -/
def beforeAt (past : List Piece) (slot : Slot) : PartialBlock :=
  if slot ∈ keys Piece.slot past then partialAt past slot else .new slot.blockType

/-- The assembler has received the start of the next fragment's block. -/
structure Begun (past : List Piece) (piece : Piece) (assembler : BlockAssembler) : Prop where
  order : assembler.order =
    (keys Piece.slot (past ++ [piece])).map (rank Piece.slot (past ++ [piece]))
  partials : ∀ slot ∈ keys Piece.slot (past ++ [piece]),
    assembler.partials (rank Piece.slot (past ++ [piece]) slot) = some (beforeAt past slot)
  fresh : ∀ index, (keys Piece.slot (past ++ [piece])).length ≤ index →
    assembler.partials index = none

theorem pushAll_append (assembler : BlockAssembler) (first second : List StreamChunk) :
    assembler.pushAll (first ++ second) = (assembler.pushAll first).bind (·.pushAll second) := by
  rw [BlockAssembler.pushAll, foldlM_append]
  rfl

theorem Assembled.begin (hassembled : Assembled past assembler) (piece : Piece) :
    ∃ begun, assembler.pushAll (startAt past piece) = some begun ∧ Begun past piece begun := by
  by_cases hold : piece.slot ∈ keys Piece.slot past
  · have hkeys := Grouping.keys_snoc_of_mem hold
    refine ⟨assembler, by rw [startAt, if_pos hold]; rfl, ?_, ?_, hkeys ▸ hassembled.fresh⟩
    · rw [hassembled.order, hkeys]
      exact map_congr_left fun slot hslot => (Grouping.rank_snoc hslot).symm
    · intro slot hslot
      rw [hkeys] at hslot
      rw [Grouping.rank_snoc hslot, hassembled.partials slot hslot, beforeAt, if_pos hslot]
  · have hkeys := Grouping.keys_snoc_of_not_mem hold
    have hrank := Grouping.rank_snoc_new hold
    have hnone := hassembled.fresh _ (le_of_eq hrank.symm)
    refine ⟨{ assembler with
      order := assembler.order ++ [rank Piece.slot (past ++ [piece]) piece.slot]
      partials := update assembler.partials
        (rank Piece.slot (past ++ [piece]) piece.slot) (some (.new piece.slot.blockType)) },
      ?_, ?_, ?_, ?_⟩
    · rw [startAt, if_neg hold]
      show some (assembler.ensure _ _) = _
      rw [BlockAssembler.ensure, hnone]
    · rw [hkeys, map_append, map_singleton, hassembled.order]
      exact congrArg (· ++ _) (map_congr_left fun slot hslot =>
        (Grouping.rank_snoc hslot).symm)
    · intro slot hslot
      have hmem := hslot
      rw [hkeys, mem_append, mem_singleton] at hslot
      rcases hslot with hin | rfl
      · have hne : slot ≠ piece.slot := fun hsame => hold (hsame ▸ hin)
        have hother := mt (Grouping.rank_inj hmem).mp hne
        show update _ _ _ _ = _
        rw [update_of_ne hother, Grouping.rank_snoc hin, hassembled.partials slot hin,
          beforeAt, if_pos hin]
      · show update _ _ _ _ = _
        rw [update_self, beforeAt, if_neg hold]
    · intro index hindex
      rw [hkeys, length_append, length_singleton] at hindex
      show update _ _ _ _ = _
      rw [update_of_ne (by omega), hassembled.fresh index (by omega)]

theorem textOf_of_not_mem (hnew : slot ∉ keys Piece.slot past) : textOf past slot = "" := by
  rw [textOf, Grouping.having_eq_nil hnew]
  rfl

theorem lastNonemptyName_of_not_mem (hnew : slot ∉ keys Piece.slot past) :
    lastNonemptyName past slot = none := by
  rw [lastNonemptyName, namesOf, Grouping.having_eq_nil hnew]
  rfl

theorem beforeAt_text (past : List Piece) : beforeAt past .text = partialAt past .text := by
  rw [beforeAt]
  split
  · rfl
  next hnew => rw [partialAt, textOf_of_not_mem hnew]; rfl

theorem beforeAt_reasoning (past : List Piece) :
    beforeAt past .reasoning = partialAt past .reasoning := by
  rw [beforeAt]
  split
  · rfl
  next hnew => rw [partialAt, textOf_of_not_mem hnew]; rfl

theorem beforeAt_toolCall (past : List Piece) (index : Nat) :
    ∃ id, beforeAt past (.toolCall index) =
      { partialAt past (.toolCall index) with toolCallId := id } := by
  rw [beforeAt]
  split
  · exact ⟨_, rfl⟩
  next hnew =>
    refine ⟨none, ?_⟩
    rw [partialAt, textOf_of_not_mem hnew, lastNonemptyName_of_not_mem hnew]
    rfl

theorem ensure_eq {index : Nat} {old : PartialBlock}
    (hcontent : assembler.partials index = some old) (blockType : BlockType) :
    assembler.ensure index blockType = assembler := by
  rw [BlockAssembler.ensure, hcontent]

theorem change_eq {index : Nat} {old : PartialBlock}
    (hcontent : assembler.partials index = some old) (hopen : old.block = none)
    (f : PartialBlock → PartialBlock) :
    assembler.change index f =
      some { assembler with
        partials := update assembler.partials index (some (f old)) } := by
  rw [BlockAssembler.change, hcontent, Option.map_some, hopen]
  rfl

/-- A delta makes the partial of its slot what the fragments so far make it. -/
theorem push_deltaAt {begun : BlockAssembler}
    (hcontent : begun.partials (rank Piece.slot (past ++ [piece]) piece.slot) =
      some (beforeAt past piece.slot)) :
    begun.push (deltaAt (past ++ [piece]) piece) = some { begun with
      partials := update begun.partials (rank Piece.slot (past ++ [piece]) piece.slot)
        (some (partialAt (past ++ [piece]) piece.slot)) } := by
  obtain ⟨slot, text, id, name⟩ := piece
  have htext := textOf_snoc past ⟨slot, text, id, name⟩
  have hname := lastNonemptyName_snoc past ⟨slot, text, id, name⟩
  cases slot with
  | text =>
    rw [beforeAt_text] at hcontent
    rw [deltaAt, BlockAssembler.push, ensure_eq hcontent, change_eq hcontent rfl, partialAt,
      partialAt, htext]
  | reasoning =>
    rw [beforeAt_reasoning] at hcontent
    rw [deltaAt, BlockAssembler.push, ensure_eq hcontent, change_eq hcontent rfl, partialAt,
      partialAt, htext]
  | toolCall index =>
    obtain ⟨old, hbefore⟩ := beforeAt_toolCall past index
    rw [hbefore] at hcontent
    rw [deltaAt, BlockAssembler.push, ensure_eq hcontent, change_eq hcontent rfl, partialAt,
      partialAt, htext, hname]

theorem partialAt_snoc_of_ne (hslot : slot ≠ piece.slot) (hold : slot ∈ keys Piece.slot past) :
    beforeAt past slot = partialAt (past ++ [piece]) slot := by
  have hhaving := Grouping.having_snoc_of_ne past (Ne.symm hslot)
  rw [beforeAt, if_pos hold]
  cases slot <;>
    simp only [partialAt, textOf, lastId, idsOf, lastNonemptyName, namesOf, hhaving]

theorem Begun.delta {begun : BlockAssembler} (hbegun : Begun past piece begun) :
    ∃ next, begun.push (deltaAt (past ++ [piece]) piece) = some next ∧
      Assembled (past ++ [piece]) next := by
  have hkey := Grouping.key_mem_keys_snoc Piece.slot past piece
  refine ⟨_, push_deltaAt (hbegun.partials _ hkey), hbegun.order, ?_, ?_⟩
  · intro slot hslot
    show update _ _ _ _ = _
    by_cases hsame : slot = piece.slot
    · rw [hsame, update_self]
    · rw [update_of_ne (mt (Grouping.rank_inj hslot).mp hsame),
        hbegun.partials slot hslot,
        partialAt_snoc_of_ne hsame (Grouping.mem_keys_of_snoc hslot hsame)]
  · intro index hindex
    have hlt := Grouping.rank_lt hkey
    show update _ _ _ _ = _
    rw [update_of_ne (by omega), hbegun.fresh index hindex]

theorem Assembled.emissions (fed : List Piece) : ∀ {past : List Piece}
    {assembler : BlockAssembler}, Assembled past assembler →
    ∃ next, assembler.pushAll (emissions past fed) = some next ∧ Assembled (past ++ fed) next := by
  induction fed with
  | nil => exact fun {past assembler} hassembled =>
    ⟨assembler, rfl, (append_nil past).symm ▸ hassembled⟩
  | cons piece rest ih =>
    intro past assembler hassembled
    obtain ⟨begun, hstart, hbegun⟩ := hassembled.begin piece
    obtain ⟨middle, hdelta, hmiddle⟩ := hbegun.delta
    obtain ⟨last, hrest, hlast⟩ := ih hmiddle
    refine ⟨last, ?_, ?_⟩
    · rw [Llm.emissions, pushAll_append, pushAll_append, hstart, Option.bind_some]
      show ((begun.push _).bind (fun next => some next)).bind _ = _
      rw [hdelta, Option.bind_some, Option.bind_some, hrest]
    · rwa [append_assoc, singleton_append] at hlast

theorem assembled_nil : Assembled [] {} :=
  ⟨rfl, fun _ hslot => absurd hslot not_mem_nil, fun _ _ => rfl⟩

end Deltas

section Ends

def endAt (past : List Piece) (slot : Slot) : StreamChunk :=
  .blockEnd (rank Piece.slot past slot) (closeBlock (openBlockAt past slot))

theorem pushAll_ends {slots : List Slot} (hnodup : slots.Nodup)
    (hslots : ∀ slot ∈ slots, slot ∈ keys Piece.slot past) :
    ∀ {assembler : BlockAssembler},
      (∀ slot ∈ slots, assembler.partials (rank Piece.slot past slot) =
        some (partialAt past slot)) →
      ∃ next, assembler.pushAll (slots.map (endAt past)) = some next ∧
        next.order = assembler.order ∧
        (∀ slot ∈ slots, next.partials (rank Piece.slot past slot) =
          some { partialAt past slot with block := some (closeBlock (openBlockAt past slot)) }) ∧
        ∀ slot ∈ keys Piece.slot past, slot ∉ slots →
          next.partials (rank Piece.slot past slot) =
            assembler.partials (rank Piece.slot past slot) := by
  induction slots with
  | nil => exact fun {assembler} _ => ⟨assembler, rfl, rfl, by simp, fun _ _ _ => rfl⟩
  | cons slot rest ih =>
    intro assembler hfound
    obtain ⟨hfirst, hrest⟩ := nodup_cons.mp hnodup
    have hcontent := hfound slot mem_cons_self
    have hopen : (partialAt past slot).block = none := by cases slot <;> rfl
    have hother : ∀ other, other ≠ slot →
        rank Piece.slot past other ≠ rank Piece.slot past slot := fun other hne hsame =>
      hne ((Grouping.rank_inj (hslots slot mem_cons_self)).mp hsame.symm).symm
    let closed : BlockAssembler := { assembler with
      partials := update assembler.partials (rank Piece.slot past slot)
        (some { partialAt past slot with
          block := some (closeBlock (openBlockAt past slot)) }) }
    have hpush : assembler.push (endAt past slot) = some closed := by
      rw [endAt, BlockAssembler.push, ensure_eq hcontent, change_eq hcontent hopen]
    have hclosed : ∀ other ∈ rest,
        closed.partials (rank Piece.slot past other) = some (partialAt past other) := by
      intro other hmem
      have hne : other ≠ slot := fun heq => hfirst (heq ▸ hmem)
      exact (update_of_ne (hother other hne) _ _).trans
        (hfound other (mem_cons_of_mem _ hmem))
    obtain ⟨next, hnext, horder, hfrozen, hsame⟩ :=
      ih hrest (fun other hmem => hslots other (mem_cons_of_mem _ hmem)) hclosed
    refine ⟨next, ?_, horder, ?_, ?_⟩
    · rw [map_cons, BlockAssembler.pushAll, foldlM_cons, hpush]
      exact hnext
    · intro other hmem
      rcases mem_cons.mp hmem with rfl | hin
      · rw [hsame other (hslots other hmem) hfirst]
        exact update_self ..
      · exact hfrozen other hin
    · intro other hkey hout
      have hne : other ≠ slot := fun heq => hout (heq ▸ mem_cons_self)
      rw [hsame other hkey fun hin => hout (mem_cons_of_mem _ hin)]
      exact update_of_ne (hother other hne) _ _

end Ends

section Blocks

/-- The block that the fragments of a slot make, a tool call with the given name. -/
def expectedBlock (past : List Piece) (nameOf : List Piece → Slot → Option String) (slot : Slot) :
    ContentBlock :=
  match slot with
  | .text => .text (textOf past slot)
  | .reasoning => .reasoning (textOf past slot)
  | .toolCall _ =>
    .toolCall ((lastId past slot).getD "") ((nameOf past slot).getD "") (textOf past slot)

/-- A block for each slot that has received data, in the order in which they first appear; tool
calls are dropped when the response was cut off. -/
def blocksOf (past : List Piece) (nameOf : List Piece → Slot → Option String)
    (reason : FinishReason) : List ContentBlock :=
  let blocks := (keys Piece.slot past).map (expectedBlock past nameOf)
  if reason = .maxTokens then blocks.filter fun block => blockType block ≠ .toolCall else blocks

theorem blocks_eq (block : Slot → ContentBlock)
    (horder : assembler.order = (keys Piece.slot past).map (rank Piece.slot past))
    (hblock : ∀ slot ∈ keys Piece.slot past, ∃ content,
      assembler.partials (rank Piece.slot past slot) = some content ∧
        BlockAssembler.assemble content (rank Piece.slot past slot) = some (block slot)) :
    assembler.blocks = some (
      if assembler.finishReason = .maxTokens then
        ((keys Piece.slot past).map block).filter fun block => blockType block ≠ .toolCall
      else (keys Piece.slot past).map block) := by
  have hall : assembler.order.mapM (fun index =>
      (assembler.partials index).bind fun content => BlockAssembler.assemble content index) =
      some ((keys Piece.slot past).map block) := by
    rw [horder]
    refine Lists.mapM_map_some fun slot hslot => ?_
    obtain ⟨content, hcontent, hassemble⟩ := hblock slot hslot
    rw [hcontent, Option.bind_some, hassemble]
  rw [BlockAssembler.blocks]
  simp only [Option.bind_eq_bind, hall, Option.bind_some, Option.pure_def]
  split <;> rfl

theorem assemble_partialAt (past : List Piece) (slot : Slot) (index : Nat) :
    BlockAssembler.assemble (partialAt past slot) index =
      some (expectedBlock past lastNonemptyName slot) := by
  cases slot <;> rfl

theorem closeBlock_openBlockAt (past : List Piece) (slot : Slot) :
    closeBlock (openBlockAt past slot) = expectedBlock past lastName slot := by
  cases slot <;> rfl

theorem pushAll_tail (assembler : BlockAssembler) (usage : Option TokenUsage)
    (reason : FinishReason) :
    ∃ next, assembler.pushAll ((usage.map StreamChunk.usage).toList ++ [.finish reason none]) =
      some next ∧ next.order = assembler.order ∧ next.partials = assembler.partials ∧
      next.finishReason = reason := by
  cases usage <;> exact ⟨_, rfl, rfl, rfl, rfl⟩

theorem keys_eq_nil_iff {past : List Piece} : keys Piece.slot past = [] ↔ past = [] := by
  constructor
  · intro hnone
    refine eq_nil_iff_forall_not_mem.mpr fun piece hpiece => ?_
    have hkey : piece.slot ∈ keys Piece.slot past :=
      Grouping.mem_keys.2 ⟨piece, hpiece, rfl⟩
    rw [hnone] at hkey
    exact not_mem_nil hkey
  · rintro rfl
    rfl

end Blocks

section Expected

variable [WireLibrary]

def expectedFinish (chunks : List WireChunk) : FinishReason :=
  let reason := ((finishReasons chunks).getLast?.map mapFinishReason).getD .stop
  if reason = .stop ∧ pieces chunks = [] then
    .error ⟨"model returned a completed response with no content", "EMPTY_RESPONSE"⟩
  else reason

/-- The blocks of a stream, its tool calls with the given names. -/
def expectedBlocks (nameOf : List Piece → Slot → Option String) (chunks : List WireChunk) :
    List ContentBlock :=
  blocksOf (pieces chunks) nameOf (expectedFinish chunks)

theorem finishOf_eq {chunks : List WireChunk} {translator : Translator}
    (hfed : Fed [] (pieces chunks) (finishReasons chunks) {} translator) :
    translator.finishOf = expectedFinish chunks := by
  have hempty : translator.order.isEmpty ↔ pieces chunks = [] := by
    rw [hfed.translated.order, List.isEmpty_iff, List.map_eq_nil_iff, List.nil_append,
      keys_eq_nil_iff]
  rw [Translator.finishOf, expectedFinish, hfed.pendingFinish, Option.or_none]
  simp only [hempty]

theorem done_eq {chunks : List WireChunk} {translator : Translator}
    (hfed : Fed [] (pieces chunks) (finishReasons chunks) {} translator) :
    translator.done = (keys Piece.slot (pieces chunks)).map (endAt (pieces chunks)) ++
      ((translator.pendingUsage.map StreamChunk.usage).toList ++
        [.finish (expectedFinish chunks) none]) := by
  rw [Translator.done, finishOf_eq hfed, hfed.translated.order, map_map, nil_append,
    append_assoc]
  rfl

end Expected

section Shape

def StreamChunk.isBlockEnd : StreamChunk → Bool
  | .blockEnd .. => true
  | _ => false

def StreamChunk.isFinish : StreamChunk → Bool
  | .finish .. => true
  | _ => false

/-- The index of the block that a chunk starts. -/
def StreamChunk.started : StreamChunk → Option Nat
  | .blockStart index _ => some index
  | _ => none

/-- The index of the block that a chunk adds to or ends. -/
def StreamChunk.continued : StreamChunk → Option Nat
  | .textDelta index _ | .reasoningDelta index _ | .toolCallDelta index _ _ _
  | .blockEnd index _ => some index
  | .blockStart .. | .usage _ | .finish .. => none

def starts (stream : List StreamChunk) : List Nat := stream.filterMap StreamChunk.started

/-- Chunks add to blocks that have started. -/
def StartedBefore (opened : List Nat) : List StreamChunk → Prop
  | [] => True
  | chunk :: rest =>
    (∀ index, chunk.continued = some index → index ∈ opened) ∧
      StartedBefore (opened ++ chunk.started.toList) rest

theorem startedBefore_append {opened : List Nat} {first second : List StreamChunk} :
    StartedBefore opened (first ++ second) ↔
      StartedBefore opened first ∧ StartedBefore (opened ++ starts first) second := by
  induction first generalizing opened with
  | nil => simp [StartedBefore, starts]
  | cons chunk rest ih =>
    have hstarts : starts (chunk :: rest) = chunk.started.toList ++ starts rest := by
      cases hstarted : chunk.started <;> simp [starts, hstarted]
    rw [cons_append, StartedBefore, StartedBefore, ih, and_assoc, hstarts,
      append_assoc]

theorem starts_startAt (past : List Piece) (piece : Piece) :
    (keys Piece.slot past).map (rank Piece.slot past) ++ starts (startAt past piece) =
      (keys Piece.slot (past ++ [piece])).map (rank Piece.slot (past ++ [piece])) := by
  have hranks : (keys Piece.slot past).map (rank Piece.slot past) =
      (keys Piece.slot past).map (rank Piece.slot (past ++ [piece])) :=
    map_congr_left fun slot hslot => (Grouping.rank_snoc hslot).symm
  by_cases hold : piece.slot ∈ keys Piece.slot past
  · rw [startAt, if_pos hold, Grouping.keys_snoc_of_mem hold, hranks]
    exact append_nil _
  · rw [startAt, if_neg hold, Grouping.keys_snoc_of_not_mem hold, map_append, hranks]
    rfl

theorem starts_append (first second : List StreamChunk) :
    starts (first ++ second) = starts first ++ starts second := filterMap_append

theorem starts_deltaAt (past : List Piece) (piece : Piece) : starts [deltaAt past piece] = [] := by
  rw [deltaAt]
  cases piece.slot <;> rfl

theorem continued_deltaAt (past : List Piece) (piece : Piece) :
    (deltaAt past piece).continued = some (rank Piece.slot past piece.slot) := by
  rw [deltaAt]
  cases piece.slot <;> rfl

theorem starts_emissions (fed : List Piece) : ∀ past,
    (keys Piece.slot past).map (rank Piece.slot past) ++ starts (emissions past fed) =
      (keys Piece.slot (past ++ fed)).map (rank Piece.slot (past ++ fed)) := by
  induction fed with
  | nil => exact fun past => by rw [emissions, append_nil]; exact append_nil _
  | cons piece rest ih =>
    intro past
    rw [emissions, starts_append, starts_append, starts_deltaAt, append_nil,
      ← append_assoc, starts_startAt, ih, append_assoc, singleton_append]

theorem startedBefore_emissions (fed : List Piece) : ∀ past,
    StartedBefore ((keys Piece.slot past).map (rank Piece.slot past)) (emissions past fed) := by
  induction fed with
  | nil => exact fun _ => trivial
  | cons piece rest ih =>
    intro past
    rw [emissions, startedBefore_append, startedBefore_append, starts_append, starts_deltaAt,
      append_nil, starts_startAt]
    refine ⟨⟨?_, ?_, trivial⟩, ih _⟩
    · rw [startAt]
      split
      · trivial
      · exact ⟨fun _ hnone => (by cases hnone), trivial⟩
    · intro index hindex
      rw [continued_deltaAt] at hindex
      cases hindex
      exact mem_map_of_mem (Grouping.key_mem_keys_snoc Piece.slot past piece)

theorem emissions_open (fed : List Piece) : ∀ past, ∀ chunk ∈ emissions past fed,
    chunk.isBlockEnd = false ∧ chunk.isFinish = false := by
  induction fed with
  | nil => exact fun _ _ hchunk => absurd hchunk not_mem_nil
  | cons piece rest ih =>
    intro past chunk hchunk
    rw [emissions, mem_append, mem_append, mem_singleton] at hchunk
    rcases hchunk with (hstart | rfl) | hrest
    · rw [startAt] at hstart
      split at hstart
      · exact absurd hstart not_mem_nil
      · rw [mem_singleton.mp hstart]
        exact ⟨rfl, rfl⟩
    · rw [deltaAt]
      cases piece.slot <;> exact ⟨rfl, rfl⟩
    · exact ih _ chunk hrest

end Shape

section Streams

/-- The stream of fragments: their deltas, the block ends, usage and the finish. -/
def streamOf (past : List Piece) (usage : Option TokenUsage) (reason : FinishReason) :
    List StreamChunk :=
  emissions [] past ++ ((keys Piece.slot past).map (endAt past) ++
    ((usage.map StreamChunk.usage).toList ++ [.finish reason none]))

variable {usage : Option TokenUsage} {reason : FinishReason}

theorem assembled_with_ends (past : List Piece) :
    ∃ assembler, BlockAssembler.pushAll {} (streamOf past usage reason) = some assembler ∧
      assembler.blocks = some (blocksOf past lastName reason) := by
  obtain ⟨gathered, hgathered, hassembled⟩ := Assembled.emissions past assembled_nil
  rw [nil_append] at hassembled
  obtain ⟨closed, hclosed, horder, hfrozen, -⟩ := pushAll_ends
    (Grouping.nodup_keys Piece.slot past) (fun _ hslot => hslot) hassembled.partials
  obtain ⟨last, hlast, hlastOrder, hfound, hfinish⟩ := pushAll_tail closed usage reason
  refine ⟨last, ?_, ?_⟩
  · rw [streamOf, pushAll_append, hgathered, Option.bind_some, pushAll_append, hclosed,
      Option.bind_some, hlast]
  · rw [blocks_eq (expectedBlock past lastName)
      (hlastOrder.trans (horder.trans hassembled.order)), hfinish, blocksOf]
    intro slot hslot
    refine ⟨_, hfound ▸ hfrozen slot hslot, ?_⟩
    rw [← closeBlock_openBlockAt]
    rfl

theorem filter_streamOf (past : List Piece) :
    (streamOf past usage reason).filter (fun chunk => !chunk.isBlockEnd) =
      emissions [] past ++ ((usage.map StreamChunk.usage).toList ++ [.finish reason none]) := by
  have hkept : ∀ chunk ∈ emissions [] past, (!chunk.isBlockEnd) = true := fun chunk hchunk => by
    rw [(emissions_open past [] chunk hchunk).1]
    rfl
  have hdropped : ((keys Piece.slot past).map (endAt past)).filter
      (fun chunk => !chunk.isBlockEnd) = [] := by
    rw [filter_eq_nil_iff]
    intro chunk hchunk
    obtain ⟨slot, -, rfl⟩ := mem_map.mp hchunk
    exact Bool.false_ne_true
  rw [streamOf, filter_append, filter_append, filter_eq_self.mpr hkept, hdropped,
    nil_append]
  cases usage <;> rfl

theorem assembled_without_ends (past : List Piece) :
    ∃ assembler, BlockAssembler.pushAll {}
        ((streamOf past usage reason).filter fun chunk => !chunk.isBlockEnd) = some assembler ∧
      assembler.blocks = some (blocksOf past lastNonemptyName reason) := by
  obtain ⟨gathered, hgathered, hassembled⟩ := Assembled.emissions past assembled_nil
  rw [nil_append] at hassembled
  obtain ⟨last, hlast, horder, hfound, hfinish⟩ := pushAll_tail gathered usage reason
  refine ⟨last, ?_, ?_⟩
  · rw [filter_streamOf, pushAll_append, hgathered, Option.bind_some, hlast]
  · rw [blocks_eq (expectedBlock past lastNonemptyName) (horder.trans hassembled.order), hfinish,
      blocksOf]
    intro slot hslot
    exact ⟨_, hfound ▸ hassembled.partials slot hslot, assemble_partialAt past slot _⟩

theorem starts_streamOf (past : List Piece) :
    starts (streamOf past usage reason) = (keys Piece.slot past).map (rank Piece.slot past) := by
  have hemitted : starts (emissions [] past) =
      (keys Piece.slot past).map (rank Piece.slot past) := starts_emissions past []
  have hends : starts ((keys Piece.slot past).map (endAt past)) = [] := by
    rw [starts, filterMap_map]
    exact filterMap_eq_nil_iff.mpr fun _ _ => rfl
  rw [streamOf, starts_append, starts_append, hemitted, hends]
  cases usage <;> exact append_nil _

theorem nodup_starts (past : List Piece) : (starts (streamOf past usage reason)).Nodup := by
  rw [starts_streamOf]
  exact List.Nodup.map_on (fun _ hslot _ _ => (Grouping.rank_inj hslot).mp)
    (Grouping.nodup_keys Piece.slot past)

theorem startedBefore_ends {past : List Piece} (opened : List Nat) {slots : List Slot}
    (hslots : ∀ slot ∈ slots, rank Piece.slot past slot ∈ opened) :
    StartedBefore opened (slots.map (endAt past)) := by
  induction slots with
  | nil => trivial
  | cons slot rest ih =>
    rw [forall_mem_cons] at hslots
    refine ⟨fun index hindex => Option.some.inj hindex ▸ hslots.1, ?_⟩
    show StartedBefore (opened ++ []) _
    rw [append_nil]
    exact ih hslots.2

theorem startedBefore_streamOf (past : List Piece) :
    StartedBefore [] (streamOf past usage reason) := by
  have hemitted : starts (emissions [] past) =
      (keys Piece.slot past).map (rank Piece.slot past) := starts_emissions past []
  rw [streamOf, startedBefore_append, startedBefore_append]
  refine ⟨startedBefore_emissions past [], startedBefore_ends _ fun slot hslot => ?_, ?_⟩
  · rw [hemitted, nil_append]
    exact mem_map_of_mem hslot
  · cases usage <;> simp [StartedBefore, StreamChunk.continued]

theorem streamOf_finish (past : List Piece) :
    ∃ before, streamOf past usage reason = before ++ [.finish reason none] ∧
      ∀ chunk ∈ before, chunk.isFinish = false := by
  refine ⟨emissions [] past ++ ((keys Piece.slot past).map (endAt past) ++
    (usage.map StreamChunk.usage).toList), ?_, ?_⟩
  · rw [streamOf, append_assoc, append_assoc]
  · intro chunk hchunk
    rw [mem_append, mem_append] at hchunk
    rcases hchunk with hemitted | hend | husage
    · exact (emissions_open past [] chunk hemitted).2
    · obtain ⟨slot, -, rfl⟩ := mem_map.mp hend
      rfl
    · cases usage with
      | none => exact absurd husage not_mem_nil
      | some usage =>
        rw [mem_singleton.mp husage]
        rfl

end Streams

section Main

variable [WireLibrary]

theorem stream_eq (chunks : List WireChunk) :
    ∃ translator emitted, Translator.feedAll {} chunks = some (translator, emitted) ∧
      ∃ usage, emitted ++ translator.done =
        streamOf (pieces chunks) usage (expectedFinish chunks) := by
  have hstart : Translated [] {} := ⟨rfl, rfl, fun slot => by cases slot <;> rfl⟩
  obtain ⟨translator, hfeed, hfed⟩ := feedAll_spec chunks hstart
  exact ⟨translator, _, hfeed, translator.pendingUsage, by rw [done_eq hfed, streamOf]⟩

/-- Translation and assembly agree. The stream starts every block once and before its first delta
and ends with its only finish. The assembler takes it without a panic and makes one block for each
slot that has received data, a tool call with the last name it was given; without the block ends
it makes the same blocks, but for tool calls whose last name is empty: these keep the last name
that is not. -/
theorem translation_assembled (chunks : List WireChunk) :
    ∃ translator emitted, Translator.feedAll {} chunks = some (translator, emitted) ∧
      let stream := emitted ++ translator.done
      (∃ assembler, BlockAssembler.pushAll {} stream = some assembler ∧
        assembler.blocks = some (expectedBlocks lastName chunks)) ∧
      (∃ assembler, BlockAssembler.pushAll {} (stream.filter fun chunk => !chunk.isBlockEnd) =
          some assembler ∧
        assembler.blocks = some (expectedBlocks lastNonemptyName chunks)) ∧
      (starts stream).Nodup ∧ StartedBefore [] stream ∧
      ∃ before, stream = before ++ [.finish (expectedFinish chunks) none] ∧
        ∀ chunk ∈ before, chunk.isFinish = false := by
  obtain ⟨translator, emitted, hfeed, usage, hstream⟩ := stream_eq chunks
  refine ⟨translator, emitted, hfeed, ?_⟩
  simp only [hstream]
  exact ⟨assembled_with_ends _, assembled_without_ends _, nodup_starts _,
    startedBefore_streamOf _, streamOf_finish _⟩

/-- A chunk with one fragment of a tool call. -/
def callChunk (name : String) : WireChunk :=
  ⟨[⟨some ⟨none, none, [⟨0, none, some ⟨some name, none⟩⟩]⟩, none⟩], none⟩

end Main

/-- A fragment with an empty name behind one with a name: the block end carries the empty name,
the deltas keep the other. -/
theorem block_ends_differ : ¬ ∀ (_ : WireLibrary) (chunks : List WireChunk) translator emitted full
    deltas, Translator.feedAll {} chunks = some (translator, emitted) →
      BlockAssembler.pushAll {} (emitted ++ translator.done) = some full →
      BlockAssembler.pushAll {}
        ((emitted ++ translator.done).filter fun chunk => !chunk.isBlockEnd) = some deltas →
      deltas.blocks = full.blocks := by
  intro hclaim
  have hsame := hclaim ⟨id, fun _ => none⟩ [callChunk "bash", callChunk ""] _ _ _ _ rfl rfl rfl
  revert hsame
  decide

end Keel.Llm
