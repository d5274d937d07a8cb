import Keel.Doc.PartContent
import Keel.Engine.DriveRun

/-! # What a finished run leaves in the transcript

Every segment of a run ends in a finished entry, or in no entry if nothing was
folded. The invariant keeps the finished entries with the parts they store next
to the parts of the open segment.
-/

namespace Keel

open List

section Rendering

theorem renderPart_textOf (part : MessagePart) : (renderPart part).textOf = part.textOf := by
  cases part <;> rfl

theorem renderPart_toolId? (part : MessagePart) : (renderPart part).toolId? = part.toolId? := by
  cases part <;> rfl

theorem renderPart_bare {part : MessagePart} (hbare : part.Bare) : (renderPart part).Bare := by
  cases part with
  | tool fields =>
    exact ⟨hbare.output, hbare.diff, hbare.outputRef, hbare.outputBytes, hbare.diffRef⟩
  | _ => trivial

theorem renderPart_evolves {old new : MessagePart} (hevolves : Evolves old new) :
    Evolves (renderPart old) (renderPart new) := by
  cases hevolves with
  | text hgrows => exact .text hgrows
  | tool hid hresolved => exact .tool hid hresolved
  | input hresolved => exact .input hresolved
  | error id message => exact .error id message
  | decision id old new => exact .decision id old new

theorem renderParts_grows {olds news : List MessagePart} (hgrows : PartsGrow olds news) :
    PartsGrow (renderParts olds) (renderParts news) :=
  hgrows.map renderPart_evolves

theorem renderParts_bare {parts : List MessagePart} (hbare : ∀ part ∈ parts, part.Bare) :
    ∀ part ∈ renderParts parts, part.Bare := by
  intro part hpart
  obtain ⟨old, hold, rfl⟩ := mem_map.mp hpart
  exact renderPart_bare (hbare old hold)

theorem settleInput_textOf (part : MessagePart) : part.settleInput.textOf = part.textOf := by
  cases part <;> rfl

theorem settleInput_evolves (part : MessagePart) : Evolves part part.settleInput := by
  cases part with
  | input => exact .input fun _ => rfl
  | _ => exact .refl _

theorem settleInput_bare {part : MessagePart} (hbare : part.Bare) : part.settleInput.Bare := by
  cases part with
  | tool fields => exact hbare
  | _ => trivial

end Rendering

/-- Two segments share no tool id but the live plan's. -/
def ToolsApart (first second : List MessagePart) : Prop :=
  ∀ id ∈ toolIds first, id ∈ toolIds second → id = livePlanToolId

/-- An entry stores a nonempty segment, and each of its parts parses. -/
structure StoresSegment (entry : EntryMap) (parts : List MessagePart) : Prop where
  stores : StoresParts entry.parts (renderParts parts)
  nonempty : parts ≠ []
  plain : ∀ map ∈ entry.parts, map.outputBytes = none

def Finished (doc : SessionDoc) (index : Nat) (parts : List MessagePart) : Prop :=
  ∃ entry, doc.messages[index]? = some entry ∧ StoresSegment entry parts ∧
    entry.status ≠ some .streaming

def Writing (doc : SessionDoc) (writer : SegmentWriter) (current : List MessagePart) : Prop :=
  ∃ entry written, SegmentWriter.Writes doc writer entry ∧ StoresSegment entry written ∧
    writer.written = renderParts written ∧ PartsGrow written current

/-- The doc holds the finished segments `pages` and the open segment `current`. -/
structure Recorded (transcript : Transcript) (heard seenTools : List String)
    (pages : List (Nat × List MessagePart)) (current : List MessagePart) : Prop where
  begun : transcript.begun =
    pages.map Prod.fst ++ transcript.writer.toList.map SegmentWriter.entryIndex
  ascending : transcript.begun.Pairwise (· < ·)
  bounded : ∀ index ∈ transcript.begun, index < transcript.doc.messages.length
  finished : ∀ page ∈ pages, Finished transcript.doc page.1 page.2
  writing : ∀ writer, transcript.writer = some writer → Writing transcript.doc writer current
  text : String.join heard = partsText (pages.flatMap Prod.snd) ++ partsText current
  apart : (pages.map Prod.snd ++ [current]).Pairwise ToolsApart
  seen : ∀ segment ∈ pages.map Prod.snd ++ [current], ∀ id ∈ toolIds segment,
    id ≠ livePlanToolId → id ∈ seenTools
  bare : ∀ part ∈ current, part.Bare

theorem mergeParts_plain {maps : List PartMap} {folded : List MessagePart}
    (hplain : ∀ map ∈ maps, map.outputBytes = none) (hbare : ∀ part ∈ folded, part.Bare) :
    ∀ map ∈ mergeParts maps folded, map.outputBytes = none := by
  have hbytes : ∀ part ∈ folded, (toDocPart part).outputBytes = none := by
    intro part hpart
    cases part with
    | tool fields => exact (hbare _ hpart).outputBytes
    | _ => rfl
  intro map hmap
  obtain ⟨index, hindex⟩ := getElem?_of_mem hmap
  rw [mergeParts_getElem?] at hindex
  split at hindex
  next stored part hstored hpart =>
    cases hindex
    simp [updatePartFields, hbytes part (mem_of_getElem? hpart),
      hplain stored (mem_of_getElem? hstored)]
  next part _ hpart =>
    cases hindex
    simp [PartMap.ofDocPart, hbytes part (mem_of_getElem? hpart)]
  next hpart => exact hplain map (mem_of_getElem? hindex)

theorem grows_nonempty {olds news : List MessagePart} (hgrows : PartsGrow olds news)
    (holds : olds ≠ []) : news ≠ [] := by
  cases hgrows with
  | nil => exact absurd rfl holds
  | cons => exact cons_ne_nil _ _

theorem StoresSegment.merge {entry : EntryMap} {written current : List MessagePart}
    (hstores : StoresParts entry.parts (renderParts written))
    (hplain : ∀ map ∈ entry.parts, map.outputBytes = none) (hgrows : PartsGrow written current)
    (hcurrent : current ≠ []) (hbare : ∀ part ∈ current, part.Bare) (status : Option MessageStatus) :
    StoresSegment
      { entry with parts := mergeParts entry.parts (renderParts current), status } current :=
  ⟨hstores.merge (renderParts_grows hgrows), hcurrent,
    mergeParts_plain hplain (renderParts_bare hbare)⟩

namespace Finished

variable {doc : SessionDoc} {index : Nat} {parts : List MessagePart}

theorem append (hfinished : Finished doc index parts) (added : List EntryMap) :
    Finished { doc with messages := doc.messages ++ added } index parts := by
  obtain ⟨entry, hentry, hrest⟩ := hfinished
  refine ⟨entry, ?_, hrest⟩
  exact List.getElem?_append_left (List.getElem?_eq_some_iff.mp hentry).1 ▸ hentry

theorem setEntry (hfinished : Finished doc index parts) {writer : SegmentWriter}
    (hother : writer.entryIndex ≠ index) (entry : EntryMap) :
    Finished (SegmentWriter.setEntry doc writer entry) index parts := by
  obtain ⟨stored, hstored, hrest⟩ := hfinished
  exact ⟨stored, by simpa [SegmentWriter.setEntry, getElem?_set_ne hother] using hstored, hrest⟩

end Finished

/-- A transcript whose streaming entry has been begun and can take the open
segment's parts. -/
structure Opened (transcript : Transcript) (writer : SegmentWriter) (entry : EntryMap)
    (pages : List (Nat × List MessagePart)) (current : List MessagePart) : Prop where
  begun : transcript.begun = pages.map Prod.fst ++ [writer.entryIndex]
  ascending : transcript.begun.Pairwise (· < ·)
  bounded : ∀ index ∈ transcript.begun, index < transcript.doc.messages.length
  finished : ∀ page ∈ pages, Finished transcript.doc page.1 page.2
  writes : SegmentWriter.Writes transcript.doc writer entry
  plain : ∀ map ∈ entry.parts, map.outputBytes = none
  grows : ∃ written, writer.written = renderParts written ∧ PartsGrow written current

section Segments

variable {transcript : Transcript} {heard seenTools : List String}
  {pages : List (Nat × List MessagePart)} {current : List MessagePart}

theorem Recorded.open (hrecorded : Recorded transcript heard seenTools pages current)
    (entryId deviceId : String) (startedAt : Int) :
    ∃ entry, Opened (transcript.ensureWriter entryId deviceId startedAt).1
      (transcript.ensureWriter entryId deviceId startedAt).2 entry pages current := by
  unfold Transcript.ensureWriter
  cases hwriter : transcript.writer with
  | some writer =>
    obtain ⟨entry, written, hwrites, hstores, hwritten, hgrows⟩ :=
      hrecorded.writing writer hwriter
    have hbegun := hrecorded.begun
    rw [hwriter] at hbegun
    exact ⟨entry, hbegun, hrecorded.ascending, hrecorded.bounded, hrecorded.finished, hwrites,
      hstores.plain, written, hwritten, hgrows⟩
  | none =>
    have hbegun : transcript.begun = pages.map Prod.fst := by simpa [hwriter] using hrecorded.begun
    refine ⟨_, by simp [hbegun], ?_, ?_, ?_,
      SegmentWriter.writes_begin transcript.doc entryId deviceId startedAt, by simp, [], rfl,
      .nil current⟩
    · refine pairwise_append.mpr ⟨hrecorded.ascending, pairwise_singleton _ _, ?_⟩
      intro index hindex last hlast
      exact mem_singleton.mp hlast ▸ hrecorded.bounded index hindex
    · intro index hindex
      simp only [SegmentWriter.begin, SessionDoc.pushMessage, length_append,
        length_singleton]
      rcases mem_append.mp hindex with hold | hnew
      · exact (hrecorded.bounded index hold).trans (Nat.lt_succ_self _)
      · exact mem_singleton.mp hnew ▸ Nat.lt_succ_self _
    · exact fun page hpage => (hrecorded.finished page hpage).append _

variable {writer : SegmentWriter} {entry : EntryMap}

section
variable (hopened : Opened transcript writer entry pages current)
include hopened

theorem Opened.finished_setEntry (new : EntryMap) :
    ∀ page ∈ pages, Finished (SegmentWriter.setEntry transcript.doc writer new) page.1 page.2 := by
  intro page hpage
  have hascending := hopened.ascending
  rw [hopened.begun, pairwise_append] at hascending
  have hbefore := hascending.2.2 page.1 (mem_map_of_mem hpage) writer.entryIndex
    (mem_singleton_self _)
  exact (hopened.finished page hpage).setEntry hbefore.ne' new

theorem Opened.grows_render : PartsGrow writer.written (renderParts current) := by
  obtain ⟨written, hwritten, hgrows⟩ := hopened.grows
  exact hwritten ▸ renderParts_grows hgrows

theorem Opened.merge (hcurrent : current ≠ []) (hbare : ∀ part ∈ current, part.Bare)
    (status : Option MessageStatus) : StoresSegment
      { entry with parts := mergeParts entry.parts (renderParts current), status } current := by
  obtain ⟨written, hwritten, hgrows⟩ := hopened.grows
  exact .merge (hwritten ▸ hopened.writes.stores) hopened.plain hgrows hcurrent hbare status

end

section
variable (hrecorded : Recorded transcript heard seenTools pages current)
include hrecorded

theorem Recorded.syncSegment (entryId deviceId : String) (startedAt : Int) :
    Recorded (transcript.syncSegment entryId deviceId startedAt current) heard seenTools pages
      current := by
  unfold Transcript.syncSegment
  split
  · exact hrecorded
  next hcurrent =>
    obtain ⟨entry, hopened⟩ := hrecorded.open entryId deviceId startedAt
    generalize transcript.ensureWriter entryId deviceId startedAt = ready at hopened ⊢
    obtain ⟨opened, writer⟩ := ready
    simp only at hopened
    simp only [SegmentWriter.sync_eq hopened.writes hopened.grows_render]
    refine ⟨by simp [hopened.begun], hopened.ascending, ?_, hopened.finished_setEntry _, ?_,
      hrecorded.text, hrecorded.apart, hrecorded.seen, hrecorded.bare⟩
    · simpa [SegmentWriter.setEntry] using hopened.bounded
    · rintro _ ⟨⟩
      exact ⟨_, current, hopened.writes.sync hopened.grows_render,
        hopened.merge hcurrent hrecorded.bare entry.status, rfl, PartsGrow.refl current⟩

theorem Recorded.current_ne_nil (hbusy : ¬ (transcript.writer = none ∧ current = [])) :
    current ≠ [] := by
  intro hnil
  cases hwriter : transcript.writer with
  | none => exact hbusy ⟨hwriter, hnil⟩
  | some writer =>
    obtain ⟨entry, written, -, hstores, -, hgrows⟩ := hrecorded.writing writer hwriter
    exact grows_nonempty hgrows hstores.nonempty hnil

theorem Recorded.finishSegment (entryId deviceId : String) (startedAt : Int)
    {status : MessageStatus} (hstatus : status ≠ .streaming) :
    ∃ pages', Recorded (transcript.finishSegment entryId deviceId startedAt current status) heard
      seenTools pages' [] := by
  unfold Transcript.finishSegment
  split
  next hempty =>
    obtain ⟨-, rfl⟩ := hempty
    exact ⟨pages, hrecorded⟩
  next hbusy =>
    have hcurrent := hrecorded.current_ne_nil hbusy
    obtain ⟨entry, hopened⟩ := hrecorded.open entryId deviceId startedAt
    generalize transcript.ensureWriter entryId deviceId startedAt = ready at hopened ⊢
    obtain ⟨opened, writer⟩ := ready
    simp only at hopened
    simp only [SegmentWriter.finish_eq hopened.writes hopened.grows_render]
    refine ⟨pages ++ [(writer.entryIndex, current)], ?_⟩
    refine ⟨by simp [hopened.begun], hopened.ascending, ?_, ?_, nofun, ?_, ?_, ?_, by simp⟩
    · simpa [SegmentWriter.setEntry] using hopened.bounded
    · intro page hpage
      rcases mem_append.mp hpage with hold | hnew
      · exact hopened.finished_setEntry _ page hold
      · obtain rfl := mem_singleton.mp hnew
        refine ⟨_, SegmentWriter.setEntry_getElem? hopened.writes.present _,
          hopened.merge hcurrent hrecorded.bare (some status), ?_⟩
        simpa using hstatus
    · simp [hrecorded.text]
    · rw [map_append, map_singleton, pairwise_append]
      refine ⟨hrecorded.apart, pairwise_singleton _ _, ?_⟩
      simp [ToolsApart, toolIds]
    · intro segment hsegment
      rw [map_append, map_singleton, mem_append] at hsegment
      rcases hsegment with hold | hnew
      · exact hrecorded.seen segment hold
      · obtain rfl := mem_singleton.mp hnew
        simp [toolIds]

theorem Recorded.grow {new : List MessagePart} {deltas seenTools' : List String}
    (hgrows : PartsGrow current new)
    (htext : partsText new = partsText current ++ String.join deltas)
    (htools : ∀ id ∈ toolIds new, id ∈ toolIds current ∨ id = livePlanToolId ∨
      (id ∉ seenTools ∧ id ∈ seenTools')) (hseen : ∀ id ∈ seenTools, id ∈ seenTools')
    (hbare : ∀ part ∈ new, part.Bare) :
    Recorded transcript (heard ++ deltas) seenTools' pages new := by
  have happart := pairwise_append.mp hrecorded.apart
  have hpages : ∀ segment ∈ pages.map Prod.snd, ∀ id ∈ toolIds segment, id ≠ livePlanToolId →
      id ∈ seenTools :=
    fun segment hsegment => hrecorded.seen segment (mem_append_left _ hsegment)
  refine ⟨hrecorded.begun, hrecorded.ascending, hrecorded.bounded, hrecorded.finished, ?_, ?_, ?_,
    ?_, hbare⟩
  · intro writer hwriter
    obtain ⟨entry, written, hwrites, hstores, hwritten, hold⟩ := hrecorded.writing writer hwriter
    exact ⟨entry, written, hwrites, hstores, hwritten, PartsGrow.trans hold hgrows⟩
  · rw [String.join_append, hrecorded.text, htext, String.append_assoc]
  · refine pairwise_append.mpr ⟨happart.1, pairwise_singleton _ _, ?_⟩
    intro segment hsegment last hlast id hid hnew
    obtain rfl := mem_singleton.mp hlast
    rcases htools id hnew with hold | hplan | ⟨hfresh, -⟩
    · exact happart.2.2 segment hsegment current (mem_singleton_self _) id hid hold
    · exact hplan
    -- The tools of every page have been seen, and this one has not.
    · by_contra hplan
      exact hfresh (hpages segment hsegment id hid hplan)
  · intro segment hsegment id hid hplan
    rcases mem_append.mp hsegment with hpage | hlast
    · exact hseen id (hpages segment hpage id hid hplan)
    · obtain rfl := mem_singleton.mp hlast
      rcases htools id hid with hold | hplan' | ⟨-, hnew⟩
      · exact hseen id
          (hrecorded.seen current (mem_append_right _ (mem_singleton_self _)) id hold hplan)
      · exact absurd hplan' hplan
      · exact hnew

end

theorem Recorded.writer_eq_none (hrecorded : Recorded transcript heard seenTools pages []) :
    transcript.writer = none := by
  cases hwriter : transcript.writer with
  | none => rfl
  | some writer =>
    obtain ⟨entry, written, -, hstores, -, hgrows⟩ := hrecorded.writing writer hwriter
    exact absurd rfl (grows_nonempty hgrows hstores.nonempty)

theorem Recorded.appendEntry (hrecorded : Recorded transcript heard seenTools pages current)
    (entry : EntryMap) :
    Recorded { transcript with doc.messages := transcript.doc.messages ++ [entry] } heard seenTools
      pages current := by
  refine ⟨hrecorded.begun, hrecorded.ascending, ?_,
    fun page hpage => (hrecorded.finished page hpage).append _, ?_, hrecorded.text, hrecorded.apart,
    hrecorded.seen, hrecorded.bare⟩
  · intro index hindex
    simp only [List.length_append, List.length_singleton]
    exact (hrecorded.bounded index hindex).trans (Nat.lt_succ_self _)
  · intro writer hwriter
    obtain ⟨open', written, hwrites, hrest⟩ := hrecorded.writing writer hwriter
    refine ⟨open', written, ⟨?_, hwrites.stores⟩, hrest⟩
    have hindex := (List.getElem?_eq_some_iff.mp hwrites.present).1
    exact (List.getElem?_append_left hindex).trans hwrites.present

end Segments

/-- A read part has the text of the folded one, and its tool id if it has one. -/
def ReadsAs (read part : MessagePart) : Prop :=
  read.textOf = part.textOf ∧ ∀ id, read.toolId? = some id → part.toolId? = some id

theorem partsText_readsAs {reads parts : List MessagePart}
    (hreads : List.Forall₂ ReadsAs reads parts) :
    partsText reads = partsText parts := by
  induction hreads with
  | nil => rfl
  | cons hhead htail ih => simpa [partsText, hhead.1] using ih

theorem toolIds_readsAs {reads parts : List MessagePart} (hreads : List.Forall₂ ReadsAs reads parts)
    {id : String} (hid : id ∈ toolIds reads) : id ∈ toolIds parts := by
  induction hreads with
  | nil => exact hid
  | @cons read part reads parts hhead htail ih =>
    rw [mem_toolIds, exists_mem_cons_iff, ← mem_toolIds] at hid ⊢
    exact hid.imp (hhead.2 id) ih

section Reading

variable [Serde]

theorem readsAs_fromDocPart {docPart : DocPartJson} {part : MessagePart}
    (hid : docPart.id = (toDocPart part).id) (hkind : docPart.kind = (toDocPart part).kind)
    (htext : docPart.text = (toDocPart part).text) : ReadsAs (fromDocPart docPart) part := by
  cases part with
  | tool fields =>
    simp only [toDocPart] at hid hkind
    rw [fromDocPart, if_pos hkind]
    cases docPart.call.bind Serde.call with
    | none => exact ⟨rfl, by simp [MessagePart.toolId?]⟩
    | some call =>
      refine ⟨rfl, ?_⟩
      rintro _ ⟨⟩
      simp [MessagePart.toolId?, hid]
  | decision id event =>
    simp only [toDocPart] at hkind
    simp only [fromDocPart, hkind, String.reduceEq, if_false, if_true]
    cases docPart.decision.bind Serde.decision with
    | none | some event => exact ⟨rfl, by simp [MessagePart.toolId?]⟩
  | text id body =>
    simp only [toDocPart] at hkind htext
    simp [ReadsAs, fromDocPart, hkind, htext, MessagePart.textOf, MessagePart.toolId?]
  | input id requestId questions resolved | error id message =>
    simp only [toDocPart] at hkind
    simp [ReadsAs, fromDocPart, hkind, MessagePart.textOf, MessagePart.toolId?]

theorem readParts_stores {maps : List PartMap} {parts : List MessagePart}
    (hstores : StoresParts maps parts) (hplain : ∀ map ∈ maps, map.outputBytes = none)
    (entryId : String) : List.Forall₂ ReadsAs (readParts entryId maps) parts := by
  suffices hparsed : ∃ docParts, maps.mapM PartMap.toDocPart? = some docParts ∧
      List.Forall₂ (fun docPart part => ReadsAs (fromDocPart docPart) part) docParts parts by
    obtain ⟨docParts, hmapM, hreads⟩ := hparsed
    simpa only [readParts, hmapM, forall₂_map_left_iff] using hreads
  induction hstores with
  | nil => exact ⟨[], rfl, .nil⟩
  | @cons map part maps parts hholds hrest ih =>
    rw [forall_mem_cons] at hplain
    obtain ⟨docParts, hmapM, hreads⟩ := ih hplain.2
    obtain ⟨docPart, hdocPart, hid, hkind, htext⟩ : ∃ docPart, map.toDocPart? = some docPart ∧
        docPart.id = (toDocPart part).id ∧ docPart.kind = (toDocPart part).kind ∧
        docPart.text = (toDocPart part).text := by
      simp [PartMap.toDocPart?, hholds.id, hholds.kind, hholds.text, hplain.1, unsigned?]
    exact ⟨docPart :: docParts, by simp [mapM_cons, hdocPart, hmapM],
      .cons (readsAs_fromDocPart hid hkind htext) hreads⟩

/-- A read entry of a finished segment. -/
structure EntryReads (entry : SessionMessageEntry) (parts : List MessagePart) : Prop where
  text : partsText entry.parts = partsText parts
  tools : ∀ id ∈ toolIds entry.parts, id ∈ toolIds parts
  nonempty : entry.parts ≠ []
  settled : entry.status ≠ some .streaming

theorem Finished.reads {doc : SessionDoc} {index : Nat} {parts : List MessagePart}
    (hfinished : Finished doc index parts) :
    ∃ entry, doc.readEntries[index]? = some entry ∧ EntryReads entry parts := by
  obtain ⟨entry, hentry, hstores, hstatus⟩ := hfinished
  have hreads := readParts_stores hstores.stores hstores.plain entry.id
  refine ⟨entryFromJson entry, by simp [SessionDoc.readEntries, hentry], ?_, ?_, ?_, hstatus⟩
  · exact (partsText_readsAs hreads).trans (partsText_map renderPart_textOf parts)
  · intro id hid
    have hrendered := toolIds_readsAs hreads hid
    rwa [renderParts, toolIds_map renderPart_toolId?] at hrendered
  · intro hempty
    have hlength := hreads.length_eq
    rw [show readParts entry.id entry.parts = [] from hempty, renderParts, length_map,
      length_nil, eq_comm, length_eq_zero_iff] at hlength
    exact hstores.nonempty hlength

end Reading

end Keel
