import Keel.Doc.SegmentWriter

/-! # What a streamed entry reads back as

A segment is folded event by event and synced at arbitrary points; the last
write is a sync or a finish. The entry is compared with the one a single push of
the final parts would have left. The two differ exactly where a part changed
after its first sync in a way the field update does not carry over.
-/

namespace Keel

open List

/-- One thing that happens to a streaming segment. -/
inductive StreamOp where
  | fold (event : AgentEvent)
  | sync

def StreamOp.clears : StreamOp → Bool
  | .fold event => event.clears
  | .sync => false

structure Segment where
  doc : SessionDoc
  writer : SegmentWriter
  folded : List MessagePart

section Model

variable [LineDiff]

def Segment.step (segment : Segment) : StreamOp → Except DocError Segment
  | .fold event => .ok { segment with folded := foldEventIntoParts segment.folded event }
  | .sync => do
      let (doc, writer) ← SegmentWriter.sync segment.doc segment.writer segment.folded
      return { segment with doc, writer }

def Segment.run (segment : Segment) : List StreamOp → Except DocError Segment
  | [] => .ok segment
  | op :: rest => do
      let next ← segment.step op
      next.run rest

omit [LineDiff] in
/-- The last write: a finish if a status is given, else a sync. -/
def Segment.close (segment : Segment) : Option MessageStatus → Except DocError SessionDoc
  | none => do
      let (doc, _) ← SegmentWriter.sync segment.doc segment.writer segment.folded
      return doc
  | some status => SegmentWriter.finish segment.doc segment.writer segment.folded status

/-- Begin an entry, fold and sync, and write for the last time. -/
def streamSegment (doc : SessionDoc) (entryId deviceId : String) (createdAt : Int)
    (ops : List StreamOp) (ending : Option MessageStatus) : Except DocError SessionDoc := do
  let (doc, writer) := SegmentWriter.begin doc entryId deviceId createdAt
  let segment ← Segment.run { doc, writer, folded := [] } ops
  segment.close ending

/-- The folded parts after the given operations. -/
def foldedParts (folded : List MessagePart) : List StreamOp → List MessagePart
  | [] => folded
  | .fold event :: rest => foldedParts (foldEventIntoParts folded event) rest
  | .sync :: rest => foldedParts folded rest

/-- The part lists handed to the writer, the last write's included. -/
def syncedParts (folded : List MessagePart) : List StreamOp → List (List MessagePart)
  | [] => [folded]
  | .fold event :: rest => syncedParts (foldEventIntoParts folded event) rest
  | .sync :: rest => folded :: syncedParts folded rest

end Model

/-- The versions of one part among the synced lists. -/
def versionsAt (synced : List (List MessagePart)) (index : Nat) : List MessagePart :=
  synced.filterMap fun parts => parts[index]?

def MessagePart.diffStats? : MessagePart → Option (List ToolDiffStat)
  | .tool fields => fields.diffStats
  | _ => none

/-- The writer's updates keep up with a part: a decision reads the same in its
first and its last synced version, and a tool part that ends without diff
statistics had none when it was synced. -/
def KeepsUp [Serde] (versions : List MessagePart) : Prop :=
  match versions.getLast? with
  | some (.decision id event) => ∀ first, versions.head? = some first →
      fromDocPart (toDocPart first) = fromDocPart (toDocPart (.decision id event))
  | some (.tool fields) => fields.diffStats = none →
      ∀ version ∈ versions, version.diffStats? = none
  | _ => True

/-- The statistics of the last version that had any. -/
def keptDiffStats (versions : List MessagePart) : Option (List ToolDiffStat) :=
  versions.foldl (fun kept version => version.diffStats?.or kept) none

theorem keptDiffStats_append (versions : List MessagePart) (new : MessagePart) :
    keptDiffStats (versions ++ [new]) = new.diffStats?.or (keptDiffStats versions) := by
  simp [keptDiffStats]

variable {versions : List MessagePart} {parts : List PartMap}

theorem keptDiffStats_of_last {last : MessagePart}
    {stats : List ToolDiffStat} (hlast : versions.getLast? = some last)
    (hstats : last.diffStats? = some stats) : keptDiffStats versions = some stats := by
  rw [← dropLast_append_getLast? _ hlast, keptDiffStats_append, hstats, Option.some_or]

theorem keptDiffStats_eq_none :
    keptDiffStats versions = none ↔ ∀ version ∈ versions, version.diffStats? = none := by
  induction versions using List.reverseRecOn with
  | nil => simp [keptDiffStats]
  | append_singleton versions new ih =>
    rw [keptDiffStats_append, Option.or_eq_none_iff, ih]
    simp [or_imp, forall_and, and_comm]

/-- A stored part after writes of the given versions. -/
inductive Written : List MessagePart → PartMap → Prop
  | push {part : MessagePart} (hbare : part.Bare) : Written [part] (.ofDocPart (toDocPart part))
  | update {versions : List MessagePart} {map : PartMap} {last new : MessagePart}
      (hwritten : Written versions map) (hlast : versions.getLast? = some last)
      (hevolves : Evolves last new) (hbare : new.Bare) :
      Written (versions ++ [new]) (updatePartFields map new)

/-- A stored part is its last version, except that it keeps the decision of the
first one and the last statistics there were. -/
def storedPart (first last : MessagePart) (diffStats : Option (List ToolDiffStat)) : PartMap :=
  { PartMap.ofDocPart (toDocPart last) with decision := (toDocPart first).decision, diffStats }

theorem updatePartFields_storedPart {first last new : MessagePart}
    {diffStats : Option (List ToolDiffStat)} (hevolves : Evolves last new) (hlast : last.Bare)
    (hnew : new.Bare) :
    updatePartFields (storedPart first last diffStats) new =
      storedPart first new (new.diffStats?.or diffStats) := by
  cases hevolves with
  | @tool old new hid hresolved =>
    have hisError : (if new.resolved then some new.isError else none).or
        (if old.resolved then some old.isError else none) =
        if new.resolved then some new.isError else none := by
      cases hold : old.resolved with
      | true => simp [hresolved hold]
      | false => simp
    simp [updatePartFields, storedPart, PartMap.ofDocPart, toDocPart, MessagePart.diffStats?,
      hid, hisError, hlast.output, hlast.diff, hlast.outputRef, hlast.outputBytes, hlast.diffRef,
      hnew.output, hnew.diff, hnew.outputRef, hnew.outputBytes, hnew.diffRef]
  | _ =>
    simp [updatePartFields, storedPart, PartMap.ofDocPart, toDocPart, MessagePart.diffStats?]

theorem Written.eq_storedPart {map : PartMap} (hwritten : Written versions map) :
    ∃ first last, versions.head? = some first ∧ versions.getLast? = some last ∧
      Evolves first last ∧ last.Bare ∧
      map = storedPart first last (keptDiffStats versions) := by
  induction hwritten with
  | @push part hbare =>
    refine ⟨part, part, rfl, rfl, .refl part, hbare, ?_⟩
    cases part <;> simp [storedPart, PartMap.ofDocPart, toDocPart, keptDiffStats,
      MessagePart.diffStats?]
  | @update versions map last new hwritten hlast hevolves hbare ih =>
    obtain ⟨first, last', hfirst, hlast', hfirstLast, hlastBare, rfl⟩ := ih
    obtain rfl := Option.mem_unique hlast hlast'
    refine ⟨first, new, ?_, getLast?_concat, hfirstLast.trans hevolves, hbare, ?_⟩
    · rw [head?_append, hfirst, Option.some_or]
    · rw [updatePartFields_storedPart hevolves hlastBare hbare, keptDiffStats_append]

theorem mapM_toDocPart? (hparses : ∀ map ∈ parts, map.toDocPart?.isSome) :
    ∃ docParts, parts.mapM PartMap.toDocPart? = some docParts ∧
      ∀ index : Nat, docParts[index]? = parts[index]?.bind PartMap.toDocPart? := by
  induction parts with
  | nil => exact ⟨[], rfl, by simp⟩
  | cons map rest ih =>
    rw [forall_mem_cons] at hparses
    obtain ⟨docPart, hdocPart⟩ := Option.isSome_iff_exists.mp hparses.1
    obtain ⟨docParts, hrest, hindex⟩ := ih hparses.2
    refine ⟨docPart :: docParts, by simp [mapM_cons, hdocPart, hrest], ?_⟩
    intro index
    cases index with
    | zero => simp [hdocPart]
    | succ index => simpa using hindex index

theorem foldl_pushPart (maps : List PartMap) (parts : List MessagePart) :
    parts.foldl pushPart maps = maps ++ parts.map fun part => .ofDocPart (toDocPart part) := by
  induction parts generalizing maps with
  | nil => simp
  | cons part rest ih => simp [ih, pushPart]

theorem toDocPart?_pushed {part : MessagePart} (hbare : part.Bare) :
    (PartMap.ofDocPart (toDocPart part)).toDocPart? = some (toDocPart part) := by
  cases part with
  | tool fields =>
    simp [PartMap.ofDocPart, PartMap.toDocPart?, toDocPart, unsigned?, hbare.outputBytes]
  | _ => rfl

section Reading

variable [Serde]

/-- A part written over its versions parses, and reads as its last version if
and only if the writer kept up with it. -/
theorem Written.reads_iff {versions : List MessagePart} {map : PartMap} {last : MessagePart}
    (hwritten : Written versions map) (hlast : versions.getLast? = some last) :
    ∃ docPart, map.toDocPart? = some docPart ∧
      (fromDocPart docPart = fromDocPart (toDocPart last) ↔ KeepsUp versions) := by
  obtain ⟨first, last', hfirst, hlast', hevolves, hbare, rfl⟩ := hwritten.eq_storedPart
  obtain rfl := Option.mem_unique hlast hlast'
  cases hevolves with
  | @decision id old new =>
    refine ⟨_, rfl, ?_⟩
    simp [KeepsUp, hlast, hfirst, toDocPart, fromDocPart, PartMap.ofDocPart, storedPart]
  | @tool old new hid hresolved =>
    refine ⟨{ toDocPart (.tool new) with diffStats := keptDiffStats versions }, ?_, ?_⟩
    · simp [storedPart, PartMap.ofDocPart, PartMap.toDocPart?, toDocPart, unsigned?,
        hbare.outputBytes]
    · obtain ⟨call, hcall⟩ := Option.isSome_iff_exists.mp (Serde.call_isSome new.call)
      have hparsed : (keptDiffStats versions).bind Serde.diffStats = none ↔
          keptDiffStats versions = none := by
        cases keptDiffStats versions with
        | none => simp
        | some stats => simp [Option.ne_none_iff_isSome.mpr (Serde.diffStats_isSome stats)]
      -- Both sides read a tool part and can differ in its statistics only.
      simp only [fromDocPart, toDocPart, Option.bind_some, hcall, KeepsUp, hlast,
        ← keptDiffStats_eq_none]
      cases hstats : new.diffStats with
      | none => simp [hparsed]
      | some stats => simp [keptDiffStats_of_last hlast hstats]
  | _ =>
    refine ⟨_, rfl, ?_⟩
    simp [KeepsUp, hlast, toDocPart, fromDocPart, PartMap.ofDocPart, storedPart]

theorem readParts_getElem? {parts : List PartMap}
    (hparses : ∀ map ∈ parts, map.toDocPart?.isSome) (entryId : String) (index : Nat) :
    (readParts entryId parts)[index]? =
      (parts[index]?.bind PartMap.toDocPart?).map fromDocPart := by
  obtain ⟨docParts, hparsed, hindex⟩ := mapM_toDocPart? hparses
  simp only [readParts, hparsed, getElem?_map, hindex]

theorem readParts_pushed_getElem? {parts : List MessagePart} (hbare : ∀ part ∈ parts, part.Bare)
    (entryId : String) (index : Nat) :
    (readParts entryId (parts.foldl pushPart []))[index]? =
      parts[index]?.map fun part => fromDocPart (toDocPart part) := by
  rw [foldl_pushPart, nil_append, readParts_getElem?]
  · rw [getElem?_map]
    cases hpart : parts[index]? with
    | none => rfl
    | some part => simp [toDocPart?_pushed (hbare part (mem_of_getElem? hpart))]
  · simp only [forall_mem_map]
    intro part hpart
    simp [toDocPart?_pushed (hbare part hpart)]

end Reading

/-- An entry's stored parts are what the synced lists leave. -/
structure Tracks (synced : List (List MessagePart)) (parts : List PartMap)
    (written : List MessagePart) : Prop where
  stores : StoresParts parts written
  versions : ∀ index map, parts[index]? = some map → Written (versionsAt synced index) map
  last : ∀ index : Nat, written[index]? = (versionsAt synced index).getLast?

theorem versionsAt_append (synced : List (List MessagePart)) (folded : List MessagePart)
    (index : Nat) :
    versionsAt (synced ++ [folded]) index = versionsAt synced index ++ folded[index]?.toList := by
  simp only [versionsAt, filterMap_append]
  cases hpart : folded[index]? with
  | none | some part => simp [hpart]

theorem Tracks.versionsAt_eq_nil {synced : List (List MessagePart)}
    {written : List MessagePart} (htracks : Tracks synced parts written) {index : Nat}
    (habsent : written[index]? = none) : versionsAt synced index = [] := by
  rw [htracks.last index] at habsent
  exact getLast?_eq_none_iff.mp habsent

theorem Tracks.merge {synced : List (List MessagePart)}
    {written folded : List MessagePart} (htracks : Tracks synced parts written)
    (hgrows : PartsGrow written folded) (hbare : ∀ part ∈ folded, part.Bare) :
    Tracks (synced ++ [folded]) (mergeParts parts folded) folded := by
  have hlength := htracks.stores.length_eq
  refine ⟨htracks.stores.merge hgrows, ?_, ?_⟩
  · intro index map hmap
    rw [versionsAt_append]
    rw [mergeParts_getElem?] at hmap
    cases hold : written[index]? with
    -- An index the mirror does not reach has no earlier version.
    | none =>
      have habsent : parts[index]? = none := by
        rw [List.getElem?_eq_none_iff] at hold ⊢
        omega
      rw [htracks.versionsAt_eq_nil hold]
      cases hpart : folded[index]? with
      | none => simp [habsent, hpart] at hmap
      | some part =>
        simp only [habsent, hpart, Option.some.injEq] at hmap
        subst hmap
        exact .push (hbare part (List.mem_of_getElem? hpart))
    | some old =>
      obtain ⟨new, hpart, hevolves⟩ := hgrows.getElem? hold
      have hindex : index < parts.length := hlength ▸ (List.getElem?_eq_some_iff.mp hold).1
      rw [List.getElem?_eq_getElem hindex, hpart, Option.some.injEq] at hmap
      subst hmap
      rw [hpart, Option.toList_some]
      exact .update (htracks.versions index _ (List.getElem?_eq_getElem hindex))
        (htracks.last index ▸ hold) hevolves (hbare new (List.mem_of_getElem? hpart))
  · intro index
    rw [versionsAt_append]
    cases hpart : folded[index]? with
    | some part => simp
    | none =>
      have habsent : written[index]? = none := by
        rw [List.getElem?_eq_none_iff] at hpart ⊢
        exact hgrows.length_le.trans hpart
      simp [htracks.versionsAt_eq_nil habsent]

/-- A segment between two operations, with the part lists synced so far. -/
structure Streams (synced : List (List MessagePart)) (index : Nat) (entry : EntryMap)
    (segment : Segment) : Prop where
  entryIndex : segment.writer.entryIndex = index
  present : segment.doc.messages[index]? = some entry
  tracks : Tracks synced entry.parts segment.writer.written
  grows : PartsGrow segment.writer.written segment.folded
  bare : ∀ part ∈ segment.folded, part.Bare

namespace Streams

variable {synced : List (List MessagePart)} {index : Nat} {entry : EntryMap} {segment : Segment}

section
variable (hstreams : Streams synced index entry segment)
include hstreams

theorem writes : SegmentWriter.Writes segment.doc segment.writer entry :=
  ⟨hstreams.entryIndex ▸ hstreams.present, hstreams.tracks.stores⟩

theorem fold [LineDiff] {event : AgentEvent} (hclears : event.clears = false) :
    Streams synced index entry
      { segment with folded := foldEventIntoParts segment.folded event } :=
  ⟨hstreams.entryIndex, hstreams.present, hstreams.tracks,
    PartsGrow.trans hstreams.grows (foldEventIntoParts_grows segment.folded hclears),
    foldEventIntoParts_bare hstreams.bare event⟩

theorem sync :
    ∃ doc writer, SegmentWriter.sync segment.doc segment.writer segment.folded = .ok (doc, writer) ∧
      Streams (synced ++ [segment.folded]) index
        { entry with parts := mergeParts entry.parts segment.folded }
        { segment with doc, writer } := by
  refine ⟨_, _, SegmentWriter.sync_eq hstreams.writes hstreams.grows, hstreams.entryIndex, ?_,
    hstreams.tracks.merge hstreams.grows hstreams.bare, PartsGrow.refl _, hstreams.bare⟩
  have hpresent := (hstreams.writes.sync hstreams.grows).present
  exact hstreams.entryIndex ▸ hpresent

theorem run [LineDiff] {ops : List StreamOp} (hops : ∀ op ∈ ops, op.clears = false) :
    ∃ final synced' entry', segment.run ops = .ok final ∧
      Streams synced' index entry' final ∧ entry'.id = entry.id ∧
      final.folded = foldedParts segment.folded ops ∧
      synced' ++ [final.folded] = synced ++ syncedParts segment.folded ops := by
  induction ops generalizing synced entry segment with
  | nil => exact ⟨segment, synced, entry, rfl, hstreams, rfl, rfl, rfl⟩
  | cons op rest ih =>
    rw [forall_mem_cons] at hops
    cases op with
    | fold event => exact ih (hstreams.fold hops.1) hops.2
    | sync =>
      obtain ⟨doc, writer, hsync, hnext⟩ := hstreams.sync
      obtain ⟨final, synced', entry', hrun, hfinal, hid, hfolded, hsynced⟩ := ih hnext hops.2
      refine ⟨final, synced', entry', ?_, hfinal, hid, hfolded, ?_⟩
      · simpa [Segment.run, Segment.step, hsync, bind, Except.bind, pure, Except.pure]
          using hrun
      · simpa [syncedParts] using hsynced

end

theorem close (hstreams : Streams synced index entry segment) (ending : Option MessageStatus) :
    ∃ doc entry', segment.close ending = .ok doc ∧ doc.messages[index]? = some entry' ∧
      entry'.id = entry.id ∧ entry'.parts = mergeParts entry.parts segment.folded := by
  have hpresent := hstreams.present
  rw [← hstreams.entryIndex] at hpresent ⊢
  cases ending with
  | none =>
    have hclose : segment.close none = .ok (SegmentWriter.setEntry segment.doc segment.writer
        { entry with parts := mergeParts entry.parts segment.folded }) := by
      simp only [Segment.close, SegmentWriter.sync_eq hstreams.writes hstreams.grows]
      rfl
    exact ⟨_, _, hclose, SegmentWriter.setEntry_getElem? hpresent _, rfl, rfl⟩
  | some status =>
    exact ⟨_, _, SegmentWriter.finish_eq hstreams.writes hstreams.grows status,
      SegmentWriter.setEntry_getElem? hpresent _, rfl, rfl⟩

end Streams

/-- Tracked parts read as the parts last synced if and only if the writer kept
up with each of them. -/
theorem Tracks.readParts_iff [Serde] {synced : List (List MessagePart)} {folded : List MessagePart}
    (htracks : Tracks synced parts folded) (hbare : ∀ part ∈ folded, part.Bare) (entryId : String) :
    readParts entryId parts = readParts entryId (folded.foldl pushPart []) ↔
      ∀ index, KeepsUp (versionsAt synced index) := by
  have hlength := htracks.stores.length_eq
  have hlast : ∀ (index : Nat) (map : PartMap), parts[index]? = some map →
      ∃ last, folded[index]? = some last ∧ (versionsAt synced index).getLast? = some last := by
    intro index map hmap
    have hindex : index < folded.length := hlength ▸ (List.getElem?_eq_some_iff.mp hmap).1
    exact ⟨_, List.getElem?_eq_getElem hindex,
      (htracks.last index).symm.trans (List.getElem?_eq_getElem hindex)⟩
  have hparses : ∀ map ∈ parts, map.toDocPart?.isSome := by
    intro map hmem
    obtain ⟨index, hmap⟩ := List.getElem?_of_mem hmem
    obtain ⟨last, -, hversion⟩ := hlast index map hmap
    obtain ⟨docPart, hdocPart, -⟩ := (htracks.versions index map hmap).reads_iff hversion
    simp [hdocPart]
  rw [List.ext_getElem?_iff]
  apply forall_congr'
  intro index
  rw [readParts_getElem? hparses, readParts_pushed_getElem? hbare]
  cases hmap : parts[index]? with
  | none =>
    have habsent : folded[index]? = none := by
      rw [List.getElem?_eq_none_iff] at hmap ⊢
      omega
    simp [habsent, htracks.versionsAt_eq_nil habsent, KeepsUp]
  | some map =>
    obtain ⟨last, hfolded, hversion⟩ := hlast index map hmap
    obtain ⟨docPart, hdocPart, hreads⟩ := (htracks.versions index map hmap).reads_iff hversion
    simp [hfolded, hdocPart, hreads]

/-- Streaming a segment succeeds, and its entry reads back as a single push of
the final parts would if and only if the writer's updates keep up with every
part. -/
theorem streamSegment_readsBack_iff [LineDiff] [Serde] (doc : SessionDoc)
    (entryId deviceId : String) (createdAt : Int) (ops : List StreamOp)
    (ending : Option MessageStatus) (hops : ∀ op ∈ ops, op.clears = false) :
    ∃ final entry, streamSegment doc entryId deviceId createdAt ops ending = .ok final ∧
      final.readEntries[doc.messages.length]? = some entry ∧
      (entry.parts = readParts entryId ((foldedParts [] ops).foldl pushPart []) ↔
        ∀ index, KeepsUp (versionsAt (syncedParts [] ops) index)) := by
  have hbegin := SegmentWriter.writes_begin doc entryId deviceId createdAt
  have hstart : Streams [] doc.messages.length
      { id := entryId, role := .assistant, createdAt, deviceId, status := some .streaming,
        continuationOf := none, parts := [] }
      { doc := (SegmentWriter.begin doc entryId deviceId createdAt).1
        writer := (SegmentWriter.begin doc entryId deviceId createdAt).2
        folded := [] } :=
    ⟨rfl, hbegin.present, ⟨.nil, by simp, fun _ => rfl⟩, .nil [], by simp⟩
  obtain ⟨segment, synced, entry, hrun, hstreams, hid, hfolded, hsynced⟩ := hstart.run hops
  obtain ⟨final, entry', hclose, hpresent, hid', hparts⟩ := hstreams.close ending
  refine ⟨final, entryFromJson entry', ?_, ?_, ?_⟩
  · simp only [streamSegment, hrun, bind, Except.bind, hclose]
  · simp [SessionDoc.readEntries, hpresent]
  · have htracks := hstreams.tracks.merge hstreams.grows hstreams.bare
    rw [hsynced, nil_append] at htracks
    have hentry : entry'.id = entryId := hid'.trans hid
    simp only [entryFromJson, hentry, hparts, ← hfolded]
    exact htracks.readParts_iff hstreams.bare entryId

section Examples

local instance : LineDiff := .replaceAll

local instance : Serde := .verbatim

/-- A tool call that is refreshed and resolved between two syncs, with text
around it. -/
def toolTurn : List StreamOp :=
  [.fold (.textDelta "on "), .sync, .fold (.textDelta "it"), .fold (.toolCall "c1" (.exec "ls")),
    .sync, .fold (.toolCall "c1" (.exec "ls -l")), .fold (.toolResult "c1" true none none),
    .fold (.textDelta "done")]

theorem streamSegment_readsBack_toolTurn :
    ∃ final entry, streamSegment (.init "chat") "a1" "dev" 5 toolTurn (some .complete) = .ok final ∧
      final.readEntries[0]? = some entry ∧
      entry.parts = readParts "a1" ((foldedParts [] toolTurn).foldl pushPart []) := by
  obtain ⟨final, entry, hstream, hentry, hiff⟩ :=
    streamSegment_readsBack_iff (.init "chat") "a1" "dev" 5 toolTurn (some .complete) (by decide)
  refine ⟨final, entry, hstream, hentry, hiff.mpr ?_⟩
  have hsynced : syncedParts [] toolTurn =
      [[.text "t0" "on "],
        [.text "t0" "on it", .tool (.opened "c1" (.exec "ls"))],
        [.text "t0" "on it",
          .tool { ToolPart.opened "c1" (.exec "ls -l") with isError := true, resolved := true },
          .text "t2" "done"]] := by decide
  rw [hsynced]
  intro index
  match index with
  | 0 | 2 | _ + 3 => simp [versionsAt, KeepsUp]
  | 1 => simp [versionsAt, KeepsUp, MessagePart.diffStats?, ToolPart.opened]

/-- The receipt of one decision, with or without its observed outcome. -/
def receipt (observedOutcome : Option String) : DecisionEvent :=
  { schemaVersion := 1, id := "step-1", taskRevision := 2, backend := .jev, stage := .preStep
    candidates := [⟨"inspect", "Inspect"⟩], result := .selected "inspect", validation := .accepted
    confidence := none, selectedProbability := none, fit := none, fallback := none
    observedOutcome, createdAt := 1 }

/-- A receipt is synced before its outcome is observed. -/
def receiptTurn : List StreamOp :=
  [.fold (.decision (receipt none)), .sync, .fold (.decision (receipt (some "ok")))]

theorem receiptTurn_losesOutcome :
    ¬ ∀ (doc : SessionDoc) (entryId deviceId : String) (createdAt : Int) (ops : List StreamOp)
      (ending : Option MessageStatus), (∀ op ∈ ops, op.clears = false) →
      ∃ final entry, streamSegment doc entryId deviceId createdAt ops ending = .ok final ∧
        final.readEntries[doc.messages.length]? = some entry ∧
        entry.parts = readParts entryId ((foldedParts [] ops).foldl pushPart []) := by
  intro hreadsBack
  obtain ⟨final, entry, hstream, hentry, hparts⟩ :=
    hreadsBack (.init "chat") "a1" "dev" 5 receiptTurn none (by decide)
  have hread : (streamSegment (.init "chat") "a1" "dev" 5 receiptTurn none).toOption.bind
      (fun final => final.readEntries[0]?.map fun entry => entry.parts) =
      some [.decision "decision-step-1" (receipt none)] := by decide
  have hpushed : readParts "a1" ((foldedParts [] receiptTurn).foldl pushPart []) =
      [.decision "decision-step-1" (receipt (some "ok"))] := by decide
  rw [hstream] at hread
  have hstored : entry.parts = [.decision "decision-step-1" (receipt none)] := by
    have hfirst : final.readEntries[0]? = some entry := hentry
    simpa [Except.toOption, hfirst] using hread
  rw [hstored, hpushed] at hparts
  exact absurd hparts (by decide)

end Examples

end Keel
