import Mathlib.Data.List.Forall2
import Keel.Doc.PartGrowth
import Keel.Doc.Schema

/-! # The incremental segment writer

The writer of one streaming assistant entry. It mirrors the parts it has written
and at each sync writes the difference: trailing text is appended, new parts are
pushed, any other change updates the fields of a stored part in place. The field
update inserts what the new version has and removes nothing, and it leaves the
stored decision alone.
-/

namespace Keel

open List Option Text

structure SegmentWriter where
  /-- Index of the entry in the `messages` list. -/
  entryIndex : Nat
  /-- Mirror of what has been written so far. -/
  written : List MessagePart

/-- In-place field refresh. Text is rewritten only where there is text. -/
def updatePartFields (map : PartMap) (part : MessagePart) : PartMap :=
  let docPart := toDocPart part
  { map with
    call := docPart.call.or map.call
    isError := docPart.isError.or map.isError
    questions := docPart.questions.or map.questions
    resolved := docPart.resolved.or map.resolved
    message := docPart.message.or map.message
    output := docPart.output.or map.output
    diff := docPart.diff.or map.diff
    outputRef := docPart.outputRef.or map.outputRef
    outputBytes := (docPart.outputBytes.map asI64).or map.outputBytes
    diffRef := docPart.diffRef.or map.diffRef
    diffStats := docPart.diffStats.or map.diffStats
    text := map.text.map fun stored => docPart.text.getD stored }

namespace SegmentWriter

def partMapAt (parts : List PartMap) (index : Nat) : Except DocError PartMap :=
  match parts[index]? with
  | some map => .ok map
  | none => .error (.schema ("part map missing at " ++ toString index))

/-- Append to a stored text; an empty suffix touches nothing. -/
def appendText (parts : List PartMap) (index : Nat) (delta : String) :
    Except DocError (List PartMap) :=
  if delta = "" then .ok parts
  else do
    let map ← partMapAt parts index
    match map.text with
    | some text => .ok (parts.set index { map with text := some (text ++ delta) })
    | none => .error (.schema "text part missing LoroText")

def rewritePart (parts : List PartMap) (index : Nat) (part : MessagePart) :
    Except DocError (List PartMap) := do
  let map ← partMapAt parts index
  return parts.set index (updatePartFields map part)

/-- Write what changed between the written and the folded version of a part. -/
def writeChange (parts : List PartMap) (index : Nat) :
    MessagePart → MessagePart → Except DocError (List PartMap)
  | .text _ old, .text id new =>
    if startsWith new old then
      appendText parts index (dropChars old.toList.length new)
    else rewritePart parts index (.text id new)
  | _, part => rewritePart parts index part

def syncPart (parts : List PartMap) (written : List MessagePart) (index : Nat)
    (part : MessagePart) : Except DocError (List PartMap × List MessagePart) :=
  match written[index]? with
  | none => .ok (pushPart parts part, written ++ [part])
  | some prev =>
    if prev = part then .ok (parts, written)
    else do
      let parts ← writeChange parts index prev part
      return (parts, written.set index part)

def syncParts (parts : List PartMap) (written : List MessagePart) (index : Nat) :
    List MessagePart → Except DocError (List PartMap × List MessagePart)
  | [] => .ok (parts, written)
  | part :: rest => do
      let (parts, written) ← syncPart parts written index part
      syncParts parts written (index + 1) rest

/-- Begin a streaming assistant entry with no parts. -/
def begin (doc : SessionDoc) (entryId deviceId : String) (createdAt : Int) :
    SessionDoc × SegmentWriter :=
  (doc.pushMessage
    { id := entryId, role := .assistant, parts := [], createdAt, deviceId,
      status := some .streaming, continuationOf := none },
    { entryIndex := doc.messages.length, written := [] })

def entryMap (doc : SessionDoc) (writer : SegmentWriter) : Except DocError EntryMap :=
  match doc.messages[writer.entryIndex]? with
  | some entry => .ok entry
  | none => .error (.schema "streaming entry map missing")

/-- Store a new version of the writer's entry. -/
def setEntry (doc : SessionDoc) (writer : SegmentWriter) (entry : EntryMap) : SessionDoc :=
  { doc with messages := doc.messages.set writer.entryIndex entry }

/-- Diff the folded segment into the doc. An error abandons the pass. -/
def sync (doc : SessionDoc) (writer : SegmentWriter) (folded : List MessagePart) :
    Except DocError (SessionDoc × SegmentWriter) := do
  let entry ← entryMap doc writer
  let (parts, written) ← syncParts entry.parts writer.written 0 folded
  return (setEntry doc writer { entry with parts }, { writer with written })

/-- Sync the final parts and stamp a terminal status. -/
def finish (doc : SessionDoc) (writer : SegmentWriter) (folded : List MessagePart)
    (status : MessageStatus) : Except DocError SessionDoc := do
  let (doc, writer) ← sync doc writer folded
  let entry ← entryMap doc writer
  return setEntry doc writer { entry with status := some status }

end SegmentWriter

/-- A stored part already has what a field update with its version writes. -/
structure Holds (map : PartMap) (part : MessagePart) : Prop where
  id : map.id = some (toDocPart part).id
  kind : map.kind = some (toDocPart part).kind
  text : map.text = (toDocPart part).text
  absorbed : updatePartFields map part = map

theorem holds_pushed (part : MessagePart) : Holds (.ofDocPart (toDocPart part)) part := by
  refine ⟨rfl, rfl, rfl, ?_⟩
  cases part <;> simp [updatePartFields, PartMap.ofDocPart, toDocPart]

theorem updatePartFields_idem (map : PartMap) (part : MessagePart) :
    updatePartFields (updatePartFields map part) part = updatePartFields map part := by
  have htext : ∀ stored : Option String,
      (stored.map fun text => (toDocPart part).text.getD text).map
        (fun text => (toDocPart part).text.getD text) =
      stored.map fun text => (toDocPart part).text.getD text := by
    intro stored
    cases stored with
    | none => rfl
    | some text => cases (toDocPart part).text <;> rfl
  simp only [updatePartFields, ← Option.or_assoc, Option.or_self, htext]

theorem Evolves.docPart {old new : MessagePart} (hevolves : Evolves old new) :
    (toDocPart new).id = (toDocPart old).id ∧ (toDocPart new).kind = (toDocPart old).kind ∧
      (toDocPart new).text.isSome = (toDocPart old).text.isSome := by
  cases hevolves with
  | tool hid hresolved => exact ⟨hid, rfl, rfl⟩
  | _ => exact ⟨rfl, rfl, rfl⟩

theorem Holds.update {map : PartMap} {old new : MessagePart} (hholds : Holds map old)
    (hevolves : Evolves old new) : Holds (updatePartFields map new) new := by
  obtain ⟨hid, hkind, htext⟩ := hevolves.docPart
  refine ⟨hholds.id.trans (congrArg some hid.symm), hholds.kind.trans (congrArg some hkind.symm),
    ?_, updatePartFields_idem map new⟩
  simp only [updatePartFields, hholds.text]
  cases hnew : (toDocPart new).text with
  | none =>
    rw [hnew, isSome_none, eq_comm, isSome_eq_false_iff, isNone_iff_eq_none]
      at htext
    simp [htext]
  | some text =>
    rw [hnew, isSome_some] at htext
    obtain ⟨stored, hstored⟩ := isSome_iff_exists.mp htext.symm
    simp [hstored]

/-- What a sync leaves in the doc: the stored parts updated with their folded
versions, then the new parts. -/
def mergeParts : List PartMap → List MessagePart → List PartMap
  | [], fresh => fresh.map fun part => .ofDocPart (toDocPart part)
  | maps, [] => maps
  | map :: maps, part :: rest => updatePartFields map part :: mergeParts maps rest

theorem mergeParts_getElem? (maps : List PartMap) (folded : List MessagePart) (index : Nat) :
    (mergeParts maps folded)[index]? =
      match maps[index]?, folded[index]? with
      | some map, some part => some (updatePartFields map part)
      | none, some part => some (.ofDocPart (toDocPart part))
      | map, none => map := by
  induction maps generalizing folded index with
  | nil =>
    simp only [mergeParts, getElem?_map, getElem?_nil]
    cases folded[index]? <;> rfl
  | cons map maps ih =>
    cases folded with
    | nil =>
      simp only [mergeParts, getElem?_nil]
    | cons part rest =>
      cases index with
      | zero => rfl
      | succ index => exact ih rest index

/-- The stored parts of an entry are those of its mirror. -/
abbrev StoresParts : List PartMap → List MessagePart → Prop := List.Forall₂ Holds

theorem StoresParts.merge {maps : List PartMap} {written folded : List MessagePart}
    (hstores : StoresParts maps written) (hgrows : PartsGrow written folded) :
    StoresParts (mergeParts maps folded) folded := by
  induction hstores generalizing folded with
  | nil =>
    simp only [mergeParts, StoresParts, forall₂_map_left_iff]
    exact forall₂_same.mpr fun part _ => holds_pushed part
  | cons hholds hrest ih =>
    cases hgrows with
    | cons hhead htail => exact .cons (hholds.update hhead) (ih htail)

namespace SegmentWriter

variable {parts : List PartMap} {index : Nat} {map : PartMap} {old new : MessagePart}

section
variable (hmap : parts[index]? = some map)
include hmap

theorem rewritePart_eq (part : MessagePart) :
    rewritePart parts index part = .ok (parts.set index (updatePartFields map part)) := by
  simp [rewritePart, partMapAt, hmap]

theorem appendText_eq {id oldText newText : String} (hholds : Holds map (.text id oldText))
    (hgrows : startsWith newText oldText = true) :
    appendText parts index (dropChars oldText.toList.length newText) =
      .ok (parts.set index (updatePartFields map (.text id newText))) := by
  have hwhole := append_dropChars hgrows
  have htext : map.text = some oldText := hholds.text
  have hupdated : updatePartFields map (.text id newText) = { map with text := some newText } := by
    simp [updatePartFields, toDocPart, htext]
  rw [appendText, hupdated]
  split
  -- An empty suffix writes nothing, and the stored text is the new one already.
  next hempty =>
    rw [hempty, String.append_empty] at hwhole
    rw [← hwhole, ← htext, Lists.set_of_getElem? hmap]
  · simp [partMapAt, hmap, htext, hwhole, bind, Except.bind]

theorem writeChange_eq (hholds : Holds map old) (hevolves : Evolves old new) :
    writeChange parts index old new = .ok (parts.set index (updatePartFields map new)) := by
  cases hevolves with
  | text hgrows =>
    rw [writeChange, if_pos hgrows]
    exact appendText_eq hmap hholds hgrows
  | _ => exact rewritePart_eq hmap _

theorem syncPart_eq {written : List MessagePart} (hwritten : written[index]? = some old)
    (hholds : Holds map old) (hevolves : Evolves old new) : syncPart parts written index new =
      .ok (parts.set index (updatePartFields map new), written.set index new) := by
  simp only [syncPart, hwritten]
  split
  next hsame =>
    subst hsame
    rw [hholds.absorbed, Lists.set_of_getElem? hmap, Lists.set_of_getElem? hwritten]
  · simp [writeChange_eq hmap hholds hevolves, bind, Except.bind, pure, Except.pure]

end

theorem syncParts_eq (done maps : List PartMap) (mirrored written folded : List MessagePart)
    (hdone : mirrored.length = done.length) (hstores : StoresParts maps written)
    (hgrows : PartsGrow written folded) :
    syncParts (done ++ maps) (mirrored ++ written) done.length folded =
      .ok (done ++ mergeParts maps folded, mirrored ++ folded) := by
  induction folded generalizing done maps mirrored written with
  | nil =>
    cases hgrows
    cases hstores
    simp [syncParts, mergeParts]
  | cons part rest ih =>
    cases hstores with
    | nil =>
      -- The mirror ends here: this part and all later ones are pushed.
      have hpushed : syncPart (done ++ []) (mirrored ++ []) done.length part =
          .ok (done ++ [.ofDocPart (toDocPart part)] ++ [], mirrored ++ [part] ++ []) := by
        simp [syncPart, ← hdone, pushPart]
      rw [syncParts, hpushed]
      have hrest := ih (done ++ [.ofDocPart (toDocPart part)]) [] (mirrored ++ [part]) []
        (by simp [hdone]) .nil (.nil rest)
      simpa [bind, Except.bind, mergeParts] using hrest
    | @cons map old maps written hholds hstores =>
      cases hgrows with
      | cons hhead htail =>
        have hwritten : (mirrored ++ old :: written)[done.length]? = some old := by
          simp [← hdone]
        have hmap : (done ++ map :: maps)[done.length]? = some map := by simp
        rw [syncParts, syncPart_eq hmap hwritten hholds hhead]
        have hrest := ih (done ++ [updatePartFields map part]) maps (mirrored ++ [part])
          written (by simp [hdone]) hstores htail
        simpa [bind, Except.bind, mergeParts, ← hdone] using hrest

/-- A writer's entry is in the doc and stores the parts of its mirror. -/
structure Writes (doc : SessionDoc) (writer : SegmentWriter) (entry : EntryMap) : Prop where
  present : doc.messages[writer.entryIndex]? = some entry
  stores : StoresParts entry.parts writer.written

variable {doc : SessionDoc} {writer : SegmentWriter} {entry : EntryMap}
  {folded : List MessagePart}

theorem writes_begin (doc : SessionDoc) (entryId deviceId : String) (createdAt : Int) :
    Writes (begin doc entryId deviceId createdAt).1 (begin doc entryId deviceId createdAt).2
      { id := entryId, role := .assistant, createdAt, deviceId, status := some .streaming,
        continuationOf := none, parts := [] } := by
  refine ⟨?_, .nil⟩
  simp [begin, SessionDoc.pushMessage]

theorem setEntry_getElem? (hentry : doc.messages[writer.entryIndex]? = some entry)
    (new : EntryMap) : (setEntry doc writer new).messages[writer.entryIndex]? = some new := by
  obtain ⟨hindex, -⟩ := List.getElem?_eq_some_iff.mp hentry
  simp [setEntry, hindex]

variable (hwrites : Writes doc writer entry) (hgrows : PartsGrow writer.written folded)
include hwrites hgrows

theorem sync_eq : sync doc writer folded =
      .ok (setEntry doc writer { entry with parts := mergeParts entry.parts folded },
        { writer with written := folded }) := by
  have hparts : syncParts entry.parts writer.written 0 folded =
      .ok (mergeParts entry.parts folded, folded) :=
    syncParts_eq [] entry.parts [] writer.written folded rfl hwrites.stores hgrows
  simp [sync, entryMap, hwrites.present, hparts, bind, Except.bind, pure, Except.pure]

theorem finish_eq (status : MessageStatus) : finish doc writer folded status =
      .ok (setEntry doc writer
        { entry with parts := mergeParts entry.parts folded, status := some status }) := by
  have hmerged := setEntry_getElem? hwrites.present
    { entry with parts := mergeParts entry.parts folded }
  simp only [finish, sync_eq hwrites hgrows, bind, Except.bind, entryMap, hmerged, pure,
    Except.pure]
  simp [setEntry]

theorem Writes.sync :
    Writes (setEntry doc writer { entry with parts := mergeParts entry.parts folded })
      { writer with written := folded }
      { entry with parts := mergeParts entry.parts folded } :=
  ⟨setEntry_getElem? hwrites.present _, hwrites.stores.merge hgrows⟩

end SegmentWriter

end Keel
