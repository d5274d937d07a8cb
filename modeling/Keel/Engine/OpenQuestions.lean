import Keel.Engine.RunFidelity

/-! # Questions of a segment

A question is open while its input part is unresolved. The fold opens one when it is requested and
closes it when it is resolved, and nothing else touches it. An entry the run has given up stores an
unresolved question exactly when the segment it was finished with had one.
-/

namespace Keel

open List Option

section Fold

/-- The requests of the unresolved input parts. -/
def openRequests (parts : List MessagePart) : List String :=
  parts.filterMap fun
    | .input _ requestId _ false => some requestId
    | _ => none

@[simp] theorem openRequests_nil : openRequests [] = [] := rfl

@[simp] theorem openRequests_append (first second : List MessagePart) :
    openRequests (first ++ second) = openRequests first ++ openRequests second :=
  filterMap_append

theorem openRequests_cons (part : MessagePart) (parts : List MessagePart) :
    openRequests (part :: parts) = openRequests [part] ++ openRequests parts :=
  openRequests_append [part] parts

theorem openRequests_map {change : MessagePart → MessagePart}
    (hchange : ∀ part, openRequests [change part] = openRequests [part])
    (parts : List MessagePart) : openRequests (parts.map change) = openRequests parts := by
  induction parts with
  | nil => rfl
  | cons part rest ih =>
    rw [map_cons, openRequests_cons, hchange, ih, ← openRequests_cons]

theorem openRequests_refreshOrPush {refresh : MessagePart → Option MessagePart}
    {fresh : MessagePart} (hfresh : openRequests [fresh] = [])
    (hrefresh : ∀ old new, refresh old = some new → openRequests [new] = openRequests [old])
    (out : List MessagePart) :
    openRequests (refreshOrPush refresh fresh out) = openRequests out := by
  have hlookmap : openRequests (out.lookmap refresh) = openRequests out := by
    induction out with
    | nil => rfl
    | cons part rest ih =>
      rw [lookmap_cons]
      cases hpart : refresh part with
      | none =>
        simp only
        rw [openRequests_cons, ih, ← openRequests_cons]
      | some new =>
        simp only
        rw [openRequests_cons, hrefresh part new hpart, ← openRequests_cons]
  rw [refreshOrPush]
  split
  · exact hlookmap
  · rw [openRequests_append, hfresh, append_nil]

theorem openRequests_pushText (out : List MessagePart) (text : String) :
    openRequests (pushText out text) = openRequests out := by
  rw [pushText]
  split
  next id tail hlast =>
    obtain ⟨init, rfl⟩ := getLast?_eq_some_iff.mp hlast
    rw [dropLast_concat, openRequests_append, openRequests_append]
    rfl
  · rw [openRequests_append]
    exact append_nil _

theorem openRequests_resolveInput (requestId : String) (parts : List MessagePart) :
    openRequests (parts.map (MessagePart.resolveInput requestId)) =
      (openRequests parts).filter fun other => other ≠ requestId := by
  induction parts with
  | nil => rfl
  | cons part rest ih =>
    rw [map_cons, openRequests_cons, ih, openRequests_cons part rest, filter_append]
    congr 1
    cases part with
    | input id other questions resolved =>
      by_cases hsame : other = requestId <;> cases resolved <;>
        simp [MessagePart.resolveInput, openRequests, hsame]
    | _ => rfl

theorem openRequests_settleInput (parts : List MessagePart) :
    openRequests (parts.map MessagePart.settleInput) = [] := by
  induction parts with
  | nil => rfl
  | cons part rest ih =>
    rw [map_cons, openRequests_cons, ih, append_nil]
    cases part <;> rfl

variable (out : List MessagePart)
include out

theorem openRequests_textDelta [LineDiff] (text : String) :
    openRequests (foldEventIntoParts out (.textDelta text)) = openRequests out :=
  openRequests_pushText out text

theorem openRequests_toolCall [LineDiff] (id : String) (call : ToolCall) :
    openRequests (foldEventIntoParts out (.toolCall id call)) = openRequests out := by
  refine openRequests_refreshOrPush rfl (fun old new hnew => ?_) out
  cases old with
  | tool fields =>
    simp only [MessagePart.refreshCall] at hnew
    split at hnew
    · cases hnew
      rfl
    · cases hnew
  | _ => cases hnew

theorem openRequests_toolResult [LineDiff] (id : String) (isError : Bool) (output : Option String)
    (diff : Option ToolDiff) :
    openRequests (foldEventIntoParts out (.toolResult id isError output diff)) =
      openRequests out := by
  refine openRequests_map (fun part => ?_) out
  cases part with
  | tool fields =>
    simp only [MessagePart.applyResult]
    split <;> rfl
  | _ => rfl

theorem openRequests_inputRequested [LineDiff] (requestId : String)
    (questions : List UserInputQuestion) :
    openRequests (foldEventIntoParts out (.inputRequested requestId questions)) =
      if out.any fun part => part.id == "in-" ++ requestId then openRequests out
      else openRequests out ++ [requestId] := by
  simp only [foldEventIntoParts]
  split
  · rfl
  · rw [openRequests_append]; rfl

theorem openRequests_inputResolved [LineDiff] (requestId : String) :
    openRequests (foldEventIntoParts out (.inputResolved requestId)) =
      (openRequests out).filter fun other => other ≠ requestId :=
  openRequests_resolveInput requestId out

end Fold

section Stored

/-- A stored input part says that it is resolved. -/
def PartMap.Settled (map : PartMap) : Prop := map.kind = some "input" → map.resolved = some true

theorem settled_iff {map : PartMap} {part : MessagePart} (hholds : Holds map (renderPart part)) :
    map.Settled ↔ openRequests [part] = [] := by
  have hkind := hholds.kind
  have hresolved := congrArg PartMap.resolved hholds.absorbed
  cases part with
  | input id requestId questions resolved =>
    simp only [renderPart, toDocPart, updatePartFields, some_or] at hkind hresolved
    cases resolved <;> simp [PartMap.Settled, hkind, ← hresolved, openRequests]
  | _ =>
    simp only [renderPart, toDocPart] at hkind
    simp [PartMap.Settled, hkind, openRequests]

/-- A stored segment has an unresolved question exactly when its parts have one. -/
theorem storedSettled_iff {maps : List PartMap} {parts : List MessagePart}
    (hstores : StoresParts maps (renderParts parts)) :
    (∀ map ∈ maps, map.Settled) ↔ openRequests parts = [] := by
  have hpairs := forall₂_map_right_iff.mp hstores
  induction hpairs with
  | nil => simp
  | @cons map part maps parts hhead htail ih =>
    have hrest := forall₂_map_right_iff.mpr htail
    rw [forall_mem_cons, openRequests_cons, append_eq_nil_iff]
    exact and_congr (settled_iff hhead) (ih hrest)

namespace Transcript

/-- The questions of every entry that was begun behind the first `since` ones and given up are
resolved. -/
def Answered (since : Nat) (transcript : Transcript) : Prop :=
  ∀ index ∈ transcript.begun.drop since,
    (∀ writer ∈ transcript.writer, writer.entryIndex ≠ index) →
      ∀ entry ∈ transcript.doc.messages[index]?, ∀ map ∈ entry.parts, map.Settled

/-- The questions of every entry that was begun behind the first `since` ones are resolved. -/
def Resolved (since : Nat) (transcript : Transcript) : Prop :=
  ∀ index ∈ transcript.begun.drop since,
    ∀ entry ∈ transcript.doc.messages[index]?, ∀ map ∈ entry.parts, map.Settled

variable {since : Nat} {transcript : Transcript} {writer : SegmentWriter}

theorem answered_iff_resolved (hwriter : transcript.writer = none) :
    Answered since transcript ↔ Resolved since transcript := by
  simp [Answered, Resolved, hwriter]

theorem finishSegment_writer (transcript : Transcript) (entryId deviceId : String)
    (startedAt : Int) (folded : List MessagePart) (status : MessageStatus) :
    (transcript.finishSegment entryId deviceId startedAt folded status).writer = none := by
  unfold finishSegment
  split
  next hempty => exact hempty.1
  · generalize transcript.ensureWriter entryId deviceId startedAt = ready
    simp only
    split <;> rfl

theorem answered_append (hbounded : ∀ index ∈ transcript.begun,
    index < transcript.doc.messages.length) (entry : EntryMap) :
    Answered since { transcript with
      doc.messages := transcript.doc.messages ++ [entry] } ↔ Answered since transcript := by
  refine forall₂_congr fun index hindex => ?_
  have hlt := hbounded index (mem_of_mem_drop hindex)
  show (_ → ∀ stored ∈ (transcript.doc.messages ++ [entry])[index]?, _) ↔ _
  rw [getElem?_append_left hlt]

theorem ensureWriter_writer (transcript : Transcript) (entryId deviceId : String)
    (startedAt : Int) :
    (transcript.ensureWriter entryId deviceId startedAt).1.writer =
      some (transcript.ensureWriter entryId deviceId startedAt).2 := by
  unfold ensureWriter
  cases hwriter : transcript.writer with
  | some writer => exact hwriter
  | none => rfl

theorem answered_ensureWriter (hbounded : ∀ index ∈ transcript.begun,
    index < transcript.doc.messages.length) (hsince : since ≤ transcript.begun.length)
    (entryId deviceId : String) (startedAt : Int) :
    Answered since (transcript.ensureWriter entryId deviceId startedAt).1 ↔
      Answered since transcript := by
  unfold ensureWriter
  cases hwriter : transcript.writer with
  | some writer => rfl
  | none =>
    simp only [Answered, SegmentWriter.begin, SessionDoc.pushMessage, hwriter]
    rw [drop_append_of_le_length hsince]
    have hold : ∀ index ∈ transcript.begun.drop since,
        index < transcript.doc.messages.length := fun index hindex =>
      hbounded index (mem_of_mem_drop hindex)
    constructor
    · intro hanswered index hindex _ entry hentry
      have hlt := hold index hindex
      refine hanswered index (mem_append_left _ hindex) ?_ entry ?_
      · rintro _ ⟨⟩
        exact hlt.ne'
      · rwa [getElem?_append_left hlt]
    · intro hanswered index hindex hother entry hentry
      rcases mem_append.mp hindex with hin | hnew
      · rw [getElem?_append_left (hold index hin)] at hentry
        exact hanswered index hin (by rintro _ ⟨⟩) entry hentry
      · exact absurd (mem_singleton.mp hnew).symm (hother _ rfl)

theorem answered_setEntry (hwriter : transcript.writer = some writer) (next : SegmentWriter)
    (hnext : next.entryIndex = writer.entryIndex) (entry : EntryMap) :
    Answered since { transcript with
      doc := SegmentWriter.setEntry transcript.doc writer entry, writer := some next } ↔
      Answered since transcript := by
  refine forall₂_congr fun index hindex => ?_
  have hsame : (∀ other ∈ some next, other.entryIndex ≠ index) ↔
      ∀ other ∈ transcript.writer, other.entryIndex ≠ index := by
    rw [hwriter]
    simp [hnext]
  refine imp_congr_ctx hsame fun hother => ?_
  have hne : writer.entryIndex ≠ index := hother writer hwriter
  show (∀ stored ∈ (transcript.doc.messages.set writer.entryIndex entry)[index]?, _) ↔ _
  rw [getElem?_set_ne hne]

theorem answered_giveUp (hwriter : transcript.writer = some writer)
    (hbegun : writer.entryIndex ∈ transcript.begun.drop since) {entry : EntryMap}
    (hentry : transcript.doc.messages[writer.entryIndex]? = some entry) :
    Answered since { transcript with writer := none } ↔
      Answered since transcript ∧ ∀ map ∈ entry.parts, map.Settled := by
  constructor
  · intro hanswered
    exact ⟨fun index hindex _ => hanswered index hindex nofun,
      hanswered writer.entryIndex hbegun nofun entry hentry⟩
  · rintro ⟨hanswered, hsettled⟩ index hindex - stored hstored
    by_cases hsame : writer.entryIndex = index
    · subst hsame
      obtain rfl := mem_unique hentry hstored
      exact hsettled
    · refine hanswered index hindex (fun other hother => ?_) stored hstored
      obtain rfl := mem_unique hwriter hother
      exact hsame

variable {heard seenTools : List String} {pages : List (Nat × List MessagePart)}
  {current : List MessagePart}

section
variable (hrecorded : Recorded transcript heard seenTools pages current)
include hrecorded

theorem answered_syncSegment (hsince : since ≤ transcript.begun.length) (entryId deviceId : String)
    (startedAt : Int) : Answered since (transcript.syncSegment entryId deviceId startedAt current) ↔
      Answered since transcript := by
  rw [← answered_ensureWriter hrecorded.bounded hsince entryId deviceId startedAt]
  unfold syncSegment
  split
  · exact (answered_ensureWriter hrecorded.bounded hsince entryId deviceId startedAt).symm
  · have hready := ensureWriter_writer transcript entryId deviceId startedAt
    obtain ⟨entry, hopened⟩ := hrecorded.open entryId deviceId startedAt
    generalize transcript.ensureWriter entryId deviceId startedAt = ready at hready hopened ⊢
    obtain ⟨opened, writer⟩ := ready
    simp only at hready hopened ⊢
    simp only [SegmentWriter.sync_eq hopened.writes hopened.grows_render]
    exact answered_setEntry hready { writer with written := renderParts current } rfl _

theorem answered_finishSegment (hsince : since ≤ pages.length) (entryId deviceId : String)
    (startedAt : Int) (status : MessageStatus) :
    Answered since (transcript.finishSegment entryId deviceId startedAt current status) ↔
      Answered since transcript ∧ openRequests current = [] := by
  unfold finishSegment
  split
  next hempty => simp [hempty.2]
  next hbusy =>
    have hlength : since ≤ transcript.begun.length := by
      rw [hrecorded.begun, length_append, length_map]
      omega
    rw [← answered_ensureWriter hrecorded.bounded hlength entryId deviceId startedAt]
    have hready := ensureWriter_writer transcript entryId deviceId startedAt
    obtain ⟨entry, hopened⟩ := hrecorded.open entryId deviceId startedAt
    generalize transcript.ensureWriter entryId deviceId startedAt = ready at hready hopened ⊢
    obtain ⟨opened, writer⟩ := ready
    simp only at hready hopened ⊢
    simp only [SegmentWriter.finish_eq hopened.writes hopened.grows_render]
    have hmerged := hopened.merge (hrecorded.current_ne_nil hbusy) hrecorded.bare (some status)
    let stored : EntryMap :=
      { entry with parts := mergeParts entry.parts (renderParts current), status := some status }
    let synced : Transcript := { opened with
      doc := SegmentWriter.setEntry opened.doc writer stored, writer := some writer }
    have hbegun : writer.entryIndex ∈ synced.begun.drop since := by
      show writer.entryIndex ∈ opened.begun.drop since
      rw [hopened.begun, drop_append_of_le_length (by rwa [length_map])]
      exact mem_append_right _ mem_cons_self
    have hwriter : synced.writer = some writer := rfl
    have hgiven := answered_giveUp hwriter hbegun
      (SegmentWriter.setEntry_getElem? hopened.writes.present stored)
    rw [← storedSettled_iff hmerged.stores, ← answered_setEntry hready writer rfl stored]
    exact hgiven

end

/-- There are entries begun behind the first `since`, or none is open. -/
def Room (since : Nat) (transcript : Transcript) : Prop :=
  since + transcript.writer.toList.length ≤ transcript.begun.length

variable (hroom : Room since transcript)
include hroom

theorem Room.le_pages (hrecorded : Recorded transcript heard seenTools pages current) :
    since ≤ pages.length := by
  rw [Room, hrecorded.begun, length_append, length_map, length_map] at hroom
  omega

theorem Room.ensureWriter (entryId deviceId : String) (startedAt : Int) :
    Room since (transcript.ensureWriter entryId deviceId startedAt).1 := by
  unfold Room at *
  unfold Transcript.ensureWriter
  cases hwriter : transcript.writer with
  | some writer | none => simpa [hwriter] using hroom

theorem Room.syncSegment (entryId deviceId : String) (startedAt : Int) (folded : List MessagePart) :
    Room since (transcript.syncSegment entryId deviceId startedAt folded) := by
  unfold Transcript.syncSegment
  split
  · exact hroom
  · have hopened := hroom.ensureWriter entryId deviceId startedAt
    have hready := ensureWriter_writer transcript entryId deviceId startedAt
    generalize transcript.ensureWriter entryId deviceId startedAt = ready at hopened hready ⊢
    unfold Room at *
    simp only at hready ⊢
    rw [hready] at hopened
    split
    · exact hopened
    · rw [hready]; exact hopened

theorem Room.finishSegment (entryId deviceId : String) (startedAt : Int) (folded : List MessagePart)
    (status : MessageStatus) :
    Room since (transcript.finishSegment entryId deviceId startedAt folded status) := by
  unfold Transcript.finishSegment
  split
  · exact hroom
  · have hopened := hroom.ensureWriter entryId deviceId startedAt
    generalize transcript.ensureWriter entryId deviceId startedAt = ready at hopened ⊢
    unfold Room at *
    simp only
    split <;> exact (Nat.le_add_right _ _).trans hopened

end Transcript

end Stored

end Keel
