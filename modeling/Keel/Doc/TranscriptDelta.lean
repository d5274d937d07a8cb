import Keel.Doc.Schema
import Keel.Foundation.Splice

/-! # Delta frames of a watched transcript

A frame carries a whole transcript or what changed since the last one: removed
ids, entries to put behind an anchor, and text to append to one part. An entry
whose content and predecessor id did not change is not mentioned at all. The
consumer checks the number of entries and the length of every text it appends
to, and reports a desync when a check fails.
-/

namespace Keel

/-- An inserted or replaced entry, behind `after` or at the head. -/
structure TranscriptUpsert where
  after : Option String
  entry : SessionMessageEntry

/-- Text for the tail of one part; `len` is the part's length in bytes after the
append. -/
structure TextAppend where
  entry : String
  part : String
  text : String
  len : Nat

inductive TranscriptFrame where
  | reset (entries : List SessionMessageEntry)
  | delta (upsert : List TranscriptUpsert) (append : List TextAppend) (remove : List String)
      (count : Nat)

/-- The loop of `tryTextAppend` over the paired parts. -/
def tailAppend (entryId : String) :
    Option TextAppend → List (MessagePart × MessagePart) → Option TextAppend
  | append, [] => append
  | append, (prev, next) :: rest =>
    if prev = next then tailAppend entryId append rest
    else
      match prev, next with
      | .text prevId prevText, .text nextId nextText =>
        if prevId ≠ nextId ∨ Text.startsWith nextText prevText = false ∨ append.isSome then none
        else
          tailAppend entryId (some
            { entry := entryId, part := nextId
              text := Text.dropChars prevText.toList.length nextText
              len := nextText.utf8ByteSize }) rest
      | _, _ => none

/-- The change of an entry as text appended to exactly one text part. -/
def tryTextAppend (prev next : SessionMessageEntry) : Option TextAppend :=
  if prev.id ≠ next.id ∨ prev.role ≠ next.role ∨ prev.createdAt ≠ next.createdAt ∨
      prev.deviceId ≠ next.deviceId ∨ prev.status ≠ next.status ∨
      prev.continuationOf ≠ next.continuationOf ∨ prev.parts.length ≠ next.parts.length then none
  else tailAppend next.id none (prev.parts.zip next.parts)

/-- The index built over the previous transcript; a later entry of an id
replaces an earlier one. -/
def prevById (prev : List SessionMessageEntry) (id : String) : Option (Nat × SessionMessageEntry) :=
  (prev.zipIdx.reverse.find? fun (entry, _) => entry.id == id).map Prod.swap

/-- The id of the entry before an index. -/
def idBefore (entries : List SessionMessageEntry) : Nat → Option String
  | 0 => none
  | index + 1 => entries[index]?.map fun entry => entry.id

inductive EntryChange where
  | skip
  | append (tail : TextAppend)
  | upsert (placed : TranscriptUpsert)

namespace EntryChange

def append? : EntryChange → Option TextAppend
  | .append tail => some tail
  | _ => none

def upsert? : EntryChange → Option TranscriptUpsert
  | .upsert placed => some placed
  | _ => none

end EntryChange

/-- What the diff says about one entry of the new transcript that stands behind
`after`. -/
def entryChange (prev : List SessionMessageEntry) (after : Option String)
    (entry : SessionMessageEntry) : EntryChange :=
  match prevById prev entry.id with
  | some (prevIndex, prevEntry) =>
    let prevAfter := idBefore prev prevIndex
    if prevEntry = entry ∧ prevAfter = after then .skip
    else
      match if prevAfter = after then tryTextAppend prevEntry entry else none with
      | some tail => .append tail
      | none => .upsert ⟨after, entry⟩
  | none => .upsert ⟨after, entry⟩

/-- The loop of the diff; `after` is the id of the entry just visited. -/
def entryChanges (prev : List SessionMessageEntry) :
    Option String → List SessionMessageEntry → List EntryChange
  | _, [] => []
  | after, entry :: rest =>
    entryChange prev after entry :: entryChanges prev (some entry.id) rest

/-- A delta that carries most of the transcript is sent as a reset. -/
def prefersReset (upserts : List TranscriptUpsert) (next : List SessionMessageEntry) : Bool :=
  decide (upserts.length * 2 ≥ max next.length 1) && decide (next.length > 4)

def diffTranscript (prev next : List SessionMessageEntry) : TranscriptFrame :=
  let nextIds := next.map fun entry => entry.id
  let remove := (prev.filter fun entry => !nextIds.contains entry.id).map fun entry => entry.id
  let changes := entryChanges prev none next
  let upsert := changes.filterMap EntryChange.upsert?
  let append := changes.filterMap EntryChange.append?
  if prefersReset upsert next then .reset next
  else .delta upsert append remove next.length

/-- The message of a desync. -/
structure TranscriptDesync where
  message : String
deriving DecidableEq

def applyUpserts : List SessionMessageEntry → List TranscriptUpsert →
    Except TranscriptDesync (List SessionMessageEntry)
  | current, [] => .ok current
  | current, ⟨after, entry⟩ :: rest =>
    let current := current.eraseP fun other => other.id == entry.id
    match after with
    | none => applyUpserts (entry :: current) rest
    | some anchor =>
      match current.findIdx? fun other => other.id == anchor with
      | some index => applyUpserts (current.insertIdx (index + 1) entry) rest
      | none => .error ⟨"missing anchor " ++ anchor⟩

/-- Push text to the first text part of an id; the new length comes with it. -/
def pushTail (part text : String) : List MessagePart → Option (List MessagePart × Nat)
  | [] => none
  | .text id tail :: rest =>
    if id = part then some (.text id (tail ++ text) :: rest, (tail ++ text).utf8ByteSize)
    else (pushTail part text rest).map fun (parts, len) => (.text id tail :: parts, len)
  | other :: rest => (pushTail part text rest).map fun (parts, len) => (other :: parts, len)

def applyAppend (current : List SessionMessageEntry) (append : TextAppend) :
    Except TranscriptDesync (List SessionMessageEntry) :=
  match current.find? fun entry => entry.id == append.entry with
  | none => .error ⟨"missing append entry " ++ append.entry⟩
  | some target =>
    match pushTail append.part append.text target.parts with
    | none => .error ⟨"missing append part " ++ append.part⟩
    | some (parts, len) =>
      if len ≠ append.len then
        .error ⟨"append length mismatch on " ++ append.entry ++ "#" ++ append.part ++ ": have " ++
          toString len ++ ", expected " ++ toString append.len⟩
      else
        .ok (current.lookmap fun entry =>
          if entry.id = append.entry then some { entry with parts } else none)

def applyAppends : List SessionMessageEntry → List TextAppend →
    Except TranscriptDesync (List SessionMessageEntry)
  | current, [] => .ok current
  | current, append :: rest => do
      let current ← applyAppend current append
      applyAppends current rest

def applyTranscriptFrame (current : List SessionMessageEntry) :
    TranscriptFrame → Except TranscriptDesync (List SessionMessageEntry)
  | .reset entries => .ok entries
  | .delta upsert append remove count => do
      let current :=
        if remove.isEmpty then current
        else current.filter fun entry => !remove.contains entry.id
      let current ← applyUpserts current upsert
      let current ← applyAppends current append
      if current.length ≠ count then
        .error ⟨"count mismatch: have " ++ toString current.length ++ ", expected " ++
          toString count⟩
      else .ok current

end Keel
