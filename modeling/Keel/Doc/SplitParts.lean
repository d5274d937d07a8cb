import Keel.Doc.Schema
import Keel.Foundation.Utf8Cut
import Mathlib.Algebra.GroupWithZero.Nat

/-! # Splitting and joining an oversized entry

A parts list that is too large for one entry is written as a root entry and
continuation entries. Parts are never torn except for texts, which are cut at
character boundaries. Rendering joins the continuations onto their root.
-/

namespace Keel

open List Option Function Utf8

/-- Byte lengths of structured values as JSON. -/
class JsonSize where
  call : ToolCall → Nat
  diff : ToolDiff → Nat
  diffStats : List ToolDiffStat → Nat
  questions : List UserInputQuestion → Nat
  decision : DecisionEvent → Nat

/-- `str::len`. -/
def strLen (text : String) : Nat := byteLength text.toList

/-- Max bytes for a single message entry before continuation splitting. -/
def msgInlineMax : Nat := 256 * 1024

def continuationId (root : String) (index : Nat) : String := root ++ "#c" ++ toString index

section Splitting

variable [JsonSize]

def MessagePart.byteLen : MessagePart → Nat
  | .text _ body => strLen body
  | .tool fields => JsonSize.call fields.call + fields.output.elim 0 strLen +
      fields.diff.elim 0 JsonSize.diff + fields.diffStats.elim 0 JsonSize.diffStats
  | .input _ _ questions _ => JsonSize.questions questions
  | .error _ message => strLen message
  | .decision _ event => JsonSize.decision event

/-- The chunks that are full, the one being filled, and its bytes. -/
structure Chunks where
  closed : List (List MessagePart)
  last : List MessagePart
  currentBytes : Nat

def Chunks.pushPart (chunks : Chunks) (part : MessagePart) : Chunks :=
  if 0 < chunks.currentBytes ∧ msgInlineMax < chunks.currentBytes + part.byteLen then
    { closed := chunks.closed ++ [chunks.last], last := [part], currentBytes := part.byteLen }
  else
    { chunks with
      last := chunks.last ++ [part], currentBytes := chunks.currentBytes + part.byteLen }

/-- Where the piece of an oversized text that begins at an offset ends. -/
def pieceEnd (text : List Char) (start : Nat) : Nat :=
  let stop := backOff text (min (start + msgInlineMax) (byteLength text))
  if stop ≤ start then byteLength text else stop

def pieceId (id : String) (piece : Nat) : String :=
  if piece = 0 then id else id ++ "~" ++ toString piece

omit [JsonSize] in
theorem lt_pieceEnd {text : List Char} {start : Nat} (hstart : start < byteLength text) :
    start < pieceEnd text start := by
  unfold pieceEnd
  dsimp only
  split <;> omega

/-- The pieces of an oversized text from an offset on. A cut inside a character
would panic. -/
def textPieces (id : String) (text : List Char) (start piece : Nat) : Option (List MessagePart) :=
  if _hstart : start < byteLength text then do
    let sub ← slice text start (pieceEnd text start)
    let rest ← textPieces id text (pieceEnd text start) (piece + 1)
    return .text (pieceId id piece) (String.ofList sub) :: rest
  else some []
termination_by byteLength text - start
decreasing_by
  have := lt_pieceEnd _hstart
  omega

def splitPart (chunks : Chunks) : MessagePart → Option Chunks
  | .text id text =>
    if msgInlineMax < strLen text then
      (textPieces id text.toList 0 0).map fun pieces => pieces.foldl Chunks.pushPart chunks
    else some (chunks.pushPart (.text id text))
  | part => some (chunks.pushPart part)

def splitParts (parts : List MessagePart) : Option (List (List MessagePart)) :=
  (parts.foldlM splitPart { closed := [], last := [], currentBytes := 0 }).map
    fun chunks => chunks.closed ++ [chunks.last]

/-! ## The pieces of a text -/

/-- What an oversized text is replaced by: nonempty pieces that fit, under
numbered ids, whose texts together are the text. -/
structure TextPieces (id : String) (text : List Char) (piece : Nat) (pieces : List MessagePart) :
    Prop where
  texts : ∃ texts : List (List Char), texts.flatten = text ∧
    (∀ sub ∈ texts, sub ≠ [] ∧ byteLength sub ≤ msgInlineMax) ∧
    pieces = texts.mapIdx fun index sub => .text (pieceId id (piece + index)) (String.ofList sub)

omit [JsonSize] in
theorem textPieces_spec (id : String) (before rest : List Char) (piece : Nat) :
    ∃ pieces, textPieces id (before ++ rest) (byteLength before) piece = some pieces ∧
      TextPieces id rest piece pieces := by
  induction hlength : rest.length using Nat.strong_induction_on generalizing before rest piece with
  | _ length ih =>
    subst hlength
    rw [textPieces]
    by_cases hrest : rest = []
    · subst hrest
      rw [dif_neg (by simp)]
      exact ⟨[], rfl, ⟨[], rfl, by simp, rfl⟩⟩
    · obtain ⟨sub, others, rfl, hsub, hfits, hstop⟩ :=
        backOff_append before (show 4 ≤ msgInlineMax by decide) hrest
      have hpos : 0 < byteLength sub := by
        obtain ⟨c, tail, rfl⟩ := exists_cons_of_ne_nil hsub
        exact byteLength_cons_pos c tail
      have hend : pieceEnd (before ++ (sub ++ others)) (byteLength before) =
          byteLength before + byteLength sub := by
        rw [pieceEnd, hstop, if_neg (by omega)]
      have hless : others.length < (sub ++ others).length := by
        rw [length_append]
        have := length_pos_iff.mpr hsub
        omega
      obtain ⟨pieces, hpieces, ⟨texts, hflatten, hall, hmap⟩⟩ :=
        ih others.length hless (before ++ sub) others (piece + 1) rfl
      rw [append_assoc, byteLength_append] at hpieces
      rw [dif_pos (by simp only [byteLength_append]; omega), hend, slice_append,
        hpieces]
      refine ⟨_, rfl, ⟨sub :: texts, by rw [flatten_cons, hflatten], ?_, ?_⟩⟩
      · exact forall_mem_cons.mpr ⟨⟨hsub, hfits⟩, hall⟩
      · rw [hmap, mapIdx_cons]
        simp only [Nat.add_zero, Nat.add_assoc, Nat.add_comm 1]

/-! ## The chunks -/

def chunkBytes (chunk : List MessagePart) : Nat := (chunk.map MessagePart.byteLen).sum

/-- A part that cannot be cut and is too large for any chunk. -/
def MessagePart.Oversized (part : MessagePart) : Prop :=
  (∀ id body, part ≠ .text id body) ∧ msgInlineMax < part.byteLen

/-- The chunk is within the limit, or its only part with any bytes is oversized. -/
def ChunkFits (chunk : List MessagePart) : Prop :=
  chunkBytes chunk ≤ msgInlineMax ∨ ∃ empties part, chunk = empties ++ [part] ∧
    (∀ other ∈ empties, other.byteLen = 0) ∧ part.Oversized

/-- The parts pushed so far, in order, in chunks that fit. -/
structure Chunks.Sound (chunks : Chunks) (pushed : List MessagePart) : Prop where
  bytes : chunks.currentBytes = chunkBytes chunks.last
  closed : ∀ chunk ∈ chunks.closed, ChunkFits chunk
  last : ChunkFits chunks.last
  flatten : chunks.closed.flatten ++ chunks.last = pushed

theorem chunkBytes_append_singleton (chunk : List MessagePart) (part : MessagePart) :
    chunkBytes (chunk ++ [part]) = chunkBytes chunk + part.byteLen := by
  simp [chunkBytes]

theorem chunkFits_append (empties : List MessagePart) {part : MessagePart}
    (hpart : part.byteLen ≤ msgInlineMax ∨ part.Oversized) (hempties : chunkBytes empties = 0) :
    ChunkFits (empties ++ [part]) := by
  obtain hpart | hpart := hpart
  · left
    rw [chunkBytes_append_singleton, hempties]
    omega
  · right
    refine ⟨empties, part, rfl, fun other hother => ?_, hpart⟩
    rw [chunkBytes, List.sum_eq_zero_iff_forall_eq_nat] at hempties
    exact hempties _ (List.mem_map_of_mem hother)

variable {chunks : Chunks} {pushed : List MessagePart}

/-- Pushing a part that fits, or that no chunk can hold, keeps the chunks sound. -/
theorem Chunks.Sound.pushPart (hsound : chunks.Sound pushed) {part : MessagePart}
    (hpart : part.byteLen ≤ msgInlineMax ∨ part.Oversized) :
    (chunks.pushPart part).Sound (pushed ++ [part]) := by
  unfold Chunks.pushPart
  split
  next hfull =>
    refine ⟨by simp [chunkBytes], ?_, chunkFits_append [] hpart rfl, ?_⟩
    · rw [forall_mem_append, forall_mem_singleton]
      exact ⟨hsound.closed, hsound.last⟩
    · rw [← hsound.flatten]
      simp
  next hroom =>
    refine ⟨?_, hsound.closed, ?_, ?_⟩
    · rw [chunkBytes_append_singleton, hsound.bytes]
    · by_cases hempty : chunks.currentBytes = 0
      · exact chunkFits_append _ hpart (hsound.bytes ▸ hempty)
      · left
        rw [chunkBytes_append_singleton, ← hsound.bytes]
        have hle : ¬ msgInlineMax < chunks.currentBytes + part.byteLen :=
          fun hover => hroom ⟨by omega, hover⟩
        exact Nat.le_of_not_lt hle
    · rw [← hsound.flatten, append_assoc]

theorem Chunks.Sound.pushParts {parts : List MessagePart} (hsound : chunks.Sound pushed)
    (hparts : ∀ part ∈ parts, part.byteLen ≤ msgInlineMax ∨ part.Oversized) :
    (parts.foldl Chunks.pushPart chunks).Sound (pushed ++ parts) := by
  induction parts generalizing chunks pushed with
  | nil => simpa using hsound
  | cons part rest ih =>
    rw [forall_mem_cons] at hparts
    have hnext := ih (hsound.pushPart hparts.1) hparts.2
    rwa [append_assoc] at hnext

/-- What a part is replaced by: an oversized text by its pieces, any other part by itself. -/
def PartSplit (part : MessagePart) (group : List MessagePart) : Prop :=
  match part with
  | .text id body =>
    if msgInlineMax < strLen body then TextPieces id body.toList 0 group else group = [.text id body]
  | part => group = [part]

theorem TextPieces.small {id : String} {text : List Char} {piece : Nat} {pieces : List MessagePart}
    (hpieces : TextPieces id text piece pieces) :
    ∀ part ∈ pieces, part.byteLen ≤ msgInlineMax ∨ part.Oversized := by
  obtain ⟨texts, -, hall, rfl⟩ := hpieces
  intro part hpart
  obtain ⟨index, hindex, rfl⟩ := mem_mapIdx.mp hpart
  left
  rw [MessagePart.byteLen, strLen, String.toList_ofList]
  exact (hall _ (getElem_mem hindex)).2

theorem splitPart_spec (hsound : chunks.Sound pushed)
    (part : MessagePart) : ∃ next group, splitPart chunks part = some next ∧
      PartSplit part group ∧ next.Sound (pushed ++ group) := by
  have hwhole (hsmall : part.byteLen ≤ msgInlineMax ∨ part.Oversized) :
      (chunks.pushPart part).Sound (pushed ++ [part]) := hsound.pushPart hsmall
  cases part with
  | text id body =>
    rw [splitPart]
    by_cases hlarge : msgInlineMax < strLen body
    · obtain ⟨pieces, hrun, hpieces⟩ := textPieces_spec id [] body.toList 0
      rw [if_pos hlarge]
      refine ⟨_, pieces, congrArg (Option.map _) hrun, ?_, hsound.pushParts hpieces.small⟩
      rwa [PartSplit, if_pos hlarge]
    · rw [if_neg hlarge]
      refine ⟨_, [.text id body], rfl, by rw [PartSplit, if_neg hlarge], hwhole (Or.inl ?_)⟩
      exact Nat.le_of_not_lt hlarge
  | _ =>
    refine ⟨_, _, rfl, rfl, hwhole ?_⟩
    exact (le_or_gt _ _).imp_right fun hlarge => ⟨by simp, hlarge⟩

/-- Splitting succeeds: its chunks fit, and together they hold the parts in order,
each replaced by its group. -/
theorem splitParts_spec (parts : List MessagePart) :
    ∃ chunks groups, splitParts parts = some chunks ∧ chunks ≠ [] ∧
      (∀ chunk ∈ chunks, ChunkFits chunk) ∧ List.Forall₂ PartSplit parts groups ∧
      chunks.flatten = groups.flatten := by
  suffices hrun : ∀ (parts pushed : List MessagePart) (chunks : Chunks), chunks.Sound pushed →
      ∃ next groups, parts.foldlM splitPart chunks = some next ∧
        List.Forall₂ PartSplit parts groups ∧ next.Sound (pushed ++ groups.flatten) by
    have hstart : Chunks.Sound { closed := [], last := [], currentBytes := 0 } [] :=
      ⟨rfl, by simp, Or.inl (Nat.zero_le _), rfl⟩
    obtain ⟨next, groups, hsplit, hgroups, hsound⟩ := hrun parts [] _ hstart
    refine ⟨next.closed ++ [next.last], groups, by rw [splitParts, hsplit]; rfl, by simp, ?_,
      hgroups, ?_⟩
    · rw [forall_mem_append, forall_mem_singleton]
      exact ⟨hsound.closed, hsound.last⟩
    · simpa using hsound.flatten
  intro parts
  induction parts with
  | nil =>
    intro pushed chunks hsound
    exact ⟨chunks, [], rfl, .nil, by simpa using hsound⟩
  | cons part rest ih =>
    intro pushed chunks hsound
    obtain ⟨next, group, hnext, hgroup, hnextSound⟩ := splitPart_spec hsound part
    obtain ⟨final, groups, hfinal, hgroups, hfinalSound⟩ := ih _ next hnextSound
    refine ⟨final, group :: groups, ?_, .cons hgroup hgroups, ?_⟩
    · rw [foldlM_cons, hnext]
      exact hfinal
    · rwa [flatten_cons, ← append_assoc]

end Splitting

/-- The joined entries so far, and where the roots among them are. -/
structure Joining where
  out : List SessionMessageEntry
  rootIndex : String → Option Nat

def extendParts (parts : List MessagePart) (entry : SessionMessageEntry) : SessionMessageEntry :=
  { entry with parts := entry.parts ++ parts }

/-- An orphan continuation surfaces as its own entry. -/
def Joining.push (joining : Joining) (entry : SessionMessageEntry) : Joining :=
  match entry.continuationOf with
  | some rootId =>
    match joining.rootIndex rootId with
    | some index => { joining with out := joining.out.modify index (extendParts entry.parts) }
    | none => { joining with out := joining.out ++ [entry] }
  | none =>
    { out := joining.out ++ [entry]
      rootIndex := update joining.rootIndex entry.id (some joining.out.length) }

def Joining.start : Joining := { out := [], rootIndex := fun _ => none }

def joinContinuationEntries (entries : List SessionMessageEntry) : List SessionMessageEntry :=
  if entries.any fun entry => entry.continuationOf.isSome then
    (entries.foldl Joining.push Joining.start).out
  else entries

/-! ## Joining -/

namespace Joining

@[simp] theorem start_rootIndex (id : String) : start.rootIndex id = none := rfl

/-- The roots are among the joined entries. -/
def Indexed (joining : Joining) : Prop :=
  ∀ id index, joining.rootIndex id = some index → index < joining.out.length

theorem Indexed.push {joining : Joining} (hindexed : joining.Indexed)
    (entry : SessionMessageEntry) : (joining.push entry).Indexed := by
  intro id index hindex
  unfold Joining.push at hindex ⊢
  cases hroot : entry.continuationOf with
  | some rootId =>
    simp only [hroot] at hindex ⊢
    cases hknown : joining.rootIndex rootId with
    | some found =>
      simp only [hknown, length_modify] at hindex ⊢
      exact hindexed id index hindex
    | none =>
      simp only [hknown, length_append, length_singleton] at hindex ⊢
      exact Nat.lt_succ_of_lt (hindexed id index hindex)
  | none =>
    simp only [hroot, length_append, length_singleton] at hindex ⊢
    by_cases hid : id = entry.id
    · subst hid
      rw [update_self] at hindex
      cases hindex
      exact Nat.lt_succ_self _
    · rw [update_of_ne hid] at hindex
      exact Nat.lt_succ_of_lt (hindexed id index hindex)

theorem Indexed.run {joining : Joining} (hindexed : joining.Indexed)
    (entries : List SessionMessageEntry) : (entries.foldl Joining.push joining).Indexed := by
  induction entries generalizing joining with
  | nil => exact hindexed
  | cons entry rest ih => exact ih (hindexed.push entry)

theorem push_of_none {entry : SessionMessageEntry} (hroot : entry.continuationOf = none)
    (joining : Joining) : joining.push entry =
      { out := joining.out ++ [entry]
        rootIndex := update joining.rootIndex entry.id (some joining.out.length) } := by
  rw [Joining.push, hroot]

theorem push_of_known {entry : SessionMessageEntry} {rootId : String} {index : Nat}
    {joining : Joining} (hroot : entry.continuationOf = some rootId)
    (hknown : joining.rootIndex rootId = some index) : joining.push entry =
      { joining with out := joining.out.modify index (extendParts entry.parts) } := by
  rw [Joining.push, hroot]
  simp only [hknown]

theorem push_of_orphan {entry : SessionMessageEntry} {rootId : String} {joining : Joining}
    (hroot : entry.continuationOf = some rootId) (horphan : joining.rootIndex rootId = none) :
    joining.push entry = { joining with out := joining.out ++ [entry] } := by
  rw [Joining.push, hroot]
  simp only [horphan]

theorem run_out_of_none {entries : List SessionMessageEntry}
    (hroots : ∀ entry ∈ entries, entry.continuationOf = none) (joining : Joining) :
    (entries.foldl Joining.push joining).out = joining.out ++ entries := by
  induction entries generalizing joining with
  | nil => simp
  | cons entry rest ih =>
    rw [forall_mem_cons] at hroots
    rw [foldl_cons, ih hroots.2, push_of_none hroots.1]
    simp

end Joining

theorem joinContinuationEntries_eq (entries : List SessionMessageEntry) :
    joinContinuationEntries entries = (entries.foldl Joining.push Joining.start).out := by
  unfold joinContinuationEntries
  split
  · rfl
  next hroots =>
    rw [Joining.run_out_of_none]
    · rfl
    · simpa using hroots

/-- Where an entry is once another one is inserted at a position. -/
def shifted (position index : Nat) : Nat := if index < position then index else index + 1

theorem exists_modify_insert (before after : List SessionMessageEntry) (index : Nat)
    (whole : SessionMessageEntry) (f : SessionMessageEntry → SessionMessageEntry) :
    ∃ before' after', before'.length = before.length ∧
      (before ++ whole :: after).modify (shifted before.length index) f =
        before' ++ whole :: after' ∧
      (before ++ after).modify index f = before' ++ after' := by
  induction before generalizing index with
  | nil =>
    refine ⟨[], after.modify index f, rfl, ?_, rfl⟩
    rw [shifted, if_neg (by simp)]
    rfl
  | cons head tail ih =>
    cases index with
    | zero =>
      refine ⟨f head :: tail, after, rfl, ?_, rfl⟩
      rw [shifted, if_pos (by simp)]
      rfl
    | succ index =>
      obtain ⟨before', after', hlength, hjoined, hapart⟩ := ih index
      refine ⟨head :: before', after', congrArg Nat.succ hlength, ?_, ?_⟩
      · have hshifted : shifted (head :: tail).length (index + 1) =
            shifted tail.length index + 1 := by
          simp only [shifted, length_cons]
          split <;> split <;> omega
        rw [hshifted]
        exact congrArg (List.cons head) hjoined
      · exact congrArg (List.cons head) hapart

/-- The joined entries with one entry more than those joined apart from it. -/
structure Aside (whole : SessionMessageEntry) (position : Nat) (joined apart : Joining) :
    Prop where
  out : ∃ before after, before.length = position ∧ joined.out = before ++ whole :: after ∧
    apart.out = before ++ after
  root : joined.rootIndex whole.id = some position
  others : ∀ id ≠ whole.id, joined.rootIndex id = (apart.rootIndex id).map (shifted position)

namespace Aside

variable {whole entry : SessionMessageEntry} {position : Nat} {joined apart : Joining}

theorem extend (haside : Aside whole position joined apart)
    (hroot : entry.continuationOf = some whole.id) :
    Aside (extendParts entry.parts whole) position (joined.push entry) apart := by
  obtain ⟨before, after, hlength, hjoined, hapart⟩ := haside.out
  rw [Joining.push_of_known hroot haside.root]
  refine ⟨⟨before, after, hlength, ?_, hapart⟩, haside.root, haside.others⟩
  dsimp only
  rw [hjoined, ← hlength, modify_eq_take_drop, take_left, drop_left]
  rfl

theorem push (haside : Aside whole position joined apart)
    (hother : entry.continuationOf ≠ some whole.id)
    (hid : entry.continuationOf = none → entry.id ≠ whole.id) :
    Aside whole position (joined.push entry) (apart.push entry) := by
  obtain ⟨before, after, hlength, hjoined, hapart⟩ := haside.out
  cases hroot : entry.continuationOf with
  | some rootId =>
    have hne : rootId ≠ whole.id := fun heq => hother (hroot.trans (congrArg some heq))
    have hindex := haside.others rootId hne
    cases hknown : apart.rootIndex rootId with
    | some index =>
      rw [hknown, map_some] at hindex
      rw [Joining.push_of_known hroot hindex, Joining.push_of_known hroot hknown]
      refine ⟨?_, haside.root, haside.others⟩
      dsimp only
      obtain ⟨before', after', hsame, hinserted, hplain⟩ :=
        exists_modify_insert before after index whole (extendParts entry.parts)
      rw [hjoined, hapart, ← hlength]
      exact ⟨before', after', hsame, hinserted, hplain⟩
    | none =>
      rw [hknown, map_none] at hindex
      rw [Joining.push_of_orphan hroot hindex, Joining.push_of_orphan hroot hknown]
      refine ⟨⟨before, after ++ [entry], hlength, ?_, ?_⟩, haside.root, haside.others⟩
      · simp [hjoined]
      · simp [hapart]
  | none =>
    rw [Joining.push_of_none hroot, Joining.push_of_none hroot]
    refine ⟨⟨before, after ++ [entry], hlength, by simp [hjoined], by simp [hapart]⟩, ?_, ?_⟩
    · dsimp only
      rw [update_of_ne (hid hroot).symm, haside.root]
    · intro id hne
      dsimp only
      by_cases hsame : id = entry.id
      · subst hsame
        rw [update_self, update_self, map_some, hjoined, hapart,
          shifted, if_neg (by simp [hlength])]
        simp
        omega
      · rw [update_of_ne hsame, update_of_ne hsame, haside.others id hne]

end Aside

def continues (rootId : String) (entry : SessionMessageEntry) : Bool :=
  entry.continuationOf = some rootId

/-- After the root, its continuations extend it and the other entries join as
they do without it. -/
theorem Aside.run {whole : SessionMessageEntry} {position : Nat} {joined apart : Joining}
    (haside : Aside whole position joined apart) {after : List SessionMessageEntry}
    (hids : ∀ entry ∈ after, entry.continuationOf = none → entry.id ≠ whole.id) :
    Aside
      (extendParts ((after.filter (continues whole.id)).flatMap SessionMessageEntry.parts) whole)
      position (after.foldl Joining.push joined)
      ((after.filter fun entry => !continues whole.id entry).foldl Joining.push apart) := by
  induction after generalizing whole joined apart with
  | nil =>
    simp only [filter_nil, flatMap_nil, foldl_nil, extendParts, append_nil]
    exact haside
  | cons entry rest ih =>
    rw [forall_mem_cons] at hids
    by_cases hroot : entry.continuationOf = some whole.id
    · have hmine : continues whole.id entry = true := decide_eq_true hroot
      have hrest := ih (haside.extend hroot) hids.2
      simp only [filter_cons, hmine, Bool.not_true, Bool.false_eq_true, if_true, if_false,
        flatMap_cons, foldl_cons]
      simpa only [extendParts, append_assoc] using hrest
    · have hother : continues whole.id entry = false := decide_eq_false hroot
      have hrest := ih (haside.push hroot hids.1) hids.2
      simpa only [filter_cons, hother, Bool.not_false, Bool.false_eq_true, if_true,
        if_false, foldl_cons] using hrest

/-- A split entry joins as the unsplit one would, between entries that join as
they do without it. -/
theorem joinContinuationEntries_split (before : List SessionMessageEntry)
    {after : List SessionMessageEntry} {root : SessionMessageEntry}
    (hroot : root.continuationOf = none)
    (hids : ∀ entry ∈ after, entry.continuationOf = none → entry.id ≠ root.id) :
    ∃ first last, joinContinuationEntries (before ++ root :: after) =
        first ++ extendParts
          ((after.filter (continues root.id)).flatMap SessionMessageEntry.parts) root :: last ∧
      joinContinuationEntries (before ++ after.filter fun entry => !continues root.id entry) =
        first ++ last ∧
      first.length = (joinContinuationEntries before).length := by
  have hindexed : (before.foldl Joining.push Joining.start).Indexed :=
    Joining.Indexed.run (fun id index hindex => by simp at hindex) before
  have haside : Aside root (before.foldl Joining.push Joining.start).out.length
      ((before.foldl Joining.push Joining.start).push root)
      (before.foldl Joining.push Joining.start) := by
    rw [Joining.push_of_none hroot]
    refine ⟨⟨_, [], rfl, rfl, (append_nil _).symm⟩, update_self _ _ _, ?_⟩
    intro id hne
    dsimp only
    rw [update_of_ne hne]
    cases hindex : (before.foldl Joining.push Joining.start).rootIndex id with
    | none => rfl
    | some index => rw [map_some, shifted, if_pos (hindexed id index hindex)]
  obtain ⟨first, last, hlength, hjoined, hapart⟩ := (haside.run hids).out
  rw [joinContinuationEntries_eq, joinContinuationEntries_eq, joinContinuationEntries_eq,
    foldl_append, foldl_append, foldl_cons]
  exact ⟨first, last, hjoined, hapart, hlength⟩

/-- Splitting a parts list succeeds, and its chunks fit. Written as a root and its
continuations, with any other entries around and among them, they join into the
one entry of the parts, each part replaced by its group, and the other entries
join as they do without it. -/
theorem split_join [JsonSize] (parts : List MessagePart) :
    ∃ chunks groups, splitParts parts = some chunks ∧ (∀ chunk ∈ chunks, ChunkFits chunk) ∧
      List.Forall₂ PartSplit parts groups ∧
      ∀ (before after : List SessionMessageEntry) (root : SessionMessageEntry),
        root.continuationOf = none →
        root.parts :: (after.filter (continues root.id)).map SessionMessageEntry.parts = chunks →
        (∀ entry ∈ after, entry.continuationOf = none → entry.id ≠ root.id) →
        ∃ first last, joinContinuationEntries (before ++ root :: after) =
            first ++ { root with parts := groups.flatten } :: last ∧
          joinContinuationEntries (before ++ after.filter fun entry => !continues root.id entry) =
            first ++ last ∧
          first.length = (joinContinuationEntries before).length := by
  obtain ⟨chunks, groups, hsplit, -, hfits, hgroups, hflatten⟩ := splitParts_spec parts
  refine ⟨chunks, groups, hsplit, hfits, hgroups, ?_⟩
  intro before after root hroot hwritten hids
  obtain ⟨first, last, hjoined, hapart, hlength⟩ :=
    joinContinuationEntries_split before hroot hids
  refine ⟨first, last, ?_, hapart, hlength⟩
  have hparts : root.parts ++ (after.filter (continues root.id)).flatMap SessionMessageEntry.parts =
      groups.flatten := by
    rw [← hflatten, ← hwritten, flatten_cons, List.flatMap]
  rw [hjoined, extendParts, hparts]

/-! ## Limits -/

section Limits

theorem byteLength_replicate (count : Nat) (c : Char) :
    byteLength (List.replicate count c) = count * c.utf8Size := by
  induction count with
  | zero => simp
  | succ count ih =>
    rw [replicate_succ, byteLength, ih, Nat.succ_mul, Nat.add_comm]

/-- The parts below hold no structured values. -/
local instance noStructure : JsonSize where
  call _ := 0
  diff _ := 0
  diffStats _ := 0
  questions _ := 0
  decision _ := 0

def largeMessage : String := String.ofList (List.replicate (msgInlineMax + 1) 'a')

theorem strLen_largeMessage : strLen largeMessage = msgInlineMax + 1 := by
  rw [strLen, largeMessage, String.toList_ofList, byteLength_replicate]
  exact Nat.mul_one _

theorem splitParts_empty_error (message : String) :
    splitParts [.text "t0" "", .error "e0" message] =
      some [[.text "t0" "", .error "e0" message]] := by
  have hempty : splitPart { closed := [], last := [], currentBytes := 0 } (.text "t0" "") =
      some { closed := [], last := [.text "t0" ""], currentBytes := 0 } := rfl
  rw [splitParts, foldlM_cons, hempty, bind_eq_bind, bind_some,
    foldlM_cons, splitPart, Chunks.pushPart, if_neg (by simp)]
  · rfl
  · simp

theorem splitParts_error_error {message : String} (hmessage : msgInlineMax ≤ strLen message) :
    splitParts [.error "e0" message, .error "e1" "x"] =
      some [[.error "e0" message], [.error "e1" "x"]] := by
  have hlen : strLen "x" = 1 := rfl
  have hpos : 0 < msgInlineMax := by decide
  simp only [splitParts, foldlM_cons, foldlM_nil, splitPart, Option.bind_eq_bind,
    Option.bind_some, Chunks.pushPart, MessagePart.byteLen, hlen, Nat.lt_irrefl, false_and,
    if_false, Nat.zero_add, Option.pure_def, Option.map_some]
  rw [if_pos (by omega)]
  rfl

def onePart (id : String) (part : MessagePart) (continuationOf : Option String) :
    SessionMessageEntry :=
  { id, role := .assistant, parts := [part], createdAt := 0, deviceId := "dev-a"
    status := some .complete, continuationOf }

/-- The two chunks of an error that fills one, with a user's entry between them. -/
theorem split_join_large : ∃ groups first last,
    List.Forall₂ PartSplit [.error "e0" largeMessage, .error "e1" "x"] groups ∧
      joinContinuationEntries
        [onePart "m1" (.error "e0" largeMessage) none, onePart "m2" (.text "t0" "hi") none,
          onePart "m1#c1" (.error "e1" "x") (some "m1")] =
        first ++ { onePart "m1" (.error "e0" largeMessage) none with parts := groups.flatten } :: last ∧
      first ++ last = [onePart "m2" (.text "t0" "hi") none] := by
  obtain ⟨chunks, groups, hsplit, -, hgroups, hjoin⟩ :=
    split_join [.error "e0" largeMessage, .error "e1" "x"]
  rw [splitParts_error_error (by rw [strLen_largeMessage]; omega)] at hsplit
  cases hsplit
  obtain ⟨first, last, hjoined, hapart, -⟩ :=
    hjoin []
      [onePart "m2" (.text "t0" "hi") none, onePart "m1#c1" (.error "e1" "x") (some "m1")]
      (onePart "m1" (.error "e0" largeMessage) none) rfl rfl (by simp [onePart])
  exact ⟨groups, first, last, hgroups, hjoined, hapart.symm⟩

/-- A chunk with an oversized part can hold empty parts before it, an entry that
repeats the root's id takes its later continuations over, and an entry that
continues the root loses its parts to it. -/
theorem split_join_unrestricted :
    (¬ ∀ parts chunks, splitParts parts = some chunks → ∀ chunk ∈ chunks,
      chunkBytes chunk ≤ msgInlineMax ∨ ∃ part, chunk = [part] ∧ part.Oversized) ∧
    joinContinuationEntries
        [onePart "m1" (.error "e0" "a") none, onePart "m1" (.text "t0" "hi") none,
          onePart "m1#c1" (.error "e1" "x") (some "m1")] ≠
      [{ onePart "m1" (.error "e0" "a") none with parts := [.error "e0" "a", .error "e1" "x"] },
        onePart "m1" (.text "t0" "hi") none] ∧
    joinContinuationEntries
        [onePart "m1" (.error "e0" "a") none, onePart "m2" (.text "t0" "hi") (some "m1"),
          onePart "m1#c1" (.error "e1" "x") (some "m1")] ≠
      [{ onePart "m1" (.error "e0" "a") none with parts := [.error "e0" "a", .error "e1" "x"] },
        onePart "m2" (.text "t0" "hi") (some "m1")] := by
  refine ⟨?_, by decide, by decide⟩
  intro hfits
  obtain hbytes | ⟨part, hone, -⟩ :=
    hfits _ _ (splitParts_empty_error largeMessage) _ mem_cons_self
  · rw [chunkBytes, map_cons, map_singleton, sum_cons, sum_singleton,
      MessagePart.byteLen, MessagePart.byteLen, strLen_largeMessage] at hbytes
    omega
  · cases hone

end Limits

end Keel
