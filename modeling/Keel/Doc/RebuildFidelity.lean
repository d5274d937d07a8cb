import Keel.Foundation.Lists
import Keel.Doc.StoredDoc
import Keel.Doc.WriterFidelity
import Keel.Proto.DecisionBounds

/-! # What a thin rebuild keeps

A rebuild reads a document, strips it and writes it again, so a part survives if
its values do: reading, writing and reading once more must end where the first
reading did. The second rebuild always does, because everything it reads was
written by the first one.
-/

namespace Keel

open StoredValues List Function

/-! ## What reading can give -/

def MessagePart.Readable [StoredValues] : MessagePart → Prop
  | .text .. | .error .. => True
  | .input id requestId _ _ => id = requestId
  | .tool fields => (∃ json, readCall json = some fields.call) ∧
      ∀ bytes ∈ fields.outputBytes, bytes < 2 ^ 63
  | .decision _ event => ∃ json source, readDecision json = some source ∧ event = source.bounded

structure SessionMessageEntry.Readable [StoredValues] (entry : SessionMessageEntry) : Prop where
  createdAt : -2 ^ 63 ≤ entry.createdAt ∧ entry.createdAt < 2 ^ 63
  parts : ∀ part ∈ entry.parts, part.Readable

theorem lt_of_optional?_u64 {member : Option Json} {bytes : Option Nat}
    (hread : Json.optional? Json.u64? member = some bytes) : ∀ value ∈ bytes, value < 2 ^ 63 := by
  rintro value rfl
  cases member with
  | none => cases hread
  | some json =>
    by_cases hnull : json = .null
    · subst hnull
      cases hread
    · rw [Json.optional?_some _ hnull, Option.map_eq_some_iff] at hread
      obtain ⟨_, hvalue, ⟨⟩⟩ := hread
      exact Json.u64?_lt hvalue

theorem exists_of_mem_bind {α : Type} {read : Json → Option α} {member : Option Json} {value : α}
    (hvalue : value ∈ member.bind read) : ∃ json, read json = some value := by
  obtain ⟨json, -, hjson⟩ := Option.bind_eq_some_iff.mp hvalue
  exact ⟨json, hjson⟩

section Reading

variable [StoredValues]

/-- A part that has its strict shape. -/
structure DocPartJson.Readable (part : DocPartJson) : Prop where
  call : ∀ call ∈ part.call, ∃ json, readCall json = some call
  decision : ∀ event ∈ part.decision, ∃ json, readDecision json = some event
  outputBytes : ∀ bytes ∈ part.outputBytes, bytes < 2 ^ 63

theorem readDocPart_readable {json : Json} {part : DocPartJson}
    (hread : readDocPart json = some part) : part.Readable := by
  simp only [readDocPart, Option.bind_eq_bind, Option.bind_eq_some_iff, Option.pure_def,
    Option.some.injEq] at hread
  obtain ⟨-, -, id, -, kind, -, text, -, isError, -, resolved, -, message, -, output, -,
    outputRef, -, bytes, hbytes, diffRef, -, rfl⟩ := hread
  exact ⟨fun _ hcall => exists_of_mem_bind hcall, fun _ hevent => exists_of_mem_bind hevent,
    lt_of_optional?_u64 hbytes⟩

theorem ofDocPart_readable {part : DocPartJson} (hpart : part.Readable) :
    (ofDocPart part).Readable := by
  unfold ofDocPart fromDocPart
  split
  · split
    next call hcall =>
      have hpresent : part.call = some call := (Option.bind_fun_some part.call).symm.trans hcall
      exact ⟨hpart.call call hpresent, hpart.outputBytes⟩
    · trivial
  · split
    · exact rfl
    · split
      · trivial
      · split
        · split
          next event hevent =>
            obtain ⟨json, hjson⟩ :=
              hpart.decision event ((Option.bind_fun_some part.decision).symm.trans hevent)
            exact ⟨json, event, hjson, rfl⟩
          · trivial
        · trivial

theorem readPart_readable {json : Json} {entryId : String} {index : Nat} {part : MessagePart}
    (hread : readPart json entryId index = some part) : part.Readable := by
  unfold readPart at hread
  split at hread
  next docPart hdocPart =>
    cases hread
    exact ofDocPart_readable (readDocPart_readable hdocPart)
  · unfold salvageStoredPart at hread
    split at hread
    · split at hread
      · cases hread
        trivial
      next call _ hcall =>
        cases hread
        exact ⟨exists_of_mem_bind hcall, by simp⟩
      · cases hread
        trivial
      · cases hread
    · cases hread

theorem readDocParts_readable {member : Option Json} {parts : List DocPartJson}
    (hread : readDocParts member = some parts) : ∀ part ∈ parts, part.Readable := by
  cases member with
  | none =>
    cases hread
    simp
  | some json =>
    obtain ⟨items, -, hitems⟩ := Option.bind_eq_some_iff.mp hread
    intro part hpart
    obtain ⟨item, -, hitem⟩ := Lists.exists_of_mem_mapM hitems hpart
    exact readDocPart_readable hitem

theorem readStrictEntry_readable {json : Json} {entry : SessionMessageEntry}
    (hread : readStrictEntry json = some entry) : entry.Readable := by
  simp only [readStrictEntry, Option.bind_eq_bind, Option.bind_eq_some_iff, Option.pure_def,
    Option.some.injEq] at hread
  obtain ⟨-, -, id, -, role, -, parts, hparts, createdAt, ⟨_, -, hcreated⟩, deviceId, -, status, -,
    continuationOf, -, rfl⟩ := hread
  refine ⟨Json.i64?_range hcreated, ?_⟩
  rw [forall_mem_map]
  intro part hpart
  exact ofDocPart_readable (readDocParts_readable hparts part hpart)

theorem salvageEntry_readable {json : Json} {entry : SessionMessageEntry}
    (hread : salvageEntry json = some entry) : entry.Readable := by
  unfold salvageEntry at hread
  split at hread
  · cases hread
    refine ⟨?_, ?_⟩
    · cases hcreated : (json.field? "createdAt").bind Json.i64? with
      | none => simp
      | some createdAt =>
        obtain ⟨_, -, hvalue⟩ := Option.bind_eq_some_iff.mp hcreated
        exact Json.i64?_range hvalue
    · intro part hpart
      obtain ⟨⟨_, index⟩, -, hpart⟩ := mem_filterMap.mp hpart
      exact readPart_readable hpart
  · cases hread

theorem RawSessionDoc.readEntries_readable (doc : RawSessionDoc) :
    ∀ entry ∈ doc.readEntries, entry.Readable := by
  intro entry hentry
  obtain ⟨json, -, hread⟩ := mem_filterMap.mp hentry
  obtain hread | ⟨-, hread⟩ := Option.or_eq_some_iff.mp hread
  · exact readStrictEntry_readable hread
  · exact salvageEntry_readable hread

end Reading

/-! ## One part through a rebuild -/

/-- Text that the strip takes out of a tool part. -/
def removedOutput (tool : ToolPart) : Option String :=
  match tool.outputRef with
  | none => tool.output.filter fun output => !(Text.trim output.toList).isEmpty
  | some _ => none

def owed : MessagePart → Option SidecarPayload
  | .tool tool =>
    if (removedOutput tool).isSome || tool.diff.isSome then
      some ⟨tool.id, removedOutput tool, tool.diff⟩
    else none
  | _ => none

/-- A tool part that the strip has nothing to take from. -/
def ToolPart.Thin (tool : ToolPart) : Prop :=
  tool.diff = none ∧ (tool.outputRef = none → tool.output = none)

section
variable (chatId : String)
include chatId

theorem stripOutput_snd (tool : ToolPart) : (stripOutput chatId tool).2 = removedOutput tool := by
  rw [stripOutput, removedOutput]
  cases tool.outputRef with
  | some _ => rfl
  | none =>
    cases tool.output with
    | none => rfl
    | some output =>
      cases hblank : (Text.trim output.toList).isEmpty <;> simp [hblank, Option.filter]

theorem stripOutput_fst (tool : ToolPart) : ∃ output outputBytes outputRef,
      (stripOutput chatId tool).1 = { tool with output, outputBytes, outputRef } ∧
      (outputRef = none → output = none) ∧
      (outputBytes = tool.outputBytes ∨
        ∃ full, tool.output = some full ∧ outputBytes = some full.utf8ByteSize) := by
  unfold stripOutput
  split
  next hmissing hfull =>
    split
    · exact ⟨none, tool.outputBytes, tool.outputRef, rfl, fun _ => rfl, Or.inl rfl⟩
    next full _ =>
      refine ⟨summarizeToolOutput full, some full.utf8ByteSize, some (chatId ++ "/" ++ tool.id),
        rfl, ?_, Or.inr ⟨full, hfull, rfl⟩⟩
      simp
  next hother =>
    refine ⟨tool.output, tool.outputBytes, tool.outputRef, rfl, ?_, Or.inl rfl⟩
    intro hmissing
    cases houtput : tool.output with
    | none => rfl
    | some full => exact absurd houtput (hother full hmissing)

theorem stripPart_owed [LineDiff] (part : MessagePart) : (stripPart chatId part).2 = owed part := by
  cases part with
  | tool tool =>
    obtain ⟨output, outputBytes, outputRef, hthin, -⟩ := stripOutput_fst chatId tool
    simp only [stripPart, stripDiff, hthin, stripOutput_snd, owed]
    cases tool.diff <;> rfl
  | _ => rfl

theorem stripPart_tool [LineDiff] (tool : ToolPart) :
    ∃ thin : ToolPart, (stripPart chatId (.tool tool)).1 = .tool thin ∧ thin.Thin ∧
      thin.id = tool.id ∧ thin.call = tool.call ∧ thin.isError = tool.isError ∧
      thin.resolved = tool.resolved ∧ (thin.outputBytes = tool.outputBytes ∨
        ∃ full, tool.output = some full ∧ thin.outputBytes = some full.utf8ByteSize) := by
  obtain ⟨output, outputBytes, outputRef, hthin, href, hbytes⟩ := stripOutput_fst chatId tool
  simp only [stripPart, stripDiff, hthin]
  cases hdiff : tool.diff with
  | none | some full => exact ⟨_, rfl, ⟨rfl, href⟩, rfl, rfl, rfl, rfl, hbytes⟩

end

theorem ToolPart.Thin.stripPart_eq [LineDiff] {tool : ToolPart} (hthin : tool.Thin)
    (chatId : String) : stripPart chatId (.tool tool) = (.tool tool, none) := by
  have houtput : stripOutput chatId tool = (tool, none) := by
    unfold stripOutput
    split
    next hmissing hfull =>
      rw [hthin.2 hmissing] at hfull
      cases hfull
    · rfl
  rw [stripPart, houtput]
  simp [stripDiff, hthin.1]

section Rewriting

variable [StoredValues] [LawfulStoredValues]

/-- A part written to a document and read back. -/
def restored (part : MessagePart) : MessagePart := fromDocPart (toDocPart part)

/-- A tool part as it reads back: an error counts once the call is resolved. -/
def ToolPart.restored (tool : ToolPart) : ToolPart :=
  { tool with
    isError := tool.resolved && tool.isError
    diff := tool.diff.bind Serde.diff
    diffStats := tool.diffStats.bind Serde.diffStats }

theorem ToolPart.Thin.restored_restored {tool : ToolPart} (hthin : tool.Thin) :
    tool.restored.restored = tool.restored := by
  have hstats (stats : List ToolDiffStat) :
      (Serde.diffStats stats).bind Serde.diffStats = Serde.diffStats stats := by
    cases hread : Serde.diffStats stats with
    | none => rfl
    | some kept => exact LawfulStoredValues.diffStats_stable _ kept hread
  have hdiffStats : (tool.diffStats.bind Serde.diffStats).bind Serde.diffStats =
      tool.diffStats.bind Serde.diffStats := by
    cases tool.diffStats with
    | none => rfl
    | some stats => exact hstats stats
  simp only [ToolPart.restored, hthin.1, Option.bind_none, Bool.and_self_left, hdiffStats]

theorem restored_tool {tool : ToolPart} (hcall : ∃ json, readCall json = some tool.call) :
    restored (.tool tool) = .tool tool.restored := by
  obtain ⟨json, hjson⟩ := hcall
  have hstable : Serde.call tool.call = some tool.call :=
    LawfulStoredValues.call_stable json tool.call hjson
  simp only [restored, toDocPart, fromDocPart, if_true, Option.bind_some, hstable]
  cases hresolved : tool.resolved <;> simp [ToolPart.restored, hresolved]

theorem restored_decision (id : String) {json : Json} {event : DecisionEvent}
    (hevent : readDecision json = some event) :
    restored (.decision id event.bounded) = .decision id event.bounded.bounded := by
  have hbounded := LawfulStoredValues.decision_stable json event hevent
  have hstable : Serde.decision event.bounded.bounded = some event.bounded.bounded :=
    LawfulStoredValues.decision_stable _ event.bounded hbounded
  simp only [restored, toDocPart, fromDocPart, String.reduceEq, if_false, if_true,
    Option.bind_some, hstable, DecisionEvent.bounded_bounded_bounded]

theorem restored_input (id : String) (questions : List UserInputQuestion) (resolved : Bool) :
    restored (.input id id questions resolved) = .input id id questions resolved := by
  have hquestions : Serde.questions questions = some questions :=
    LawfulStoredValues.questions questions
  simp only [restored, toDocPart, fromDocPart, String.reduceEq, if_false, if_true,
    Option.bind_some, hquestions, Option.getD_some]

variable [LineDiff]

def rebuiltPart (chatId : String) (part : MessagePart) : MessagePart :=
  restored (stripPart chatId part).1

theorem rebuiltPart_decision (chatId id : String) (event : DecisionEvent) :
    rebuiltPart chatId (.decision id event) = restored (.decision id event) := rfl

theorem rebuiltPart_input (chatId id requestId : String) (questions : List UserInputQuestion)
    (resolved : Bool) : rebuiltPart chatId (.input id requestId questions resolved) =
      restored (.input id requestId questions resolved) := rfl

/-- Every output the part holds inline has a length that fits the machine. -/
def MessagePart.Addressable : MessagePart → Prop
  | .tool fields => ∀ output ∈ fields.output, output.utf8ByteSize < 2 ^ 63
  | _ => True

/-- A part that a rebuild wrote: nothing is left to strip. -/
def MessagePart.Thin : MessagePart → Prop
  | .tool fields => fields.Thin
  | _ => True

variable {part : MessagePart}

omit [StoredValues] [LawfulStoredValues] in
theorem MessagePart.Thin.stripPart_eq (hthin : part.Thin) (chatId : String) :
    stripPart chatId part = (part, none) := by
  cases part with
  | tool tool => exact ToolPart.Thin.stripPart_eq hthin chatId
  | _ => rfl

omit [StoredValues] [LawfulStoredValues] [LineDiff] in
theorem MessagePart.Thin.owed_eq_none (hthin : part.Thin) : owed part = none := by
  cases part with
  | tool fields =>
    have hremoved : removedOutput fields = none := by
      rw [removedOutput]
      cases hmissing : fields.outputRef with
      | none =>
        rw [hthin.2 hmissing]
        rfl
      | some _ => rfl
    rw [owed, hremoved, hthin.1]
    rfl
  | _ => rfl

theorem rebuiltPart_thin (hpart : part.Readable) (chatId : String) :
    (rebuiltPart chatId part).Thin := by
  cases part with
  | tool tool =>
    obtain ⟨thin, hstrip, hthin, -, hcall, -⟩ := stripPart_tool chatId tool
    rw [rebuiltPart, hstrip, restored_tool (hcall ▸ hpart.1)]
    exact ⟨by simp [ToolPart.restored, hthin.1], hthin.2⟩
  | decision id event =>
    obtain ⟨json, source, hsource, rfl⟩ := hpart
    rw [rebuiltPart_decision, restored_decision id hsource]
    trivial
  | input id requestId questions resolved =>
    cases hpart
    rw [rebuiltPart_input, restored_input]
    trivial
  | text | error => trivial

theorem rebuiltPart_readable (hpart : part.Readable)
    (hsize : part.Addressable) (chatId : String) : (rebuiltPart chatId part).Readable := by
  cases part with
  | tool tool =>
    obtain ⟨thin, hstrip, -, -, hcall, -, -, hbytes⟩ := stripPart_tool chatId tool
    rw [rebuiltPart, hstrip, restored_tool (hcall ▸ hpart.1)]
    refine ⟨hcall ▸ hpart.1, fun bytes hmem => ?_⟩
    obtain hsame | ⟨full, hfull, hlength⟩ := hbytes
    · exact hpart.2 bytes (hsame ▸ hmem)
    · cases hlength.symm.trans hmem
      exact hsize full hfull
  | decision id event =>
    obtain ⟨json, source, hsource, rfl⟩ := hpart
    rw [rebuiltPart_decision, restored_decision id hsource]
    exact ⟨_, _, LawfulStoredValues.decision_stable json source hsource, rfl⟩
  | input id requestId questions resolved =>
    cases hpart
    rw [rebuiltPart_input, restored_input]
    exact rfl
  | text | error => trivial

theorem restored_rebuiltPart (hpart : part.Readable) (chatId : String) :
    restored (rebuiltPart chatId part) = rebuiltPart chatId part := by
  cases part with
  | tool tool =>
    obtain ⟨thin, hstrip, hthin, -, hcall, -⟩ := stripPart_tool chatId tool
    have hthinCall : ∃ json, readCall json = some thin.call := hcall ▸ hpart.1
    have hagain : ∃ json, readCall json = some thin.restored.call := hthinCall
    rw [rebuiltPart, hstrip, restored_tool hthinCall, restored_tool hagain,
      hthin.restored_restored]
  | decision id event =>
    obtain ⟨json, source, hsource, rfl⟩ := hpart
    have hbounded := LawfulStoredValues.decision_stable json source hsource
    rw [rebuiltPart_decision, restored_decision id hsource, restored_decision id hbounded,
      DecisionEvent.bounded_bounded_bounded]
  | input id requestId questions resolved =>
    cases hpart
    rw [rebuiltPart_input, restored_input, restored_input]
  | text | error => rfl

/-- What the rebuild promises about one part: tool parts keep what they call
and how it ended, every other part is unchanged. -/
def PartKept : MessagePart → MessagePart → Prop
  | .tool old, new => ∃ fields : ToolPart, new = .tool fields ∧ fields.id = old.id ∧
      fields.call = old.call ∧ fields.isError = old.isError ∧ fields.resolved = old.resolved
  | old, new => new = old

/-- A part that survives being written: an error belongs to a resolved call, and
no text of a receipt ends in a space. -/
def MessagePart.Clean : MessagePart → Prop
  | .tool fields => fields.isError = true → fields.resolved = true
  | .decision _ event => ∀ text ∈ event.texts, text.toList.getLast? ≠ some ' '
  | _ => True

theorem partKept_rebuiltPart_iff (hpart : part.Readable) (chatId : String) :
    PartKept part (rebuiltPart chatId part) ↔ part.Clean := by
  cases part with
  | tool tool =>
    obtain ⟨thin, hstrip, -, hid, hcall, herror, hresolved, -⟩ := stripPart_tool chatId tool
    rw [rebuiltPart, hstrip, restored_tool (hcall ▸ hpart.1)]
    constructor
    · rintro ⟨fields, hfields, -, -, hkept, -⟩
      cases hfields
      intro htrue
      rw [htrue, ToolPart.restored, Bool.and_eq_true] at hkept
      exact hresolved ▸ hkept.1
    · intro hclean
      refine ⟨thin.restored, rfl, hid, hcall, ?_, hresolved⟩
      rw [ToolPart.restored, herror, hresolved]
      cases htrue : tool.isError with
      | false => exact Bool.and_false _
      | true => exact congrArg (· && true) (hclean htrue)
  | decision id event =>
    obtain ⟨json, source, hsource, rfl⟩ := hpart
    rw [rebuiltPart_decision, restored_decision id hsource]
    exact (MessagePart.decision.injEq ..).to_iff.trans <|
      (and_iff_right rfl).trans source.bounded_bounded_iff_texts
  | input id requestId questions resolved =>
    cases hpart
    rw [rebuiltPart_input, restored_input]
    exact iff_of_true rfl trivial
  | text | error => exact iff_of_true rfl trivial

/-! ## Entries and documents -/

def rebuiltEntry (chatId : String) (entry : SessionMessageEntry) : SessionMessageEntry :=
  { entry with parts := entry.parts.map (rebuiltPart chatId) }

def SessionMessageEntry.Addressable (entry : SessionMessageEntry) : Prop :=
  ∀ part ∈ entry.parts, part.Addressable

omit [StoredValues] [LawfulStoredValues] [LineDiff] in
theorem asI64_of_lt {value : Nat} (hvalue : value < 2 ^ 63) : asI64 value = value := by
  rw [asI64, Nat.mod_eq_of_lt (by omega), if_pos hvalue]
  omega

theorem toDocPart?_ofDocPart {part : DocPartJson}
    (hbytes : ∀ bytes ∈ part.outputBytes, bytes < 2 ^ 63) :
    (PartMap.ofDocPart part).toDocPart? = some part := by
  have hcount : unsigned? (part.outputBytes.map asI64) = some part.outputBytes := by
    cases hcase : part.outputBytes with
    | none => rfl
    | some bytes =>
      rw [Option.map_some, asI64_of_lt (hbytes bytes hcase)]
      rfl
  simp only [PartMap.toDocPart?, PartMap.ofDocPart, hcount]
  rfl

theorem mapM_toDocPart?_ofDocPart {parts : List DocPartJson}
    (hbytes : ∀ part ∈ parts, ∀ bytes ∈ part.outputBytes, bytes < 2 ^ 63) :
    (parts.map PartMap.ofDocPart).mapM PartMap.toDocPart? = some parts := by
  induction parts with
  | nil => rfl
  | cons part rest ih =>
    rw [forall_mem_cons] at hbytes
    rw [map_cons, mapM_cons, toDocPart?_ofDocPart hbytes.1, ih hbytes.2]
    rfl

/-- The document can hold the byte count of the stripped part. -/
def Fits (chatId : String) (part : MessagePart) : Prop :=
  ∀ bytes ∈ (toDocPart (stripPart chatId part).1).outputBytes, bytes < 2 ^ 63

omit [LawfulStoredValues] in
theorem fits_of_addressable (hpart : part.Readable)
    (hsize : part.Addressable) (chatId : String) : Fits chatId part := by
  rw [Fits]
  cases part with
  | tool tool =>
    obtain ⟨thin, hstrip, -, -, -, -, -, hbytes⟩ := stripPart_tool chatId tool
    rw [hstrip]
    intro bytes hmem
    obtain hsame | ⟨full, hfull, hlength⟩ := hbytes
    · exact hpart.2 bytes (hsame ▸ hmem)
    · cases hlength.symm.trans hmem
      exact hsize full hfull
  | _ => rintro bytes ⟨⟩

theorem MessagePart.Thin.fits (hthin : part.Thin) (hpart : part.Readable)
    (chatId : String) : Fits chatId part := by
  rw [Fits, hthin.stripPart_eq]
  cases part with
  | tool fields => exact hpart.2
  | _ => rintro bytes ⟨⟩

def EntryMap.ofEntry (entry : SessionMessageEntry) : EntryMap :=
  { id := entry.id, role := entry.role, createdAt := entry.createdAt, deviceId := entry.deviceId
    status := entry.status, continuationOf := entry.continuationOf
    parts := entry.parts.foldl pushPart [] }

section
omit [StoredValues] [LawfulStoredValues] [LineDiff]

theorem messages_foldl_pushMessage (doc : SessionDoc) (entries : List SessionMessageEntry) :
    (entries.foldl SessionDoc.pushMessage doc).messages =
      doc.messages ++ entries.map EntryMap.ofEntry := by
  induction entries generalizing doc with
  | nil => simp
  | cons entry rest ih =>
    rw [foldl_cons, ih]
    simp [SessionDoc.pushMessage, EntryMap.ofEntry]

theorem chatId_foldl_pushMessage (doc : SessionDoc) (entries : List SessionMessageEntry) :
    (entries.foldl SessionDoc.pushMessage doc).chatId = doc.chatId := by
  induction entries generalizing doc with
  | nil => rfl
  | cons entry rest ih => exact ih _

theorem foldl_queueCommand_frame (doc : SessionDoc) (commands : List SessionCommandEntry) :
    (commands.foldl SessionDoc.queueCommand doc).messages = doc.messages ∧
      (commands.foldl SessionDoc.queueCommand doc).chatId = doc.chatId := by
  induction commands generalizing doc with
  | nil => exact ⟨rfl, rfl⟩
  | cons command rest ih => exact ih _

end

section Rebuild

variable (chatId : String) (entries : List SessionMessageEntry)
  (commands : List SessionCommandEntry)

theorem rebuildEntries_messages : (rebuildEntries chatId entries commands).doc.messages =
    entries.map fun entry => EntryMap.ofEntry (stripEntry chatId entry).1 := by
  rw [rebuildEntries, (foldl_queueCommand_frame _ _).1, messages_foldl_pushMessage, map_map,
    map_map]
  rfl

theorem rebuildEntries_chatId : (rebuildEntries chatId entries commands).doc.chatId = some chatId := by
  rw [rebuildEntries, (foldl_queueCommand_frame _ _).2, chatId_foldl_pushMessage]
  rfl

omit [StoredValues] [LawfulStoredValues] in
theorem rebuildEntries_commands : (rebuildEntries chatId entries commands).doc.commands =
    (commands.filter fun command => command.status = .pending).map
      fun command => { command with resolution := none } := by
  rw [rebuildEntries, commands_foldl_queueCommand, commands_foldl_pushMessage]
  rfl

omit [StoredValues] [LawfulStoredValues] in
theorem stripEntry_sidecar (entry : SessionMessageEntry) :
    (stripEntry chatId entry).2 = entry.parts.filterMap owed := by
  rw [stripEntry, filterMap_map]
  apply filterMap_congr
  intro part _
  exact stripPart_owed chatId part

theorem rebuildEntries_sidecar : (rebuildEntries chatId entries commands).sidecar =
    (entries.flatMap SessionMessageEntry.parts).filterMap owed := by
  rw [rebuildEntries, filterMap_flatMap, flatMap_map]
  simp only [stripEntry_sidecar]

omit [StoredValues] [LawfulStoredValues] in
theorem ofEntry_parts (entry : SessionMessageEntry) :
    (EntryMap.ofEntry (stripEntry chatId entry).1).parts =
      (entry.parts.map fun part => toDocPart (stripPart chatId part).1).map PartMap.ofDocPart := by
  rw [EntryMap.ofEntry, foldl_pushPart, nil_append, stripEntry, map_map, map_map,
    map_map]
  rfl

variable {chatId entries commands}

theorem ofEntry_wellFormed {entry : SessionMessageEntry} (hentry : entry.Readable)
    (hfits : ∀ part ∈ entry.parts, Fits chatId part) :
    (EntryMap.ofEntry (stripEntry chatId entry).1).WellFormed where
  createdAt := hentry.createdAt
  parts := by
    rw [ofEntry_parts, forall_mem_map, forall_mem_map]
    intro part hpart
    have hbytes := hfits part hpart
    refine ⟨by rw [toDocPart?_ofDocPart hbytes]; rfl, fun bytes hmem => ?_⟩
    rw [PartMap.ofDocPart, Option.mem_map] at hmem
    obtain ⟨count, hcount, rfl⟩ := hmem
    have hfits := hbytes count hcount
    rw [asI64_of_lt hfits]
    omega

theorem entryFromJson_ofEntry {entry : SessionMessageEntry}
    (hfits : ∀ part ∈ entry.parts, Fits chatId part) :
    entryFromJson (EntryMap.ofEntry (stripEntry chatId entry).1) = rebuiltEntry chatId entry := by
  have hbytes : ∀ part ∈ entry.parts.map fun part => toDocPart (stripPart chatId part).1,
      ∀ bytes ∈ part.outputBytes, bytes < 2 ^ 63 := by
    rw [forall_mem_map]
    exact hfits
  have hstrict := mapM_toDocPart?_ofDocPart hbytes
  simp only [entryFromJson, readParts, ofEntry_parts, hstrict]
  simp only [map_map]
  rfl

theorem rebuildEntries_readEntries (chatId : String) (commands : List SessionCommandEntry)
    (hentries : ∀ entry ∈ entries, entry.Readable)
    (hfits : ∀ entry ∈ entries, ∀ part ∈ entry.parts, Fits chatId part) :
    (rebuildEntries chatId entries commands).doc.stored.readEntries =
      entries.map (rebuiltEntry chatId) := by
  have hmessages := rebuildEntries_messages chatId entries commands
  rw [SessionDoc.readEntries_stored, SessionDoc.readEntries, hmessages, map_map]
  · apply map_congr_left
    intro entry hentry
    exact entryFromJson_ofEntry (hfits entry hentry)
  · rw [hmessages, forall_mem_map]
    intro entry hentry
    exact ofEntry_wellFormed (hentries entry hentry) (hfits entry hentry)

/-- Commands that some stored values read. -/
def ReadableCommands (commands : List SessionCommandEntry) : Prop :=
  ∀ command ∈ commands, ∃ json, readCommand json = some command

/-- A rebuilt document reads the pending commands, without their resolutions. -/
theorem rebuildEntries_readCommands (chatId : String) (entries : List SessionMessageEntry)
    (hcommands : ReadableCommands commands) :
    (rebuildEntries chatId entries commands).doc.stored.readCommands =
      (commands.filter fun command => command.status = .pending).map
        fun command => { command with resolution := none } := by
  rw [RawSessionDoc.readCommands, SessionDoc.stored, filterMap_map, rebuildEntries_commands,
    filterMap_map, ← filterMap_eq_map]
  apply filterMap_congr
  intro command hcommand
  obtain ⟨json, hjson⟩ := hcommands command (mem_of_mem_filter hcommand)
  exact LawfulStoredValues.command_stable json command hjson

end Rebuild

end Rewriting

/-! ## The rebuild -/

/-- Every inline output of the document has a length that fits the machine. -/
def RawSessionDoc.Addressable [StoredValues] (doc : RawSessionDoc) : Prop :=
  ∀ entry ∈ doc.readEntries, entry.Addressable

/-- An entry before and after the rebuild. -/
structure EntryKept (old new : SessionMessageEntry) : Prop where
  scalars : { new with parts := old.parts } = old
  parts : List.Forall₂ PartKept old.parts new.parts

/-- The rebuilt document keeps the entries and the pending commands. -/
structure RebuildKeeps [StoredValues] (source : RawSessionDoc) (thin : SessionDoc) : Prop where
  entries : List.Forall₂ EntryKept source.readEntries thin.stored.readEntries
  commands : thin.stored.readCommands =
    source.readCommands.filter fun command => command.status = .pending

/-- Every part of the document is clean, and no pending command has a resolution. -/
structure RawSessionDoc.Clean [StoredValues] (source : RawSessionDoc) : Prop where
  parts : ∀ entry ∈ source.readEntries, ∀ part ∈ entry.parts, part.Clean
  commands : ∀ command ∈ source.readCommands, command.status = .pending →
    command.resolution = none

/-- Everything that was stripped is owed to the sidecar, part by part, and
nothing is left to strip. -/
structure SidecarComplete [StoredValues] (source : RawSessionDoc) (rebuilt : ThinRebuild) : Prop where
  payloads : rebuilt.sidecar =
    (source.readEntries.flatMap SessionMessageEntry.parts).filterMap owed
  thin : ∀ entry ∈ rebuilt.doc.stored.readEntries, ∀ part ∈ entry.parts, part.Thin

/-- The rebuild of the result strips nothing and reads the same. -/
structure RebuildSettled [LineDiff] [StoredValues] (rebuilt again : ThinRebuild) : Prop where
  rebuild : rebuilt.doc.stored.rebuildThinDoc = .ok again
  sidecar : again.sidecar = []
  entries : again.doc.stored.readEntries = rebuilt.doc.stored.readEntries
  commands : again.doc.stored.readCommands = rebuilt.doc.stored.readCommands

section Theorem

variable [LineDiff] [StoredValues] [LawfulStoredValues]

variable {entry : SessionMessageEntry} {source : RawSessionDoc}

section
variable (hentry : entry.Readable)
include hentry

theorem SessionMessageEntry.Readable.rebuilt (hsize : entry.Addressable) (chatId : String) :
    (rebuiltEntry chatId entry).Readable where
  createdAt := hentry.createdAt
  parts := by
    rw [rebuiltEntry, forall_mem_map]
    intro part hpart
    exact rebuiltPart_readable (hentry.parts part hpart) (hsize part hpart) chatId

theorem SessionMessageEntry.Readable.rebuilt_thin (chatId : String) :
    ∀ part ∈ (rebuiltEntry chatId entry).parts, part.Thin := by
  rw [rebuiltEntry, forall_mem_map]
  intro part hpart
  exact rebuiltPart_thin (hentry.parts part hpart) chatId

theorem SessionMessageEntry.Readable.rebuilt_rebuilt (chatId : String) :
    rebuiltEntry chatId (rebuiltEntry chatId entry) = rebuiltEntry chatId entry := by
  have hparts : (rebuiltEntry chatId entry).parts.map (rebuiltPart chatId) =
      (rebuiltEntry chatId entry).parts := by
    rw [rebuiltEntry, map_map]
    apply map_congr_left
    intro part hpart
    have hreadable := hentry.parts part hpart
    rw [comp_apply, rebuiltPart, (rebuiltPart_thin hreadable chatId).stripPart_eq,
      restored_rebuiltPart hreadable]
  nth_rewrite 1 [rebuiltEntry]
  rw [hparts]

theorem entryKept_rebuiltEntry_iff (chatId : String) :
    EntryKept entry (rebuiltEntry chatId entry) ↔ ∀ part ∈ entry.parts, part.Clean := by
  have hparts : List.Forall₂ PartKept entry.parts (rebuiltEntry chatId entry).parts ↔
      ∀ part ∈ entry.parts, part.Clean := by
    rw [rebuiltEntry, forall₂_map_right_iff, forall₂_same]
    apply forall₂_congr
    intro part hpart
    exact partKept_rebuiltPart_iff (hentry.parts part hpart) chatId
  rw [← hparts]
  exact ⟨fun hkept => hkept.parts, fun hkept => ⟨rfl, hkept⟩⟩

end

theorem exists_rebuildSettled (chatId : String) {entries : List SessionMessageEntry}
    {commands : List SessionCommandEntry} (hentries : ∀ entry ∈ entries, entry.Readable)
    (hsizes : ∀ entry ∈ entries, entry.Addressable) (hcommands : ReadableCommands commands) :
    ∃ again, RebuildSettled (rebuildEntries chatId entries commands) again := by
  have hfits : ∀ entry ∈ entries, ∀ part ∈ entry.parts, Fits chatId part := by
    intro entry hentry part hpart
    exact fits_of_addressable ((hentries entry hentry).parts part hpart)
      (hsizes entry hentry part hpart) chatId
  have hreadEntries := rebuildEntries_readEntries chatId commands hentries hfits
  have hreadCommands := rebuildEntries_readCommands chatId entries hcommands
  -- what the second rebuild reads is readable, thin and still pending
  have hreadable : ∀ entry ∈ entries.map (rebuiltEntry chatId), entry.Readable := by
    rw [forall_mem_map]
    intro entry hentry
    exact (hentries entry hentry).rebuilt (hsizes entry hentry) chatId
  have hthin : ∀ entry ∈ entries.map (rebuiltEntry chatId), ∀ part ∈ entry.parts, part.Thin := by
    rw [forall_mem_map]
    intro entry hentry
    exact (hentries entry hentry).rebuilt_thin chatId
  have hagainFits : ∀ entry ∈ entries.map (rebuiltEntry chatId), ∀ part ∈ entry.parts,
      Fits chatId part := by
    intro entry hentry part hpart
    exact (hthin entry hentry part hpart).fits ((hreadable entry hentry).parts part hpart) chatId
  obtain ⟨pending, hpending⟩ : ∃ pending, pending =
      (commands.filter fun command => command.status = .pending).map
        fun command => { command with resolution := none } := ⟨_, rfl⟩
  have hagainCommands : ReadableCommands pending := by
    rw [hpending, ReadableCommands, forall_mem_map]
    intro command hcommand
    obtain ⟨json, hjson⟩ := hcommands command (mem_of_mem_filter hcommand)
    exact ⟨_, LawfulStoredValues.command_stable json command hjson⟩
  have hstable : (pending.filter fun command => command.status = .pending).map
      (fun command => { command with resolution := none }) = pending := by
    rw [hpending, filter_map, map_map, comp_def, filter_filter]
    simp only [Bool.and_self, comp_def]
  rw [← hpending] at hreadCommands
  refine ⟨rebuildEntries chatId (entries.map (rebuiltEntry chatId)) pending, ?_, ?_, ?_, ?_⟩
  · have hchat : (rebuildEntries chatId entries commands).doc.stored.chatId = some chatId :=
      rebuildEntries_chatId chatId entries commands
    rw [RawSessionDoc.rebuildThinDoc, hchat, hreadEntries, hreadCommands]
  · rw [rebuildEntries_sidecar, filterMap_eq_nil_iff]
    intro part hpart
    obtain ⟨entry, hentry, hpart⟩ := mem_flatMap.mp hpart
    exact (hthin entry hentry part hpart).owed_eq_none
  · rw [rebuildEntries_readEntries chatId pending hreadable hagainFits, hreadEntries, map_map]
    apply map_congr_left
    intro entry hentry
    exact (hentries entry hentry).rebuilt_rebuilt chatId
  · rw [rebuildEntries_readCommands chatId _ hagainCommands, hstable, hreadCommands]

omit [LineDiff] [StoredValues] [LawfulStoredValues] in
theorem map_resolution_eq_self_iff (commands : List SessionCommandEntry) :
    ((commands.filter fun command => command.status = .pending).map
        fun command => { command with resolution := none }) =
      (commands.filter fun command => command.status = .pending) ↔
    ∀ command ∈ commands, command.status = .pending → command.resolution = none := by
  nth_rewrite 2 [← map_id (commands.filter _)]
  rw [map_inj_left]
  simp only [mem_filter, decide_eq_true_eq, and_imp, id_eq]
  apply forall₂_congr
  intro command _
  apply imp_congr_right
  intro _
  constructor
  · intro hsame
    rw [← hsame]
  · intro hnone
    rw [← hnone]

omit [LineDiff] [LawfulStoredValues] in
theorem RawSessionDoc.readCommands_readable (doc : RawSessionDoc) :
    ReadableCommands doc.readCommands := by
  intro command hcommand
  obtain ⟨json, -, hjson⟩ := mem_filterMap.mp hcommand
  exact ⟨json, hjson⟩

variable (hsizes : source.Addressable) (chatId : String)
include hsizes chatId

theorem RawSessionDoc.Addressable.fits :
    ∀ entry ∈ source.readEntries, ∀ part ∈ entry.parts, Fits chatId part := by
  intro entry hentry part hpart
  exact fits_of_addressable ((source.readEntries_readable entry hentry).parts part hpart)
    (hsizes entry hentry part hpart) chatId

theorem rebuildKeeps_iff_clean :
    RebuildKeeps source (rebuildEntries chatId source.readEntries source.readCommands).doc ↔
      source.Clean := by
  have hentries := source.readEntries_readable
  have hkept : List.Forall₂ EntryKept source.readEntries
      (source.readEntries.map (rebuiltEntry chatId)) ↔
        ∀ entry ∈ source.readEntries, ∀ part ∈ entry.parts, part.Clean := by
    rw [forall₂_map_right_iff, forall₂_same]
    apply forall₂_congr
    intro entry hentry
    exact entryKept_rebuiltEntry_iff (hentries entry hentry) chatId
  have hpending := map_resolution_eq_self_iff source.readCommands
  rw [← rebuildEntries_readEntries chatId source.readCommands hentries (hsizes.fits chatId)] at hkept
  rw [← rebuildEntries_readCommands chatId source.readEntries source.readCommands_readable] at hpending
  exact ⟨fun hkeeps => ⟨hkept.mp hkeeps.entries, hpending.mp hkeeps.commands⟩,
    fun hclean => ⟨hkept.mpr hclean.parts, hpending.mpr hclean.commands⟩⟩

theorem sidecarComplete :
    SidecarComplete source (rebuildEntries chatId source.readEntries source.readCommands) where
  payloads := rebuildEntries_sidecar chatId source.readEntries source.readCommands
  thin := by
    have hentries := source.readEntries_readable
    rw [rebuildEntries_readEntries chatId source.readCommands hentries (hsizes.fits chatId),
      forall_mem_map]
    intro entry hentry
    exact (hentries entry hentry).rebuilt_thin chatId

end Theorem

/-! ## A receipt with a space at its limit -/

section ReceiptValues

def routingReceipt (fallback : Option String) : DecisionEvent :=
  { schemaVersion := 1, id := "decision-1", taskRevision := 1, backend := .laya, stage := .intake
    candidates := [], result := .abstained, validation := .accepted
    confidence := none, selectedProbability := none, fit := none
    fallback, observedOutcome := none, createdAt := 1 }

theorem routingReceipt_bounded (fallback : Option String) :
    (routingReceipt fallback).bounded = routingReceipt (boundedOptionalText fallback 160) := by
  have hid : boundedId "decision-1" = "decision-1" := by decide
  have hnone : boundedOptionalText none 240 = none := by simp [boundedOptionalText]
  simp only [routingReceipt, DecisionEvent.bounded, hid, hnone, take_nil, map_nil,
    DecisionResult.bounded, boundedUnit, Option.filter_none, Option.map_none,
    decisionEventSchemaVersion]

def storeReceipt (event : DecisionEvent) : Json :=
  Json.record
    [("schemaVersion", some (.int 1)), ("id", some (.string "decision-1")),
      ("taskRevision", some (.int 1)), ("backend", some (.string "laya")),
      ("stage", some (.string "intake")), ("candidates", some (.array [])),
      ("result", some (Json.record [("kind", some (.string "abstained"))])),
      ("validation", some (.string "accepted")), ("fallback", event.fallback.map .string),
      ("createdAt", some (.int 1))]

def readReceipt (json : Json) : Option DecisionEvent :=
  (Json.optional? Json.str? (json.field? "fallback")).map routingReceipt

theorem readReceipt_storeReceipt (fallback : Option String) :
    readReceipt (storeReceipt (routingReceipt fallback)) = some (routingReceipt fallback) := by
  cases fallback <;> rfl

def storeExec : ToolCall → Json
  | .exec command =>
    Json.record [("kind", some (.string "exec")), ("command", some (.string command))]
  | _ => Json.record [("kind", some (.string "exec")), ("command", some (.string ""))]

def readExec (json : Json) : Option ToolCall :=
  if json.field? "kind" = some (.string "exec") then
    ((json.field? "command").bind Json.str?).map .exec
  else none

def storeQuestion (question : UserInputQuestion) : Json :=
  Json.record
    [("id", some (.string question.id)), ("header", some (.string question.header)),
      ("question", some (.string question.question)),
      ("options", some (.array (question.options.map .string))),
      ("multiSelect", some (.bool question.multiSelect))]

def readQuestion (json : Json) : Option UserInputQuestion := do
  let id ← (json.field? "id").bind Json.str?
  let header ← (json.field? "header").bind Json.str?
  let question ← (json.field? "question").bind Json.str?
  let options ← (json.field? "options").bind (Json.list? Json.str?)
  let multiSelect ← (json.field? "multiSelect").bind Json.bool?
  return { id, header, question, options, multiSelect }

theorem readQuestion_storeQuestion (question : UserInputQuestion) :
    readQuestion (storeQuestion question) = some question := by
  have hoptions : Json.list? Json.str? (.array (question.options.map .string)) =
      some question.options :=
    @Json.list?_array String Json.str? Json.string (fun _ => rfl) question.options
  simp [readQuestion, storeQuestion, Json.record, Json.field?, List.lookup_cons, Json.str?, Json.bool?,
    hoptions]

def storeStat (stat : ToolDiffStat) : Json :=
  Json.record
    [("path", some (.string stat.path)), ("additions", some (.int stat.additions)),
      ("deletions", some (.int stat.deletions))]

def readCount : Json → Option Nat
  | .int (.ofNat value) => some value
  | _ => none

def readStat (json : Json) : Option ToolDiffStat := do
  let path ← (json.field? "path").bind Json.str?
  let additions ← (json.field? "additions").bind readCount
  let deletions ← (json.field? "deletions").bind readCount
  return { path, additions, deletions }

theorem readStat_storeStat (stat : ToolDiffStat) : readStat (storeStat stat) = some stat := rfl

def storeMessageRole : MessageRole → Json
  | .user => .string "user"
  | .assistant => .string "assistant"
  | .system => .string "system"

def readMessageRole : Json → Option MessageRole
  | .string "user" => some .user
  | .string "assistant" => some .assistant
  | .string "system" => some .system
  | _ => none

def storeMessageStatus : MessageStatus → Json
  | .streaming => .string "streaming"
  | .complete => .string "complete"
  | .aborted => .string "aborted"

def readMessageStatus : Json → Option MessageStatus
  | .string "streaming" => some .streaming
  | .string "complete" => some .complete
  | .string "aborted" => some .aborted
  | _ => none

def interruptPayload : Json := Json.record [("kind", some (.string "interrupt"))]

def storeInterrupt (entry : SessionCommandEntry) : Json :=
  Json.record
    [("id", some (.string entry.id)), ("kind", some (.string "interrupt")),
      ("payload", some interruptPayload), ("issuedBy", some (.string entry.issuedBy)),
      ("issuedAt", some (.int entry.issuedAt)), ("status", some (.string "pending")),
      ("resolution", entry.resolution.map .string)]

def readInterrupt (json : Json) : Option SessionCommandEntry := do
  guard (json.field? "payload" = some interruptPayload)
  guard (json.field? "status" = some (.string "pending"))
  let id ← (json.field? "id").bind Json.str?
  let issuedBy ← (json.field? "issuedBy").bind Json.str?
  let issuedAt ← (json.field? "issuedAt").bind Json.i64?
  let resolution ← Json.optional? Json.str? (json.field? "resolution")
  return { id, payload := .interrupt, issuedBy, issuedAt, basedOn := none, expiresAt := none
           status := .pending, resolution }

theorem readInterrupt_stable {json : Json} {entry : SessionCommandEntry}
    (hread : readInterrupt json = some entry) :
    readInterrupt (storeInterrupt { entry with resolution := none }) =
      some { entry with resolution := none } := by
  simp only [readInterrupt, Option.bind_eq_bind, Option.bind_eq_some_iff, Option.pure_def,
    Option.some.injEq] at hread
  obtain ⟨-, -, -, -, id, -, issuedBy, -, issuedAt, ⟨_, -, hissued⟩, resolution, -, rfl⟩ := hread
  obtain ⟨hlow, hhigh⟩ := Json.i64?_range hissued
  have hissuedAt := Json.i64?_int hlow hhigh
  simp [readInterrupt, storeInterrupt, Json.record, Json.field?, List.lookup_cons, Json.str?,
    Json.optional?, hissuedAt]

/-- Rebuilding a document owes the sidecar everything it strips and settles
after one round. It keeps the entries and the pending commands if and only if
every part is clean and no pending command has a resolution. -/
theorem thin_rebuild [LineDiff] [StoredValues] [LawfulStoredValues] (source : RawSessionDoc)
    {chatId : String} (hchat : source.chatId = some chatId) (hsizes : source.Addressable) :
    ∃ rebuilt again, source.rebuildThinDoc = .ok rebuilt ∧ SidecarComplete source rebuilt ∧
      RebuildSettled rebuilt again ∧ (RebuildKeeps source rebuilt.doc ↔ source.Clean) := by
  obtain ⟨again, hagain⟩ := exists_rebuildSettled chatId source.readEntries_readable hsizes
    source.readCommands_readable
  refine ⟨_, again, ?_, sidecarComplete hsizes chatId, hagain,
    rebuildKeeps_iff_clean hsizes chatId⟩
  rw [RawSessionDoc.rebuildThinDoc, hchat]

/-- The serializers on commands to run, interrupts, and receipts of abstentions. -/
local instance receiptValues : StoredValues where
  readCall := readExec
  storeCall := storeExec
  readQuestions := Json.list? readQuestion
  storeQuestions questions := .array (questions.map storeQuestion)
  readDecision := readReceipt
  storeDecision := storeReceipt
  readDiff _ := none
  storeDiff _ := .null
  readDiffStats := Json.list? readStat
  storeDiffStats stats := .array (stats.map storeStat)
  readRole := readMessageRole
  storeRole := storeMessageRole
  readStatus := readMessageStatus
  storeStatus := storeMessageStatus
  readCommand := readInterrupt
  storeCommand := storeInterrupt
  recoveredId _ := "recovered-0000000000000000"

local instance receiptValues_lawful : LawfulStoredValues where
  call_isSome call := by cases call <;> rfl
  call_stable json call hread := by
    change readExec json = some call at hread
    unfold readExec at hread
    split at hread
    · obtain ⟨command, -, rfl⟩ := Option.map_eq_some_iff.mp hread
      rfl
    · cases hread
  questions := Json.list?_array readQuestion_storeQuestion
  decision_stable json event hread := by
    obtain ⟨fallback, -, rfl⟩ := Option.map_eq_some_iff.mp hread
    rw [routingReceipt_bounded]
    exact readReceipt_storeReceipt _
  diffStats_isSome stats := by
    rw [show readDiffStats (storeDiffStats stats) = some stats from
      Json.list?_array readStat_storeStat stats]
    rfl
  diffStats_stable _ stats _ := Json.list?_array readStat_storeStat stats
  role role := by cases role <;> rfl
  status status := by cases status <;> rfl
  status_ne_null status := by cases status <;> exact fun h => nomatch h
  command_stable _ _ hread := readInterrupt_stable hread

/-- A turn whose command printed two lines, a receipt with the given fallback,
and an interrupt that is still pending. -/
def receiptDoc (fallback : String) : RawSessionDoc :=
  { chatId := some "chat-1"
    messages :=
      [Json.record
        [("id", some (.string "m1")), ("role", some (.string "assistant")),
          ("createdAt", some (.int 5)), ("deviceId", some (.string "dev-a")),
          ("status", some (.string "complete")),
          ("parts", some (.array
            [Json.record
              [("id", some (.string "tool-1")), ("kind", some (.string "tool")),
                ("call", some (storeExec (.exec "ls"))), ("isError", some (.bool false)),
                ("output", some (.string "one\ntwo"))],
            Json.record
              [("id", some (.string "decision-1")), ("kind", some (.string "decision")),
                ("decision", some (storeReceipt (routingReceipt (some fallback))))]]))]]
    commands :=
      [Json.record
        [("id", some (.string "c1")), ("kind", some (.string "interrupt")),
          ("payload", some interruptPayload), ("issuedBy", some (.string "dev-b")),
          ("issuedAt", some (.int 9)), ("status", some (.string "pending"))]] }

theorem receiptDoc_readEntries (fallback : String) : (receiptDoc fallback).readEntries =
    [{ id := "m1", role := .assistant, createdAt := 5, deviceId := "dev-a"
       status := some .complete, continuationOf := none
       parts :=
        [.tool
          { id := "tool-1", call := .exec "ls", isError := false, resolved := true
            output := some "one\ntwo", diff := none, outputRef := none, outputBytes := none
            diffRef := none, diffStats := none },
        .decision "decision-1" (routingReceipt (some fallback)).bounded] }] := rfl

theorem receiptDoc_addressable (fallback : String) : (receiptDoc fallback).Addressable := by
  rw [RawSessionDoc.Addressable, receiptDoc_readEntries, forall_mem_singleton]
  rw [SessionMessageEntry.Addressable, forall_mem_cons, forall_mem_singleton]
  refine ⟨?_, trivial⟩
  rintro output ⟨⟩
  decide

local instance receiptDiff : LineDiff := .replaceAll

theorem thin_rebuild_receipt : ∃ rebuilt again,
    (receiptDoc "retry").rebuildThinDoc = .ok rebuilt ∧
      SidecarComplete (receiptDoc "retry") rebuilt ∧ RebuildSettled rebuilt again ∧
      (RebuildKeeps (receiptDoc "retry") rebuilt.doc ↔ (receiptDoc "retry").Clean) :=
  thin_rebuild (receiptDoc "retry") rfl (receiptDoc_addressable "retry")

/-- A receipt whose fallback was stored uncut reads with a space at its end, and
the rebuild loses the space. -/
theorem thin_rebuild_spaced :
    ¬ ∀ (source : RawSessionDoc) (chatId : String), source.chatId = some chatId → source.Addressable →
      ∃ rebuilt, source.rebuildThinDoc = .ok rebuilt ∧ RebuildKeeps source rebuilt.doc := by
  intro hkeeps
  obtain ⟨rebuilt, hrebuild, hkept⟩ :=
    hkeeps (receiptDoc (spacedSummary 159)) "chat-1" rfl (receiptDoc_addressable _)
  have hrebuilt := Except.ok.inj hrebuild
  subst hrebuilt
  have hclean := (rebuildKeeps_iff_clean (receiptDoc_addressable _) "chat-1").mp hkept
  have hparts := hclean.parts
  rw [receiptDoc_readEntries, forall_mem_singleton, forall_mem_cons,
    forall_mem_singleton] at hparts
  have hstable := (DecisionEvent.bounded_bounded_iff_texts _).mpr hparts.2
  have hcuts := ((DecisionEvent.bounded_bounded_iff _).mp hstable).2.1 _ rfl
  rw [CutsCleanly, collapsed_spacedSummary (by decide)] at hcuts
  revert hcuts
  decide +kernel

end ReceiptValues

end Keel
