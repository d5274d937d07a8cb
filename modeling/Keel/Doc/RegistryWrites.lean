import Keel.Doc.RegistryDoc

/-! # The typed writes of the registry

A typed write to an existing row queues an update of a few fields; a deletion
queues tombstones. Both are stamped by the device's own clock, which follows the
local wall clock and never sees the clocks that other devices put on the rows it
reads. Whether a write shows in the next read is therefore decided by comparing
the fresh stamp with the clocks already on the displayed row.
-/

namespace Keel

open List Std.ExtTreeMap

def kindDevices : String := "devices"
def kindSpaces : String := "spaces"
def kindChats : String := "chats"
def kindSessions : String := "sessions"

def fields (entries : List (String × Json)) : Fields := Std.ExtTreeMap.ofList entries

def optStr : Option String → Json
  | some value => .string value
  | none => .null

namespace RegistryDoc

section Typed

variable (doc : RegistryDoc) (now : Nat → Int)

/-- Queue an update of a row that is displayed. -/
def updateRow (kind id : String) (set : Fields) : RegistryDoc × Bool :=
  if doc.rowExists kind id = false then (doc, false)
  else (doc.write kind id .update set now, true)

def renameDevice (deviceId name : String) : RegistryDoc × Bool :=
  doc.updateRow now kindDevices deviceId (fields [("name", .string name)])

/-- Times are milliseconds since the epoch. -/
def setDeviceLastSeen (deviceId : String) (stamp : Int64) : RegistryDoc × Bool :=
  doc.updateRow now kindDevices deviceId (fields [("lastSeenAt", .int stamp.toInt)])

def renameSpace (spaceId : String) (name : Option String) : RegistryDoc × Bool :=
  doc.updateRow now kindSpaces spaceId (fields [("name", optStr name)])

def setSpaceGit (spaceId : String) (detected : Bool) (checkoutId : Option String)
    (checkedAt : Int64) : RegistryDoc × Bool :=
  doc.updateRow now kindSpaces spaceId (fields [("gitDetected", .bool detected),
    ("checkoutId", optStr checkoutId), ("gitCheckedAt", .int checkedAt.toInt)])

def renameChat (chatId title : String) : RegistryDoc × Bool :=
  doc.updateRow now kindChats chatId (fields [("title", .string title)])

def setChatArchived (chatId : String) (archived : Bool) : RegistryDoc × Bool :=
  doc.updateRow now kindChats chatId (fields [("archived", .bool archived)])

def setChatRoomGen (chatId : String) (roomGen : Nat) : RegistryDoc × Bool :=
  doc.updateRow now kindChats chatId (fields [("roomGen", .int roomGen)])

def setChatBranch (chatId branch : String) : RegistryDoc × Bool :=
  doc.updateRow now kindChats chatId (fields [("branch", .string branch)])

def setChatCwd (chatId cwd : String) : RegistryDoc × Bool :=
  doc.updateRow now kindChats chatId (fields [("cwd", .string cwd)])

def setChatCheckout (chatId checkoutId : String) : RegistryDoc × Bool :=
  doc.updateRow now kindChats chatId (fields [("checkoutId", .string checkoutId)])

/-- The configuration is given as it is serialised. -/
def setChatConfig (chatId : String) (config : Json) : RegistryDoc × Bool :=
  doc.updateRow now kindChats chatId (fields [("config", config)])

def setChatHarnessSession (chatId sessionId cwd : String) : RegistryDoc × Bool :=
  doc.updateRow now kindChats chatId (fields [("harnessSessionId", .string sessionId),
    ("harnessSessionCwd", .string cwd)])

def setChatLastMessage (chatId preview : String) (stamp : Int64) : RegistryDoc × Bool :=
  doc.updateRow now kindChats chatId (fields [("lastMessagePreview", .string preview),
    ("lastMessageAt", .int stamp.toInt)])

end Typed

end RegistryDoc

/-- `Value::as_i64`. -/
def Json.asI64? : Json → Option Int
  | .int value => if -2 ^ 63 ≤ value ∧ value < 2 ^ 63 then some value else none
  | _ => none

/-- The row was seen at this time or later. -/
def RegistryRow.seenSince (row : RegistryRow) (stamp : Int64) : Bool :=
  (row.fields["lastSeenAt"]?.bind Json.asI64?).any fun ms => stamp.toInt ≤ ms

/-- What the deserialised chat row contributes to the cascade of a deletion. -/
structure RawChat where
  id : String
  spaceId : Option String

structure DeletedSpace where
  existed : Bool
  chatIds : List String

namespace RegistryDoc

section Typed

variable (doc : RegistryDoc) (now : Nat → Int)

/-- A seen marker that would not move forward is not written. -/
def setChatSeen (chatId : String) (stamp : Int64) : RegistryDoc × Bool :=
  match doc.overlayRow kindChats chatId with
  | none => (doc, false)
  | some row =>
    if row.seenSince stamp then (doc, true)
    else (doc.write kindChats chatId .update (fields [("lastSeenAt", .int stamp.toInt)]) now, true)

def deleteChat (chatId : String) : RegistryDoc × Bool :=
  (doc.deleteRowOps [(kindChats, chatId), (kindSessions, chatId)] now,
    doc.rowExists kindChats chatId)

variable (rawChat : Fields → Option RawChat)

/-- The displayed chats by id; a row that does not deserialise is skipped. -/
def readChats : List RawChat :=
  ((doc.overlayRows kindChats).filterMap fun row => rawChat row.fields).mergeSort
    fun first second => first.id ≤ second.id

def spaceChatIds (spaceId : String) : List String :=
  ((doc.readChats rawChat).filter fun chat => chat.spaceId = some spaceId).map RawChat.id

def deleteSpace (spaceId : String) : RegistryDoc × DeletedSpace :=
  let existed := doc.rowExists kindSpaces spaceId
  let chatIds := doc.spaceChatIds rawChat spaceId
  let keys := chatIds.flatMap (fun chatId => [(kindChats, chatId), (kindSessions, chatId)]) ++
    [(kindSpaces, spaceId)]
  (doc.deleteRowOps keys now, { existed, chatIds })

end Typed

end RegistryDoc

/-- The typed writes to one row that report whether they found it, and the
deletions. -/
inductive Mutator where
  | renameDevice (deviceId name : String)
  | setDeviceLastSeen (deviceId : String) (stamp : Int64)
  | renameSpace (spaceId : String) (name : Option String)
  | setSpaceGit (spaceId : String) (detected : Bool) (checkoutId : Option String) (checkedAt : Int64)
  | renameChat (chatId title : String)
  | setChatArchived (chatId : String) (archived : Bool)
  | setChatRoomGen (chatId : String) (roomGen : Nat)
  | setChatBranch (chatId branch : String)
  | setChatCwd (chatId cwd : String)
  | setChatCheckout (chatId checkoutId : String)
  | setChatConfig (chatId : String) (config : Json)
  | setChatHarnessSession (chatId sessionId cwd : String)
  | setChatLastMessage (chatId preview : String) (stamp : Int64)
  | setChatSeen (chatId : String) (stamp : Int64)
  | deleteChat (chatId : String)
  | deleteSpace (spaceId : String)

/-- A write of some fields of one row. -/
structure RowEdit where
  kind : String
  id : String
  set : Fields

namespace Mutator

/-- What a write sets, where it always writes. -/
def edit : Mutator → Option RowEdit
  | .renameDevice deviceId name => some ⟨kindDevices, deviceId, fields [("name", .string name)]⟩
  | .setDeviceLastSeen deviceId stamp =>
    some ⟨kindDevices, deviceId, fields [("lastSeenAt", .int stamp.toInt)]⟩
  | .renameSpace spaceId name => some ⟨kindSpaces, spaceId, fields [("name", optStr name)]⟩
  | .setSpaceGit spaceId detected checkoutId checkedAt =>
    some ⟨kindSpaces, spaceId, fields [("gitDetected", .bool detected),
      ("checkoutId", optStr checkoutId), ("gitCheckedAt", .int checkedAt.toInt)]⟩
  | .renameChat chatId title => some ⟨kindChats, chatId, fields [("title", .string title)]⟩
  | .setChatArchived chatId archived =>
    some ⟨kindChats, chatId, fields [("archived", .bool archived)]⟩
  | .setChatRoomGen chatId roomGen => some ⟨kindChats, chatId, fields [("roomGen", .int roomGen)]⟩
  | .setChatBranch chatId branch => some ⟨kindChats, chatId, fields [("branch", .string branch)]⟩
  | .setChatCwd chatId cwd => some ⟨kindChats, chatId, fields [("cwd", .string cwd)]⟩
  | .setChatCheckout chatId checkoutId =>
    some ⟨kindChats, chatId, fields [("checkoutId", .string checkoutId)]⟩
  | .setChatConfig chatId config => some ⟨kindChats, chatId, fields [("config", config)]⟩
  | .setChatHarnessSession chatId sessionId cwd =>
    some ⟨kindChats, chatId, fields [("harnessSessionId", .string sessionId),
      ("harnessSessionCwd", .string cwd)]⟩
  | .setChatLastMessage chatId preview stamp =>
    some ⟨kindChats, chatId, fields [("lastMessagePreview", .string preview),
      ("lastMessageAt", .int stamp.toInt)]⟩
  | .setChatSeen _ _ | .deleteChat _ | .deleteSpace _ => none

variable (rawChat : Fields → Option RawChat) (doc : RegistryDoc) (now : Nat → Int)

/-- The replica after the write, and whether the write found its row. -/
def run : Mutator → RegistryDoc × Bool
  | .renameDevice deviceId name => doc.renameDevice now deviceId name
  | .setDeviceLastSeen deviceId stamp => doc.setDeviceLastSeen now deviceId stamp
  | .renameSpace spaceId name => doc.renameSpace now spaceId name
  | .setSpaceGit spaceId detected checkoutId checkedAt =>
    doc.setSpaceGit now spaceId detected checkoutId checkedAt
  | .renameChat chatId title => doc.renameChat now chatId title
  | .setChatArchived chatId archived => doc.setChatArchived now chatId archived
  | .setChatRoomGen chatId roomGen => doc.setChatRoomGen now chatId roomGen
  | .setChatBranch chatId branch => doc.setChatBranch now chatId branch
  | .setChatCwd chatId cwd => doc.setChatCwd now chatId cwd
  | .setChatCheckout chatId checkoutId => doc.setChatCheckout now chatId checkoutId
  | .setChatConfig chatId config => doc.setChatConfig now chatId config
  | .setChatHarnessSession chatId sessionId cwd => doc.setChatHarnessSession now chatId sessionId cwd
  | .setChatLastMessage chatId preview stamp => doc.setChatLastMessage now chatId preview stamp
  | .setChatSeen chatId stamp => doc.setChatSeen now chatId stamp
  | .deleteChat chatId => doc.deleteChat now chatId
  | .deleteSpace spaceId =>
    let (doc, deleted) := doc.deleteSpace now rawChat spaceId
    (doc, deleted.existed)

end Mutator

/-- The row displays the value; null stands for no field. -/
def RegistryRow.shows (row : RegistryRow) (field : String) (value : Json) : Prop :=
  row.fields[field]? = if value = .null then none else some value

namespace Mutator

variable (rawChat : Fields → Option RawChat) (doc : RegistryDoc) (now : Nat → Int)

/-- The next read agrees with the write: a row that was found displays what was
written (a seen marker is at least the one asked for), and what was deleted is gone. -/
def ReadsBack (mutator : Mutator) : Prop :=
  let next := (mutator.run rawChat doc now).1
  match mutator with
  | .deleteChat chatId => next.overlayRow kindChats chatId = none
  | .deleteSpace spaceId => next.overlayRow kindSpaces spaceId = none ∧
      ∀ chat ∈ next.readChats rawChat, chat.spaceId ≠ some spaceId
  | .setChatSeen chatId stamp => (mutator.run rawChat doc now).2 = true →
      ∃ row, next.overlayRow kindChats chatId = some row ∧ row.seenSince stamp = true
  | other => ∀ edit, other.edit = some edit → (mutator.run rawChat doc now).2 = true →
      ∃ row, next.overlayRow edit.kind edit.id = some row ∧
        ∀ field value, edit.set[field]? = some value → row.shows field value

/-- The stamp of the write beats the clocks of what it changes on the displayed row.
A chat of a deleted space also has to be listed for deletion under the id of its row. -/
def Prevails (mutator : Mutator) : Prop :=
  let hlc := (doc.nextHlc (now 0)).2
  match mutator with
  | .deleteChat chatId => ∀ row, doc.overlayRow kindChats chatId = some row →
      hlcNewer hlc row.maxClock = true
  | .deleteSpace spaceId =>
    (∀ row, doc.overlayRow kindSpaces spaceId = some row → hlcNewer hlc row.maxClock = true) ∧
    ∀ chatId row chat, doc.overlayRow kindChats chatId = some row →
      rawChat row.fields = some chat → chat.spaceId = some spaceId →
      chatId ∈ doc.spaceChatIds rawChat spaceId ∧ hlcNewer hlc row.maxClock = true
  | .setChatSeen chatId stamp => ∀ row, doc.overlayRow kindChats chatId = some row →
      row.seenSince stamp = true ∨ hlcNewer hlc row.clocks["lastSeenAt"]? = true
  | other => ∀ edit, other.edit = some edit → ∀ row, doc.overlayRow edit.kind edit.id = some row →
      ∀ field value, edit.set[field]? = some value →
        hlcNewer hlc row.clocks[field]? = true ∨ row.shows field value

end Mutator

section Reads

theorem Json.asI64?_toInt (stamp : Int64) : (Json.int stamp.toInt).asI64? = some stamp.toInt :=
  if_pos ⟨Int64.le_toInt stamp, Int64.toInt_lt stamp⟩

namespace RegistryDoc

variable {doc : RegistryDoc} {kind id : String} {row : RegistryRow}

theorem overlayRow_eq_some_iff :
    doc.overlayRow kind id = some row ↔ doc.overlaid kind id = some row ∧ row.deleted = false := by
  simp [overlayRow, Option.filter_eq_some_iff]

theorem overlayRow_eq_none_iff : doc.overlayRow kind id = none ↔
    isLive (doc.overlaid kind id) = false := by
  cases hrow : doc.overlaid kind id with
  | none => simp [overlayRow, hrow, isLive]
  | some row => cases hdeleted : row.deleted <;> simp [overlayRow, hrow, isLive, hdeleted]

theorem isLive_of_overlayRow (hrow : doc.overlayRow kind id = some row) :
    isLive (doc.overlaid kind id) = true ∧ standingClock (doc.overlaid kind id) = row.maxClock := by
  obtain ⟨hoverlaid, hpresent⟩ := overlayRow_eq_some_iff.1 hrow
  rw [hoverlaid, standingClock_live hpresent]
  exact ⟨by simp [isLive, hpresent], rfl⟩

theorem overlaid_write (op : OpKind) (set : Fields) (now : Nat → Int) :
    (doc.write kind id op set now).overlaid kind id =
      (applyOp (doc.overlaid kind id) (doc.writeOp kind id op set (now 0)).2).1 := by
  rw [write, overlaid_enqueueOps]
  simp only [writeOp, filter_cons, RowOp.on, decide_true, Bool.and_self, if_true, filter_nil]
  rfl

theorem overlayRow_update (set : Fields) (now : Nat → Int)
    (hrow : doc.overlayRow kind id = some row) :
    (doc.write kind id .update set now).overlayRow kind id =
      some ((doc.writeOp kind id .update set (now 0)).2.written row) := by
  obtain ⟨hoverlaid, hpresent⟩ := overlayRow_eq_some_iff.1 hrow
  refine overlayRow_eq_some_iff.2 ⟨?_, RowOp.written_deleted hpresent⟩
  rw [overlaid_write, hoverlaid]
  rcases applyOp_cases (some row) (doc.writeOp kind id .update set (now 0)).2 with ⟨hdelete, -⟩ |
      ⟨hupsert, -⟩ | ⟨-, base, hbase, -, hnext⟩ | ⟨-, -, hother, -⟩
  · cases hdelete
  · cases hupsert
  · rw [hnext, Option.some.inj hbase]
  · have hdead := hother fun habsurd => by cases habsurd
    simp [isLive, hpresent] at hdead

theorem update_fields {set : Fields} {nowMs : Int} {field : String} {value : Json}
    (hvalue : set[field]? = some value) :
    ((doc.writeOp kind id .update set nowMs).2.written row).fields[field]? =
      if hlcNewer (doc.nextHlc nowMs).2 row.clocks[field]? then
        (if value = .null then none else some value) else row.fields[field]? :=
  ((doc.writeOp kind id .update set nowMs).2.written_present hvalue).2

/-- A field displays the written value when the stamp is newer than its clock, or
when it displayed it before. -/
theorem written_shows_iff {set : Fields} {nowMs : Int} {field : String} {value : Json}
    (hvalue : set[field]? = some value) :
    ((doc.writeOp kind id .update set nowMs).2.written row).shows field value ↔
      hlcNewer (doc.nextHlc nowMs).2 row.clocks[field]? = true ∨ row.shows field value := by
  rw [RegistryRow.shows, update_fields hvalue]
  cases hnewer : hlcNewer (doc.nextHlc nowMs).2 row.clocks[field]? with
  | true => simp
  | false => simp [RegistryRow.shows]

theorem updateRow_readsBack_iff (set : Fields) (now : Nat → Int) :
    ((doc.updateRow now kind id set).2 = true →
      ∃ row, (doc.updateRow now kind id set).1.overlayRow kind id = some row ∧
        ∀ field value, set[field]? = some value → row.shows field value) ↔
      ∀ row, doc.overlayRow kind id = some row → ∀ field value, set[field]? = some value →
        hlcNewer (doc.nextHlc (now 0)).2 row.clocks[field]? = true ∨ row.shows field value := by
  cases hrow : doc.overlayRow kind id with
  | none => simp [updateRow, rowExists, hrow]
  | some row =>
    have hnext := overlayRow_update set now hrow
    simp only [updateRow, rowExists, hrow, Option.isSome_some, Bool.true_eq_false, if_false,
      forall_const, hnext, Option.some.injEq, exists_eq_left', forall_eq']
    refine forall_congr' fun field => forall_congr' fun value => imp_congr_right fun hvalue => ?_
    exact written_shows_iff hvalue

theorem setChatSeen_readsBack_iff (now : Nat → Int) (chatId : String) (stamp : Int64) :
    ((doc.setChatSeen now chatId stamp).2 = true →
      ∃ row, (doc.setChatSeen now chatId stamp).1.overlayRow kindChats chatId = some row ∧
        row.seenSince stamp = true) ↔
      ∀ row, doc.overlayRow kindChats chatId = some row → row.seenSince stamp = true ∨
        hlcNewer (doc.nextHlc (now 0)).2 row.clocks["lastSeenAt"]? = true := by
  cases hrow : doc.overlayRow kindChats chatId with
  | none => simp [setChatSeen, hrow]
  | some row =>
    simp only [setChatSeen, hrow, Option.some.injEq, forall_eq']
    cases hseen : row.seenSince stamp with
    | true => simp [hrow, hseen]
    | false =>
      have hvalue : (fields [("lastSeenAt", Json.int stamp.toInt)])["lastSeenAt"]? =
          some (.int stamp.toInt) := by
        simp [fields, ofList_singleton]
      simp only [Bool.false_eq_true, if_false, forall_const, overlayRow_update _ now hrow,
        Option.some.injEq, exists_eq_left', false_or]
      rw [RegistryRow.seenSince, update_fields hvalue]
      cases hnewer : hlcNewer (doc.nextHlc (now 0)).2 row.clocks["lastSeenAt"]? with
      | true => simp [Json.asI64?_toInt]
      | false => simpa [RegistryRow.seenSince] using hseen

variable {ops : List RowOp}

theorem isLive_applyOps_deletes {row : Option RegistryRow} (hdeletes : ∀ op ∈ ops, op.op = .delete)
    (hdead : isLive row = false) : isLive (applyOps row ops) = false := by
  induction ops generalizing row with
  | nil => exact hdead
  | cons op rest ih =>
    rw [forall_mem_cons] at hdeletes
    apply ih hdeletes.2
    rw [isLive_applyOp, hdeletes.1, hdead]
    simp [OpKind.leavesLive]

theorem applyOps_deletes_of_newer {hlc : String} {row : Option RegistryRow}
    (hdeletes : ∀ op ∈ ops, op.op = .delete ∧ op.hlc = hlc) (hops : ops ≠ [])
    (hnewer : hlcNewer hlc (standingClock row) = true) : isLive (applyOps row ops) = false := by
  obtain ⟨op, rest, rfl⟩ := exists_cons_of_ne_nil hops
  rw [forall_mem_cons] at hdeletes
  rw [applyOps_cons]
  apply isLive_applyOps_deletes (fun other hother => (hdeletes.2 other hother).1)
  rw [isLive_applyOp, hdeletes.1.1, hdeletes.1.2, if_pos hnewer]
  rfl

theorem applyOps_deletes_of_stale {hlc : String} {row : Option RegistryRow}
    (hdeletes : ∀ op ∈ ops, op.op = .delete ∧ op.hlc = hlc) (hlive : isLive row = true)
    (hstale : hlcNewer hlc (standingClock row) = false) : applyOps row ops = row := by
  apply applyOps_eq_self
  intro op hop
  obtain ⟨hdelete, hstamp⟩ := hdeletes op hop
  rcases applyOp_cases row op with ⟨-, hnewer, -⟩ | ⟨-, hdead, -⟩ | ⟨hwrite, -⟩ | ⟨hnext, -⟩
  · rw [hstamp, hstale] at hnewer
    cases hnewer
  · rw [hlive] at hdead
    cases hdead
  · exact absurd hdelete hwrite
  · exact hnext

theorem overlaid_deleteRowOps (keys : List (String × String)) (now : Nat → Int) (kind id : String) :
    (doc.deleteRowOps keys now).overlaid kind id = applyOps (doc.overlaid kind id)
      ((doc.deleteOps keys (now 0)).2.filter (RowOp.on kind id)) := by
  rw [deleteRowOps, overlaid_enqueueOps]
  rfl

/-- A displayed row that is deleted by a newer stamp is gone; otherwise the display
does not change. -/
theorem overlayRow_deleteRowOps (keys : List (String × String)) (now : Nat → Int)
    (kind id : String) :
    (doc.deleteRowOps keys now).overlayRow kind id =
      (doc.overlayRow kind id).filter fun row =>
        !(decide ((kind, id) ∈ keys) && hlcNewer (doc.nextHlc (now 0)).2 row.maxClock) := by
  have hon : ∀ op ∈ (doc.deleteOps keys (now 0)).2.filter (RowOp.on kind id),
      op.op = .delete ∧ op.hlc = (doc.nextHlc (now 0)).2 := by
    intro op hop
    obtain ⟨key, -, rfl⟩ := mem_map.mp (mem_of_mem_filter hop)
    exact ⟨rfl, rfl⟩
  have hnonempty : (kind, id) ∈ keys →
      (doc.deleteOps keys (now 0)).2.filter (RowOp.on kind id) ≠ [] := by
    intro hkey
    refine ne_nil_of_mem (a := ⟨kind, id, .delete, none, (doc.nextHlc (now 0)).2, none⟩) ?_
    exact mem_filter.mpr ⟨mem_map.mpr ⟨(kind, id), hkey, rfl⟩, by simp [RowOp.on]⟩
  have hempty : (kind, id) ∉ keys →
      (doc.deleteOps keys (now 0)).2.filter (RowOp.on kind id) = [] := by
    intro hkey
    rw [filter_eq_nil_iff]
    intro op hop hmatch
    obtain ⟨key, hmem, rfl⟩ := mem_map.mp hop
    simp only [RowOp.on, Bool.and_eq_true, decide_eq_true_eq] at hmatch
    exact hkey (hmatch.1 ▸ hmatch.2 ▸ hmem)
  cases hrow : doc.overlayRow kind id with
  | none =>
    rw [Option.filter_none, overlayRow_eq_none_iff, overlaid_deleteRowOps]
    exact isLive_applyOps_deletes (fun op hop => (hon op hop).1) (overlayRow_eq_none_iff.1 hrow)
  | some row =>
    obtain ⟨hlive, hclock⟩ := isLive_of_overlayRow hrow
    by_cases hkey : (kind, id) ∈ keys
    · cases hnewer : hlcNewer (doc.nextHlc (now 0)).2 row.maxClock with
      | true =>
        have hgone := applyOps_deletes_of_newer hon (hnonempty hkey) (by rw [hclock, hnewer])
        rw [← overlaid_deleteRowOps, ← overlayRow_eq_none_iff] at hgone
        rw [hgone]
        simp [Option.filter, hkey, hnewer]
      | false =>
        have hkept := applyOps_deletes_of_stale hon hlive (by rw [hclock, hnewer])
        rw [← overlaid_deleteRowOps] at hkept
        rw [overlayRow, hkept, ← overlayRow, hrow]
        simp [Option.filter, hnewer]
    · rw [overlayRow, overlaid_deleteRowOps, hempty hkey]
      change doc.overlayRow kind id = _
      rw [hrow]
      simp [Option.filter, hkey]

theorem mem_foldl_overlayIds {ids : List String} :
    id ∈ ops.foldl (fun ids op => if op.kind = kind ∧ op.id ∉ ids then ids ++ [op.id] else ids) ids ↔
      id ∈ ids ∨ ∃ op ∈ ops, op.on kind id = true := by
  induction ops generalizing ids with
  | nil => simp
  | cons op rest ih =>
    rw [foldl_cons, ih]
    simp only [mem_cons, exists_eq_or_imp, RowOp.on, Bool.and_eq_true, decide_eq_true_eq]
    split <;> grind

theorem mem_overlayIds_iff :
    id ∈ doc.overlayIds kind ↔ (rowAt doc.authoritative kind id).isSome = true ∨
      ∃ op ∈ doc.pendingOps, op.on kind id = true := by
  rw [overlayIds, ← foldl_flatMap, mem_foldl_overlayIds, pendingOps, rowAt]
  apply or_congr_left
  cases hkind : doc.authoritative[kind]? with
  | none => simp
  | some byId =>
    simp only [Option.getD_some, mem_map, Prod.exists, exists_and_right, exists_eq_right,
      mem_toList_iff_getElem?_eq_some, Option.bind_some, Option.isSome_iff_exists]

theorem mem_overlayIds (hrow : doc.overlayRow kind id = some row) : id ∈ doc.overlayIds kind := by
  rw [mem_overlayIds_iff]
  by_contra hnone
  rw [not_or, Bool.not_eq_true, Option.isSome_eq_false_iff, Option.isNone_iff_eq_none] at hnone
  obtain ⟨hoverlaid, -⟩ := overlayRow_eq_some_iff.1 hrow
  have hops : doc.pendingOps.filter (RowOp.on kind id) = [] := by
    rw [filter_eq_nil_iff]
    exact fun op hop hon => hnone.2 ⟨op, hop, hon⟩
  rw [overlaid_eq, hops, hnone.1] at hoverlaid
  cases hoverlaid

theorem mem_readChats_iff {rawChat : Fields → Option RawChat} {chat : RawChat} :
    chat ∈ doc.readChats rawChat ↔
      ∃ id row, doc.overlayRow kindChats id = some row ∧ rawChat row.fields = some chat := by
  rw [readChats, mem_mergeSort, mem_filterMap]
  constructor
  · rintro ⟨row, hrow, hchat⟩
    obtain ⟨id, -, hid⟩ := mem_filterMap.mp hrow
    exact ⟨id, row, hid, hchat⟩
  · rintro ⟨id, row, hrow, hchat⟩
    exact ⟨row, mem_filterMap.mpr ⟨id, mem_overlayIds hrow, hrow⟩, hchat⟩

theorem deleteChat_readsBack_iff (now : Nat → Int) (chatId : String) :
    (doc.deleteChat now chatId).1.overlayRow kindChats chatId = none ↔
      ∀ row, doc.overlayRow kindChats chatId = some row →
        hlcNewer (doc.nextHlc (now 0)).2 row.maxClock = true := by
  rw [deleteChat, overlayRow_deleteRowOps, Option.filter_eq_none_iff]
  simp

theorem deleteSpace_readsBack_iff (now : Nat → Int) (rawChat : Fields → Option RawChat)
    (spaceId : String) :
    ((doc.deleteSpace now rawChat spaceId).1.overlayRow kindSpaces spaceId = none ∧
        ∀ chat ∈ (doc.deleteSpace now rawChat spaceId).1.readChats rawChat,
          chat.spaceId ≠ some spaceId) ↔
      (∀ row, doc.overlayRow kindSpaces spaceId = some row →
        hlcNewer (doc.nextHlc (now 0)).2 row.maxClock = true) ∧
      ∀ chatId row chat, doc.overlayRow kindChats chatId = some row →
        rawChat row.fields = some chat → chat.spaceId = some spaceId →
        chatId ∈ doc.spaceChatIds rawChat spaceId ∧
          hlcNewer (doc.nextHlc (now 0)).2 row.maxClock = true := by
  have hspace : ∀ chatIds : List String, (kindSpaces, spaceId) ∈
      chatIds.flatMap (fun chatId => [(kindChats, chatId), (kindSessions, chatId)]) ++
        [(kindSpaces, spaceId)] := fun _ => mem_append_right _ (by simp)
  have hchat : ∀ (chatIds : List String) (chatId : String), (kindChats, chatId) ∈
      chatIds.flatMap (fun chatId => [(kindChats, chatId), (kindSessions, chatId)]) ++
        [(kindSpaces, spaceId)] ↔ chatId ∈ chatIds := by
    intro chatIds chatId
    simp [kindChats, kindSessions, kindSpaces]
  refine and_congr ?_ ?_
  · rw [deleteSpace, overlayRow_deleteRowOps, Option.filter_eq_none_iff]
    simp
  · constructor
    · intro hgone chatId row chat hrow hraw hof
      by_contra hstays
      refine hgone chat (mem_readChats_iff.2 ⟨chatId, row, ?_, hraw⟩) hof
      rw [deleteSpace, overlayRow_deleteRowOps, hrow, Option.filter, if_pos]
      rw [Bool.not_eq_true', Bool.and_eq_false_iff, decide_eq_false_iff_not, hchat]
      rw [not_and_or, Bool.not_eq_true] at hstays
      exact hstays
    · intro hlisted chat hmem hof
      obtain ⟨chatId, row, hrow, hraw⟩ := mem_readChats_iff.1 hmem
      rw [deleteSpace, overlayRow_deleteRowOps, Option.filter_eq_some_iff] at hrow
      obtain ⟨hid, hnewer⟩ := hlisted chatId row chat hrow.1 hraw hof
      have hkept := hrow.2
      rw [hnewer, decide_eq_true ((hchat _ chatId).mpr hid)] at hkept
      cases hkept

end RegistryDoc

namespace Mutator

/-- A write shows in the next read exactly when its stamp prevails. -/
theorem readsBack_iff (rawChat : Fields → Option RawChat) (doc : RegistryDoc) (now : Nat → Int)
    (mutator : Mutator) : mutator.ReadsBack rawChat doc now ↔ mutator.Prevails rawChat doc now := by
  cases mutator with
  | deleteChat chatId => exact RegistryDoc.deleteChat_readsBack_iff now chatId
  | deleteSpace spaceId => exact RegistryDoc.deleteSpace_readsBack_iff now rawChat spaceId
  | setChatSeen chatId stamp => exact RegistryDoc.setChatSeen_readsBack_iff now chatId stamp
  | _ =>
    -- Every other write is an update of the fields its edit names.
    simp only [ReadsBack, Prevails, edit, Option.some.injEq, forall_eq']
    exact RegistryDoc.updateRow_readsBack_iff _ now

/-- A chat that another device, whose wall clock runs ahead, has named. -/
def aheadDoc : RegistryDoc :=
  (RegistryDoc.new "d1").applyRows 1
    [{ kind := kindChats, id := "c1", seq := 1, deleted := false, delHlc := none
       fields := fields [("id", .string "c1"), ("title", .string "theirs")]
       clocks := Std.ExtTreeMap.ofList [("id", encodeHlc 2000 0 "d2"), ("title", encodeHlc 2000 0 "d2")] }]

/-- The rename reports success and does not show; the deletion does not remove. -/
theorem aheadDoc_ignores_writes :
    (aheadDoc.renameChat (fun _ => 1000) "c1" "mine").2 = true ∧
      ((aheadDoc.renameChat (fun _ => 1000) "c1" "mine").1.overlayRow kindChats "c1").bind
        (fun row => row.fields["title"]?) = some (.string "theirs") ∧
      ((aheadDoc.deleteChat (fun _ => 1000) "c1").1.overlayRow kindChats "c1").isSome = true ∧
      ¬(Mutator.renameChat "c1" "mine").ReadsBack (fun _ => none) aheadDoc (fun _ => 1000) := by
  refine ⟨by decide, by decide, by decide, ?_⟩
  intro hreads
  obtain ⟨row, hrow, hshows⟩ := hreads _ rfl (by decide)
  have htitle := hshows "title" (.string "mine") (by decide)
  have hold : ((aheadDoc.renameChat (fun _ => 1000) "c1" "mine").1.overlayRow kindChats "c1").bind
      (fun row => row.fields["title"]?) = some (.string "theirs") := by decide
  rw [show (aheadDoc.renameChat (fun _ => 1000) "c1" "mine").1.overlayRow kindChats "c1" = some row
    from hrow, Option.bind_some, htitle] at hold
  exact absurd hold (by decide)

end Mutator

end Reads

end Keel
