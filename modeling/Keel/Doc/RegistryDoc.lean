import Keel.Doc.RegistryReplay

/-! # The local registry replica

A replica holds the server's rows, the batches of local operations that the
server has not acknowledged, and a clock. Server frames replace rows wholesale;
local writes only queue. Every read lays the queue over the server's rows.

The wall clock is read anew for each clock tick, so an operation that may tick
several times takes the successive readings as a function. The rows live in hash
maps; where the order of iteration shows in the result it is an argument.
-/

namespace Keel

open List

/-- kind → id → row. -/
abbrev Rows := Std.ExtTreeMap String (Std.ExtTreeMap String RegistryRow compare) compare

def rowAt (rows : Rows) (kind id : String) : Option RegistryRow :=
  rows[kind]?.bind fun byId => byId[id]?

/-- File a row under its own kind and id. -/
def putRow (rows : Rows) (row : RegistryRow) : Rows :=
  rows.insert row.kind ((rows[row.kind]?.getD ∅).insert row.id row)

def putRows (rows : Rows) (incoming : List RegistryRow) : Rows := incoming.foldl putRow rows

def allRows (rows : Rows) : List RegistryRow :=
  rows.toList.flatMap fun entry => entry.2.toList.map Prod.snd

structure PendingBatch where
  batch : String
  ops : List RowOp
  /-- Pushed on the current connection. -/
  inFlight : Bool
deriving DecidableEq

inductive StateOutcome where
  | delta
  | replaced
  /-- Local rows were kept or missing on the server, and were queued as writes. -/
  | reseeded

structure RegistryDoc where
  deviceId : String
  authoritative : Rows := ∅
  serverSeq : Nat := 0
  gcFloor : Nat := 0
  clock : HlcClock := {}
  pending : List PendingBatch := []
  /-- Counts every mutation, local or applied. -/
  generation : Nat := 0
deriving DecidableEq

def maxOpsPerBatch : Nat := 400

namespace RegistryDoc

def new (deviceId : String) : RegistryDoc := { deviceId }

def cursor (doc : RegistryDoc) : Nat := doc.serverSeq

def pendingLen (doc : RegistryDoc) : Nat := doc.pending.length

def nextHlc (doc : RegistryDoc) (nowMs : Int) : RegistryDoc × String :=
  let (clock, hlc) := doc.clock.next nowMs doc.deviceId
  ({ doc with clock }, hlc)

/-- Cut the ops into batches, each with an id from a fresh clock tick. Every round
takes at least one op, so the number of ops is fuel enough. -/
def enqueueChunks : Nat → RegistryDoc → List RowOp → (Nat → Int) → RegistryDoc
  | 0, doc, _, _ => doc
  | fuel + 1, doc, ops, now =>
    if ops.isEmpty then doc
    else
      let tail := if ops.length > maxOpsPerBatch then ops.drop maxOpsPerBatch else []
      let head := ops.take maxOpsPerBatch
      let (doc, hlc) := doc.nextHlc (now 0)
      enqueueChunks fuel
        { doc with pending := doc.pending ++ [{ batch := "b-" ++ hlc, ops := head, inFlight := false }] }
        tail fun tick => now (tick + 1)

def enqueueOps (doc : RegistryDoc) (ops : List RowOp) (now : Nat → Int) : RegistryDoc :=
  if ops.isEmpty then doc
  else enqueueChunks ops.length { doc with generation := doc.generation + 1 } ops now

/-- The op of a local write, and the replica whose clock ticked for it. -/
def writeOp (doc : RegistryDoc) (kind id : String) (op : OpKind) (set : Fields) (nowMs : Int) :
    RegistryDoc × RowOp :=
  let (doc, hlc) := doc.nextHlc nowMs
  (doc, { kind, id, op, set := some set, hlc, clocks := none })

def write (doc : RegistryDoc) (kind id : String) (op : OpKind) (set : Fields) (now : Nat → Int) :
    RegistryDoc :=
  let (doc, op) := doc.writeOp kind id op set (now 0)
  doc.enqueueOps [op] fun tick => now (tick + 1)

/-- The deletes of several rows share one clock. -/
def deleteOps (doc : RegistryDoc) (keys : List (String × String)) (nowMs : Int) :
    RegistryDoc × List RowOp :=
  let (doc, hlc) := doc.nextHlc nowMs
  (doc, keys.map fun (kind, id) => { kind, id, op := .delete, set := none, hlc, clocks := none })

def deleteRowOps (doc : RegistryDoc) (keys : List (String × String)) (now : Nat → Int) :
    RegistryDoc :=
  let (doc, ops) := doc.deleteOps keys (now 0)
  doc.enqueueOps ops fun tick => now (tick + 1)

/-- The rows that a `state` frame makes the replica write back to the server, `visit`
being the order in which it walks its own rows. A server behind the replica has lost
its storage; one that is not may still lack some of the rows. -/
def stateSeed (doc : RegistryDoc) (seq : Nat) (full : Bool) (rows visit : List RegistryRow) :
    List RowOp :=
  if !full then []
  else if seq < doc.serverSeq then visit.map rowToSeedOp
  else
    let incoming := putRows ∅ rows
    (visit.filter fun row => (rowAt incoming row.kind row.id).isNone).map rowToSeedOp

def applyState (doc : RegistryDoc) (seq : Nat) (full : Bool) (gcFloor : Nat)
    (rows visit : List RegistryRow) (now : Nat → Int) : RegistryDoc × StateOutcome :=
  let seed := doc.stateSeed seq full rows visit
  let behind := seq < doc.serverSeq
  let doc := { doc with generation := doc.generation + 1, serverSeq := seq, gcFloor }
  if !full then ({ doc with authoritative := putRows doc.authoritative rows }, .delta)
  else if behind then
    ({ doc with authoritative := putRows doc.authoritative rows }.enqueueOps seed now, .reseeded)
  else
    let doc := { doc with authoritative := putRows ∅ rows }
    if seed.isEmpty then (doc, .replaced) else (doc.enqueueOps seed now, .reseeded)

def applyRows (doc : RegistryDoc) (seq : Nat) (rows : List RegistryRow) : RegistryDoc :=
  { doc with
    generation := doc.generation + 1
    authoritative := putRows doc.authoritative rows
    serverSeq := if seq > doc.serverSeq then seq else doc.serverSeq }

def ackBatch (doc : RegistryDoc) (batch : String) (seq : Nat) : RegistryDoc × Bool :=
  let kept := doc.pending.filter fun entry => entry.batch ≠ batch
  let retired := kept.length ≠ doc.pending.length
  ({ doc with
      pending := kept
      serverSeq := if seq > doc.serverSeq then seq else doc.serverSeq
      generation := if retired then doc.generation + 1 else doc.generation }, retired)

/-- Everything not pushed on this connection yet. -/
def takePushable (doc : RegistryDoc) : RegistryDoc × List PendingBatch :=
  ({ doc with pending := doc.pending.map fun entry => { entry with inFlight := true } },
    (doc.pending.filter fun entry => !entry.inFlight).map fun entry => { entry with inFlight := true })

def markDisconnected (doc : RegistryDoc) : RegistryDoc :=
  { doc with pending := doc.pending.map fun entry => { entry with inFlight := false } }

/-- The server's row under every queued op on it. An update of a missing row leaves
it missing. -/
def overlaid (doc : RegistryDoc) (kind id : String) : Option RegistryRow :=
  doc.pending.foldl (fun row entry =>
    entry.ops.foldl (fun row op =>
      if op.kind = kind ∧ op.id = id then (applyOp row op).1.or row else row) row)
    (rowAt doc.authoritative kind id)

def overlayRow (doc : RegistryDoc) (kind id : String) : Option RegistryRow :=
  (doc.overlaid kind id).filter fun row => !row.deleted

def overlayIds (doc : RegistryDoc) (kind : String) : List String :=
  doc.pending.foldl (fun ids entry =>
    entry.ops.foldl (fun ids op =>
      if op.kind = kind ∧ op.id ∉ ids then ids ++ [op.id] else ids) ids)
    ((doc.authoritative[kind]?.getD ∅).toList.map Prod.fst)

def overlayRows (doc : RegistryDoc) (kind : String) : List RegistryRow :=
  (doc.overlayIds kind).filterMap (doc.overlayRow kind)

def rowExists (doc : RegistryDoc) (kind id : String) : Bool := (doc.overlayRow kind id).isSome

end RegistryDoc

/-- What a snapshot holds of a batch; whether it was pushed is not kept. -/
structure PersistedBatch where
  batch : String
  ops : List RowOp
deriving DecidableEq

structure PersistedState where
  v : Nat
  deviceId : String
  serverSeq : Nat
  gcFloor : Nat
  clock : HlcClock
  rows : List RegistryRow
  pending : List PersistedBatch
deriving DecidableEq

/-- Why a snapshot is refused. -/
inductive SnapshotError where
  | json
  | schema (message : String)

/-- The JSON printer and parser of snapshots. -/
structure SnapshotCodec where
  toVec : PersistedState → List UInt8
  fromSlice : List UInt8 → Option PersistedState

namespace RegistryDoc

def persisted (doc : RegistryDoc) : PersistedState :=
  { v := 1
    deviceId := doc.deviceId
    serverSeq := doc.serverSeq
    gcFloor := doc.gcFloor
    clock := doc.clock
    rows := allRows doc.authoritative
    pending := doc.pending.map fun entry => { batch := entry.batch, ops := entry.ops } }

def toBytes (codec : SnapshotCodec) (doc : RegistryDoc) : List UInt8 := codec.toVec doc.persisted

/-- The replica of a snapshot. The device id comes from the caller. -/
def restored (state : PersistedState) (deviceId : String) : RegistryDoc :=
  { new deviceId with
    serverSeq := state.serverSeq
    gcFloor := state.gcFloor
    clock := state.clock
    pending := state.pending.map fun entry => { batch := entry.batch, ops := entry.ops, inFlight := false }
    authoritative := putRows ∅ state.rows }

def fromBytes (codec : SnapshotCodec) (bytes : List UInt8) (deviceId : String) :
    Except SnapshotError RegistryDoc :=
  match codec.fromSlice bytes with
  | none => .error .json
  | some state =>
    if state.v ≠ 1 then .error (.schema s!"unknown registry snapshot version {state.v}")
    else .ok (restored state deviceId)

end RegistryDoc

section Rows

variable {rows : Rows} {kind id : String}

@[simp] theorem rowAt_empty : rowAt ∅ kind id = none := by
  simp [rowAt]

theorem rowAt_putRow (row : RegistryRow) :
    rowAt (putRow rows row) kind id =
      if row.kind = kind ∧ row.id = id then some row else rowAt rows kind id := by
  simp only [rowAt, putRow, Std.ExtTreeMap.getElem?_insert, compare_eq_iff_eq]
  by_cases hkind : row.kind = kind
  · subst hkind
    by_cases hid : row.id = id
    · simp [hid]
    · cases hrows : rows[row.kind]? with
      | none => simp [hid]
      | some byId => simp [hid, Std.ExtTreeMap.getElem?_insert]
  · simp [hkind]

/-- Every row is filed under its own kind and id. -/
def Filed (rows : Rows) : Prop :=
  ∀ kind id row, rowAt rows kind id = some row → row.kind = kind ∧ row.id = id

theorem filed_empty : Filed ∅ := by
  intro kind id row hrow
  simp at hrow

theorem Filed.putRow (hrows : Filed rows) (row : RegistryRow) : Filed (putRow rows row) := by
  intro kind id other hother
  rw [rowAt_putRow] at hother
  split at hother
  next hkey => rw [← Option.some.inj hother]; exact hkey
  · exact hrows kind id other hother

theorem Filed.putRows (hrows : Filed rows) (incoming : List RegistryRow) :
    Filed (putRows rows incoming) := by
  induction incoming generalizing rows with
  | nil => exact hrows
  | cons row rest ih => exact ih (hrows.putRow row)

theorem mem_allRows_iff (hrows : Filed rows) (row : RegistryRow) :
    row ∈ allRows rows ↔ rowAt rows row.kind row.id = some row := by
  simp only [allRows, mem_flatMap, mem_map, Prod.exists,
    Std.ExtTreeMap.mem_toList_iff_getElem?_eq_some, exists_eq_right]
  constructor
  · rintro ⟨kind, byId, hkind, id, hid⟩
    have hrow : rowAt rows kind id = some row := by simp [rowAt, hkind, hid]
    obtain ⟨rfl, rfl⟩ := hrows kind id row hrow
    exact hrow
  · intro hrow
    obtain ⟨byId, hkind, hid⟩ := Option.bind_eq_some_iff.mp hrow
    exact ⟨row.kind, byId, hkind, row.id, hid⟩

/-- Filing rows twice over two tables that agree outside them gives tables that
agree. -/
theorem rowAt_putRows_congr {first second : Rows} (incoming : List RegistryRow)
    (hsame : (∀ row ∈ incoming, ¬(row.kind = kind ∧ row.id = id)) →
      rowAt first kind id = rowAt second kind id) :
    rowAt (putRows first incoming) kind id = rowAt (putRows second incoming) kind id := by
  induction incoming generalizing first second with
  | nil => exact hsame (by simp)
  | cons row rest ih =>
    apply ih
    intro hrest
    rw [rowAt_putRow, rowAt_putRow]
    split
    · rfl
    next hkey => exact hsame (forall_mem_cons.mpr ⟨hkey, hrest⟩)

variable {incoming : List RegistryRow}

theorem rowAt_putRows_of_absent (habsent : ∀ row ∈ incoming, ¬(row.kind = kind ∧ row.id = id)) :
    rowAt (putRows rows incoming) kind id = rowAt rows kind id := by
  induction incoming generalizing rows with
  | nil => rfl
  | cons row rest ih =>
    rw [forall_mem_cons] at habsent
    rw [putRows, foldl_cons]
    apply (ih habsent.2).trans
    rw [rowAt_putRow, if_neg habsent.1]

theorem rowAt_putRows_cases {row : RegistryRow}
    (hrow : rowAt (putRows rows incoming) kind id = some row) :
    (row ∈ incoming ∧ row.kind = kind ∧ row.id = id) ∨ rowAt rows kind id = some row := by
  induction incoming generalizing rows with
  | nil => exact .inr hrow
  | cons head rest ih =>
    rcases ih hrow with ⟨hmem, hkey⟩ | hearlier
    · exact .inl ⟨mem_cons_of_mem _ hmem, hkey⟩
    · rw [rowAt_putRow] at hearlier
      split at hearlier
      next hkey =>
        cases hearlier
        exact .inl ⟨mem_cons_self, hkey⟩
      · exact .inr hearlier

theorem isSome_rowAt_putRows {row : RegistryRow} (hrow : rowAt rows kind id = some row) :
    (rowAt (putRows rows incoming) kind id).isSome = true := by
  induction incoming generalizing rows row with
  | nil => exact Option.isSome_iff_exists.mpr ⟨row, hrow⟩
  | cons head rest ih =>
    by_cases hkey : head.kind = kind ∧ head.id = id
    · have hhead : rowAt (putRow rows head) kind id = some head := by
        rw [rowAt_putRow, if_pos hkey]
      exact ih hhead
    · have hkept : rowAt (putRow rows head) kind id = some row := by
        rw [rowAt_putRow, if_neg hkey, hrow]
      exact ih hkept

/-- Where the incoming rows are those of a table, they end up as it has them. -/
theorem rowAt_putRows_of_mem {table : Rows}
    (htable : ∀ row ∈ incoming, rowAt table row.kind row.id = some row)
    (hmem : ∃ row ∈ incoming, row.kind = kind ∧ row.id = id) :
    rowAt (putRows rows incoming) kind id = rowAt table kind id := by
  induction incoming generalizing rows with
  | nil =>
    obtain ⟨row, hrow, -⟩ := hmem
    cases hrow
  | cons head rest ih =>
    rw [forall_mem_cons] at htable
    by_cases hrest : ∃ row ∈ rest, row.kind = kind ∧ row.id = id
    · exact ih htable.2 hrest
    · push Not at hrest
      have habsent : ∀ row ∈ rest, ¬(row.kind = kind ∧ row.id = id) :=
        fun row hrow hkey => hrest row hrow hkey.1 hkey.2
      obtain ⟨row, hrow, rfl, rfl⟩ := hmem
      rcases mem_cons.mp hrow with rfl | hlater
      · rw [putRows, foldl_cons]
        apply (rowAt_putRows_of_absent habsent).trans
        rw [rowAt_putRow, if_pos ⟨rfl, rfl⟩, htable.1]
      · exact absurd ⟨rfl, rfl⟩ (habsent row hlater)

end Rows

section Queue

/-- Clock ticks name batches one after the other. -/
inductive Mints (device : String) : HlcClock → List String → HlcClock → Prop where
  | done (clock : HlcClock) : Mints device clock [] clock
  | tick {clock last : HlcClock} {ids : List String} (nowMs : Int)
      (hrest : Mints device (clock.next nowMs device).1 ids last) :
      Mints device clock (("b-" ++ (clock.next nowMs device).2) :: ids) last

namespace RegistryDoc

/-- What queueing ops adds: batches of bounded size, in order, under fresh ids. -/
structure Enqueued (doc next : RegistryDoc) (ops : List RowOp) (batches : List PendingBatch) :
    Prop where
  pending : next.pending = doc.pending ++ batches
  ops : batches.flatMap PendingBatch.ops = ops
  size : ∀ entry ∈ batches, 1 ≤ entry.ops.length ∧ entry.ops.length ≤ maxOpsPerBatch
  idle : ∀ entry ∈ batches, entry.inFlight = false
  minted : Mints doc.deviceId doc.clock (batches.map PendingBatch.batch) next.clock
  deviceId : next.deviceId = doc.deviceId
  authoritative : next.authoritative = doc.authoritative
  serverSeq : next.serverSeq = doc.serverSeq

theorem Enqueued.none (doc : RegistryDoc) : Enqueued doc doc [] [] :=
  ⟨by simp, rfl, by simp, by simp, .done _, rfl, rfl, rfl⟩

theorem enqueueChunks_enqueued (fuel : Nat) (doc : RegistryDoc) (ops : List RowOp)
    (now : Nat → Int) (hfuel : ops.length ≤ fuel) :
    ∃ batches, Enqueued doc (enqueueChunks fuel doc ops now) ops batches := by
  induction fuel generalizing doc ops now with
  | zero =>
    obtain rfl := eq_nil_of_length_eq_zero (Nat.le_zero.mp hfuel)
    exact ⟨[], .none doc⟩
  | succ fuel ih =>
    rw [enqueueChunks]
    split
    next hempty =>
      rw [isEmpty_iff.mp hempty]
      exact ⟨[], .none doc⟩
    next hops =>
      have hpos : 0 < ops.length := by
        rw [length_pos_iff]
        exact fun hnil => hops (by simp [hnil])
      have htail : (if ops.length > maxOpsPerBatch then ops.drop maxOpsPerBatch else []) =
          ops.drop maxOpsPerBatch := by
        split
        · rfl
        next hshort => rw [drop_eq_nil_of_le (not_lt.mp hshort)]
      simp only [htail, nextHlc]
      let head : PendingBatch :=
        { batch := "b-" ++ (doc.clock.next (now 0) doc.deviceId).2
          ops := ops.take maxOpsPerBatch, inFlight := false }
      obtain ⟨batches, hrest⟩ := ih
        { doc with
          clock := (doc.clock.next (now 0) doc.deviceId).1, pending := doc.pending ++ [head] }
        (ops.drop maxOpsPerBatch) (fun tick => now (tick + 1))
        (by rw [length_drop, maxOpsPerBatch]; omega)
      refine ⟨head :: batches, ?_, ?_, ?_, ?_, .tick (now 0) hrest.minted, hrest.deviceId,
        hrest.authoritative, hrest.serverSeq⟩
      · rw [hrest.pending, append_assoc, singleton_append]
      · rw [flatMap_cons, hrest.ops, take_append_drop]
      · refine forall_mem_cons.mpr ⟨?_, hrest.size⟩
        change 1 ≤ (ops.take maxOpsPerBatch).length ∧ (ops.take maxOpsPerBatch).length ≤ _
        rw [length_take, maxOpsPerBatch]
        omega
      · exact forall_mem_cons.mpr ⟨rfl, hrest.idle⟩

theorem enqueueOps_enqueued (doc : RegistryDoc) (ops : List RowOp) (now : Nat → Int) :
    ∃ batches, Enqueued doc (doc.enqueueOps ops now) ops batches := by
  rw [enqueueOps]
  split
  next hempty =>
    rw [isEmpty_iff.mp hempty]
    exact ⟨[], .none doc⟩
  · obtain ⟨batches, hrest⟩ := enqueueChunks_enqueued ops.length
      { doc with generation := doc.generation + 1 } ops now le_rfl
    exact ⟨batches, hrest.pending, hrest.ops, hrest.size, hrest.idle, hrest.minted, hrest.deviceId,
      hrest.authoritative, hrest.serverSeq⟩

def pendingOps (doc : RegistryDoc) : List RowOp := doc.pending.flatMap PendingBatch.ops

theorem pendingOps_enqueueOps (doc : RegistryDoc) (ops : List RowOp) (now : Nat → Int) :
    (doc.enqueueOps ops now).pendingOps = doc.pendingOps ++ ops := by
  obtain ⟨batches, hqueued⟩ := doc.enqueueOps_enqueued ops now
  rw [pendingOps, hqueued.pending, flatMap_append, hqueued.ops, pendingOps]

/-- A `state` frame replaces rows and the cursor, then queues the rows that the
server lacks. -/
theorem applyState_enqueued (doc : RegistryDoc) (seq : Nat) (full : Bool) (gcFloor : Nat)
    (rows visit : List RegistryRow) (now : Nat → Int) :
    ∃ (middle : RegistryDoc) (batches : List PendingBatch),
      Enqueued middle (doc.applyState seq full gcFloor rows visit now).1
        (doc.stateSeed seq full rows visit) batches ∧
      middle.pending = doc.pending ∧ middle.deviceId = doc.deviceId ∧ middle.clock = doc.clock ∧
      middle.serverSeq = seq ∧ middle.authoritative =
        putRows (if full = true ∧ doc.serverSeq ≤ seq then ∅ else doc.authoritative) rows := by
  simp only [applyState]
  split
  next hdelta =>
    have hseed : doc.stateSeed seq full rows visit = [] := by rw [stateSeed, if_pos hdelta]
    rw [hseed]
    refine ⟨_, [], .none _, rfl, rfl, rfl, rfl, ?_⟩
    rw [if_neg (fun h => by simp [h.1] at hdelta)]
  next hfull =>
    split
    next hbehind =>
      obtain ⟨batches, hqueued⟩ := enqueueOps_enqueued
        { doc with
          generation := doc.generation + 1, serverSeq := seq, gcFloor
          authoritative := putRows doc.authoritative rows }
        (doc.stateSeed seq full rows visit) now
      refine ⟨_, batches, hqueued, rfl, rfl, rfl, rfl, ?_⟩
      rw [if_neg (fun h => not_lt.mpr h.2 hbehind)]
    next hbehind =>
      have hreplaced : full = true ∧ doc.serverSeq ≤ seq := ⟨by simpa using hfull, not_lt.mp hbehind⟩
      rw [if_pos hreplaced]
      split
      next hseed =>
        rw [isEmpty_iff.mp hseed]
        exact ⟨_, [], .none _, rfl, rfl, rfl, rfl, rfl⟩
      · obtain ⟨batches, hqueued⟩ := enqueueOps_enqueued
          { doc with
            generation := doc.generation + 1, serverSeq := seq, gcFloor
            authoritative := putRows ∅ rows }
          (doc.stateSeed seq full rows visit) now
        exact ⟨_, batches, hqueued, rfl, rfl, rfl, rfl, rfl⟩

end RegistryDoc

end Queue

section Overlay

theorem applyOp_or (row : Option RegistryRow) (op : RowOp) :
    (applyOp row op).1.or row = (applyOp row op).1 := by
  rcases applyOp_cases row op with ⟨-, -, gone, hnext, -⟩ | ⟨-, -, -, base, hnext, -⟩ |
      ⟨-, base, -, -, hnext⟩ | ⟨hnext, -⟩
  · rw [hnext, Option.some_or]
  · rw [hnext, Option.some_or]
  · rw [hnext, Option.some_or]
  · rw [hnext, Option.or_self]

def RowOp.on (kind id : String) (op : RowOp) : Bool := op.kind = kind && op.id = id

namespace RegistryDoc

theorem overlaid_eq (doc : RegistryDoc) (kind id : String) :
    doc.overlaid kind id =
      applyOps (rowAt doc.authoritative kind id) (doc.pendingOps.filter (RowOp.on kind id)) := by
  have hops : ∀ (ops : List RowOp) (row : Option RegistryRow),
      ops.foldl (fun row op =>
        if op.kind = kind ∧ op.id = id then (applyOp row op).1.or row else row) row =
      applyOps row (ops.filter (RowOp.on kind id)) := by
    intro ops
    induction ops with
    | nil => exact fun _ => rfl
    | cons op rest ih =>
      intro row
      rw [foldl_cons, ih, filter_cons]
      by_cases hon : op.kind = kind ∧ op.id = id
      · rw [if_pos hon, if_pos (by simp [RowOp.on, hon]), applyOps_cons, applyOp_or]
      · rw [if_neg hon, if_neg (by simpa [RowOp.on] using hon)]
  rw [overlaid, ← foldl_flatMap]
  exact hops doc.pendingOps _

theorem overlaid_enqueueOps (doc : RegistryDoc) (ops : List RowOp) (now : Nat → Int)
    (kind id : String) :
    (doc.enqueueOps ops now).overlaid kind id =
      applyOps (doc.overlaid kind id) (ops.filter (RowOp.on kind id)) := by
  obtain ⟨batches, hqueued⟩ := doc.enqueueOps_enqueued ops now
  rw [overlaid_eq, overlaid_eq, pendingOps_enqueueOps, hqueued.authoritative, filter_append,
    applyOps, applyOps, applyOps, foldl_append]

end RegistryDoc

end Overlay

end Keel
