import Mathlib.Data.List.Basic

/-! # Local store: snapshots and the processed-command ledger

Rows are keyed tables. `Bytes` is the type of a saved document. Claiming an id
in the ledger is one insert-or-ignore statement, so exactly one claim of an id
reports that it inserted the row.
-/

namespace Keel

open List

/-- One row of the snapshot table. -/
structure SnapshotRow (Bytes : Type) where
  docId : String
  bytes : Bytes
  cursor : Nat
  epoch : Nat

structure DocsStore (Bytes : Type) where
  snapshots : List (SnapshotRow Bytes)
  /-- Claimed command ids with the time of the claim. -/
  processed : List (String × Int)

namespace DocsStore

variable {Bytes : Type} (store : DocsStore Bytes)

def loadSnapshot (docId : String) : Option Bytes :=
  (store.snapshots.find? fun row => row.docId == docId).map SnapshotRow.bytes

def hasSnapshot (docId : String) : Bool := store.snapshots.any fun row => row.docId == docId

/-- Upsert the snapshot of a document, keeping its cursor and epoch. -/
def saveSnapshot (docId : String) (bytes : Bytes) : DocsStore Bytes :=
  match store.snapshots.find? fun row => row.docId == docId with
  | some row => { store with snapshots :=
      { row with bytes } :: store.snapshots.filter fun row => row.docId != docId }
  | none => { store with snapshots := ⟨docId, bytes, 0, 0⟩ :: store.snapshots }

/-- Upsert the snapshot of a document together with its cursor and epoch. -/
def saveSnapshotWithCursor (docId : String) (bytes : Bytes) (cursor epoch : Nat) :
    DocsStore Bytes :=
  { store with snapshots :=
      ⟨docId, bytes, cursor, epoch⟩ :: store.snapshots.filter fun row => row.docId != docId }

def isProcessed (commandId : String) : Bool := store.processed.any fun row => row.1 == commandId

/-- Insert a ledger row unless its id is present; the flag reports an insert. -/
def insertOrIgnore (commandId : String) (at_ : Int) : DocsStore Bytes × Bool :=
  if store.isProcessed commandId then (store, false)
  else ({ store with processed := (commandId, at_) :: store.processed }, true)

def markProcessed (commandId : String) (nowMs : Int) : DocsStore Bytes × Bool :=
  store.insertOrIgnore commandId nowMs

def processedCommands : List (String × Int) := store.processed

/-- Merge foreign claims; existing claims win. Returns the number inserted. -/
def importProcessedCommands (rows : List (String × Int)) : DocsStore Bytes × Nat :=
  rows.foldl (fun (store, inserted) row =>
    let (store, changed) := store.insertOrIgnore row.1 row.2
    (store, inserted + if changed then 1 else 0)) (store, 0)

variable {store}

variable {commandId docId : String} {nowMs : Int} {bytes : Bytes}

@[simp] theorem isProcessed_iff :
    store.isProcessed commandId = true ↔ commandId ∈ store.processed.map Prod.fst := by
  simp [isProcessed]

theorem isProcessed_congr {other : DocsStore Bytes} (hprocessed : other.processed = store.processed) :
    other.isProcessed = store.isProcessed := by
  funext commandId
  simp only [isProcessed, hprocessed]

/-- After a claim the ledger holds the claimed id and everything it held before. -/
@[simp] theorem isProcessed_markProcessed {other : String} :
    (store.markProcessed commandId nowMs).1.isProcessed other =
      (other == commandId || store.isProcessed other) := by
  unfold markProcessed insertOrIgnore
  split
  next hpresent =>
    cases heq : other == commandId with
    | false => simp
    | true =>
      rw [beq_iff_eq.mp heq, hpresent]
      simp
  · simp [isProcessed, Bool.beq_comm]

theorem isProcessed_importProcessedCommands {rows : List (String × Int)} {other : String} :
    (store.importProcessedCommands rows).1.isProcessed other =
      (rows.any (fun row => row.1 == other) || store.isProcessed other) := by
  have hfold : ∀ (rows : List (String × Int)) (store : DocsStore Bytes) (inserted : Nat),
      (rows.foldl (fun (store, inserted) row =>
        let (store, changed) := store.insertOrIgnore row.1 row.2
        (store, inserted + if changed then 1 else 0)) (store, inserted)).1.isProcessed other =
        (rows.any (fun row => row.1 == other) || store.isProcessed other) := by
    intro rows
    induction rows with
    | nil => simp
    | cons row rest ih =>
      intro store inserted
      rw [foldl_cons, ih]
      change (_ || (store.markProcessed row.1 row.2).1.isProcessed other) = _
      rw [isProcessed_markProcessed]
      rw [any_cons, Bool.beq_comm, Bool.or_left_comm, Bool.or_assoc]
  exact hfold rows store 0

@[simp] theorem snapshots_markProcessed :
    (store.markProcessed commandId nowMs).1.snapshots = store.snapshots := by
  unfold markProcessed insertOrIgnore
  split
  · rfl
  · rfl

@[simp] theorem processed_saveSnapshot (store : DocsStore Bytes) (docId : String) (bytes : Bytes) :
    (store.saveSnapshot docId bytes).processed = store.processed := by
  unfold saveSnapshot
  split
  · rfl
  · rfl

@[simp] theorem processed_saveSnapshotWithCursor (store : DocsStore Bytes) (docId : String)
    (bytes : Bytes) (cursor epoch : Nat) :
    (store.saveSnapshotWithCursor docId bytes cursor epoch).processed = store.processed := rfl

theorem mem_saveSnapshot {row : SnapshotRow Bytes}
    (hrow : row ∈ (store.saveSnapshot docId bytes).snapshots) :
    row ∈ store.snapshots ∨ row.bytes = bytes := by
  unfold saveSnapshot at hrow
  split at hrow
  · simp only [mem_cons, mem_filter] at hrow
    rcases hrow with rfl | ⟨hrow, -⟩
    · exact .inr rfl
    · exact .inl hrow
  · simp only [mem_cons] at hrow
    rcases hrow with rfl | hrow
    · exact .inr rfl
    · exact .inl hrow

theorem mem_saveSnapshotWithCursor {cursor epoch : Nat} {row : SnapshotRow Bytes}
    (hrow : row ∈ (store.saveSnapshotWithCursor docId bytes cursor epoch).snapshots) :
    row ∈ store.snapshots ∨ row.bytes = bytes := by
  simp only [saveSnapshotWithCursor, mem_cons, mem_filter] at hrow
  rcases hrow with rfl | ⟨hrow, -⟩
  · exact .inr rfl
  · exact .inl hrow

theorem mem_of_loadSnapshot (hload : store.loadSnapshot docId = some bytes) :
    ∃ row ∈ store.snapshots, row.bytes = bytes := by
  simp only [loadSnapshot, Option.map_eq_some_iff] at hload
  obtain ⟨row, hfind, hbytes⟩ := hload
  exact ⟨row, mem_of_find?_eq_some hfind, hbytes⟩

end DocsStore

end Keel
