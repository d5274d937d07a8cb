import Mathlib.Data.String.Basic
import Std.Data.ExtTreeMap.Lemmas
import Keel.Proto.Json

/-! # Registry rows and their merge

A row of the workspace registry is a map of fields with a clock for each field
and a tombstone clock. An operation upserts, updates or deletes a row; whether it
takes effect is decided field by field by strict comparison of clocks. The same
merge runs on the server and in every client's overlay.
-/

namespace Keel

open List Std.ExtTreeMap

abbrev Fields := Std.ExtTreeMap String Json compare

abbrev Clocks := Std.ExtTreeMap String String compare

/-- `{value:0width}`: a sign, zeros up to the width, the digits. -/
def zeroPadded (width : Nat) (value : Int) : String :=
  let sign := if value < 0 then "-" else ""
  let digits := toString value.natAbs
  sign ++ "".pushn '0' (width - sign.length - digits.length) ++ digits

/-- Fixed-width zero padding, so that lexicographic order is the order of
milliseconds, counter and device. -/
def encodeHlc (ms : Int) (counter : Nat) (device : String) : String :=
  zeroPadded 13 ms ++ "-" ++ zeroPadded 6 counter ++ "-" ++ device

/-- `a` is strictly newer than `b`; a clock never written loses to any. -/
def hlcNewer (a : String) (b : Option String) : Bool :=
  match b with
  | none => true
  | some b => b < a

/-- The clock source of one device. -/
structure HlcClock where
  lastMs : Int := 0
  counter : Nat := 0
deriving DecidableEq

def HlcClock.next (clock : HlcClock) (nowMs : Int) (device : String) : HlcClock × String :=
  let clock : HlcClock :=
    if nowMs > clock.lastMs then { lastMs := nowMs, counter := 0 }
    else if clock.counter + 1 > 999999 then { lastMs := clock.lastMs + 1, counter := 0 }
    else { clock with counter := clock.counter + 1 }
  (clock, encodeHlc clock.lastMs clock.counter device)

structure RegistryRow where
  kind : String
  id : String
  /-- Server sequence number of the batch that last touched the row. -/
  seq : Nat
  deleted : Bool
  /-- Tombstone clock. -/
  delHlc : Option String
  fields : Fields
  clocks : Clocks
deriving DecidableEq

namespace RegistryRow

def tombstone (kind id hlc : String) : RegistryRow :=
  { kind, id, seq := 0, deleted := true, delHlc := some hlc, fields := ∅, clocks := ∅ }

/-- The newest clock anywhere on the row. -/
def maxClock (row : RegistryRow) : Option String :=
  row.clocks.toList.foldl
    (fun max entry => if hlcNewer entry.2 max then some entry.2 else max) row.delHlc

end RegistryRow

inductive OpKind where
  /-- Creates, and revives tombstones when newer. -/
  | upsert
  /-- Never creates or revives. -/
  | update
  /-- Tombstones when newer than the row. -/
  | delete
deriving DecidableEq

structure RowOp where
  kind : String
  id : String
  op : OpKind
  /-- Field writes; null deletes a field. -/
  set : Option Fields
  /-- The clock of every write without an override. -/
  hlc : String
  clocks : Option Clocks
deriving DecidableEq

namespace RowOp

def clockFor (op : RowOp) (field : String) : String :=
  (op.clocks.bind fun clocks => clocks[field]?).getD op.hlc

def writes (op : RowOp) : List (String × Json) :=
  match op.set with
  | none => []
  | some set => set.toList

/-- One field write, if its clock beats the row's. -/
def writeField (op : RowOp) (state : RegistryRow × Bool) (write : String × Json) :
    RegistryRow × Bool :=
  let (base, changed) := state
  let (key, value) := write
  let clock := op.clockFor key
  if hlcNewer clock base.clocks[key]? then
    ({ base with
        fields := if value = .null then base.fields.erase key else base.fields.insert key value
        clocks := base.clocks.insert key clock }, true)
  else (base, changed)

def writeSet (op : RowOp) (base : RegistryRow) (changed : Bool) : Option RegistryRow × Bool :=
  let (base, changed) := op.writes.foldl op.writeField (base, changed)
  (some (if changed then { base with deleted := false } else base), changed)

end RowOp

/-- The new row and whether anything changed. There is no row only after an
update of a missing one. -/
def applyOp (row : Option RegistryRow) (op : RowOp) : Option RegistryRow × Bool :=
  if op.op = .delete then
    match row with
    | none => (some (.tombstone op.kind op.id op.hlc), true)
    | some row =>
      let beats :=
        if row.deleted then hlcNewer op.hlc row.delHlc else hlcNewer op.hlc row.maxClock
      if beats then
        (some { row with deleted := true, delHlc := some op.hlc, fields := ∅, clocks := ∅ }, true)
      else (some row, false)
  else
    match row with
    | none =>
      if op.op = .update then (none, false)
      else
        op.writeSet { kind := op.kind, id := op.id, seq := 0, deleted := false, delHlc := none
                      fields := ∅, clocks := ∅ } true
    | some row =>
      if row.deleted then
        if op.op = .update ∨ hlcNewer op.hlc row.delHlc = false then (some row, false)
        -- Revival: the tombstone loses wholesale.
        else op.writeSet { row with deleted := false, fields := ∅, clocks := ∅ } true
      else op.writeSet row false

/-- A row as an op that carries its own clocks, for a server that lost it. -/
def rowToSeedOp (row : RegistryRow) : RowOp :=
  if row.deleted then
    { kind := row.kind, id := row.id, op := .delete, set := none
      hlc := row.delHlc.getD (encodeHlc 0 0 "seed"), clocks := none }
  else
    { kind := row.kind, id := row.id, op := .upsert, set := some row.fields
      hlc := row.maxClock.getD (encodeHlc 0 0 "seed"), clocks := some row.clocks }

section Clocks

theorem hlcNewer_some {first second : String} :
    hlcNewer first (some second) = true ↔ second < first := by
  simp [hlcNewer]

theorem hlcNewer_foldl_iff (hlc : String) (entries : List (String × String))
    (start : Option String) :
    hlcNewer hlc (entries.foldl
        (fun max entry => if hlcNewer entry.2 max then some entry.2 else max) start) = true ↔
      hlcNewer hlc start = true ∧ ∀ entry ∈ entries, entry.2 < hlc := by
  induction entries generalizing start with
  | nil => simp
  | cons entry rest ih =>
    rw [foldl_cons, ih, forall_mem_cons]
    cases start with
    | none => simp [hlcNewer]
    | some start =>
      by_cases hentry : start < entry.2
      · simp only [hlcNewer, hentry, decide_true, if_true, decide_eq_true_eq]
        exact ⟨fun ⟨hlt, hrest⟩ => ⟨hentry.trans hlt, hlt, hrest⟩, fun h => ⟨h.2.1, h.2.2⟩⟩
      · simp only [hlcNewer, hentry, decide_false, Bool.false_eq_true, if_false,
          decide_eq_true_eq]
        exact ⟨fun ⟨hlt, hrest⟩ => ⟨hlt, lt_of_le_of_lt (not_lt.mp hentry) hlt, hrest⟩,
          fun h => ⟨h.1, h.2.2⟩⟩

/-- A clock beats a row when it beats the tombstone clock and every field clock. -/
theorem RegistryRow.hlcNewer_maxClock_iff (row : RegistryRow) (hlc : String) :
    hlcNewer hlc row.maxClock = true ↔ hlcNewer hlc row.delHlc = true ∧
      ∀ (key clock : String), row.clocks[key]? = some clock → clock < hlc := by
  rw [maxClock, hlcNewer_foldl_iff]
  apply and_congr_right
  intro _
  constructor
  · intro hclocks key clock hclock
    exact hclocks (key, clock) (mem_toList_iff_getElem?_eq_some.mpr hclock)
  · intro hclocks entry hentry
    exact hclocks entry.1 entry.2 (mem_toList_iff_getElem?_eq_some.mp hentry)

end Clocks

section Writes

variable {op : RowOp}

theorem RowOp.foldl_writeField_frame (writes : List (String × Json)) (base : RegistryRow)
    (changed : Bool) :
    ∃ fields clocks, (writes.foldl op.writeField (base, changed)).1 =
      { base with fields, clocks } := by
  induction writes generalizing base changed with
  | nil => exact ⟨base.fields, base.clocks, rfl⟩
  | cons write rest ih =>
    rw [foldl_cons, writeField]
    split
    · obtain ⟨fields, clocks, hrest⟩ := ih _ true
      exact ⟨fields, clocks, hrest⟩
    · exact ih base changed

theorem RowOp.writeField_clocks (op : RowOp) (base : RegistryRow) (changed : Bool)
    (write : String × Json) (field : String) :
    (op.writeField (base, changed) write).1.clocks[field]? =
      if write.1 = field ∧ hlcNewer (op.clockFor field) base.clocks[field]? then
        some (op.clockFor field)
      else base.clocks[field]? := by
  rw [writeField]
  by_cases hfield : write.1 = field
  · subst hfield
    split
    next hnewer => simp [hnewer]
    next hnewer => simp [hnewer]
  · split
    · simp [Std.ExtTreeMap.getElem?_insert, hfield]
    · simp [hfield]

theorem RowOp.writeField_fields (op : RowOp) (base : RegistryRow) (changed : Bool)
    (write : String × Json) (field : String) :
    (op.writeField (base, changed) write).1.fields[field]? =
      if write.1 = field ∧ hlcNewer (op.clockFor field) base.clocks[field]? then
        (if write.2 = .null then none else some write.2)
      else base.fields[field]? := by
  rw [writeField]
  by_cases hfield : write.1 = field
  · subst hfield
    split
    next hnewer => by_cases hnull : write.2 = .null <;> simp [hnewer, hnull]
    next hnewer => simp [hnewer]
  · split
    · by_cases hnull : write.2 = .null
      · simp [hnull, Std.ExtTreeMap.getElem?_erase, hfield]
      · simp [hnull, Std.ExtTreeMap.getElem?_insert, hfield]
    · simp [hfield]

/-- The row after the op's field writes. -/
def RowOp.written (op : RowOp) (base : RegistryRow) : RegistryRow :=
  (op.writes.foldl op.writeField (base, false)).1

def RowOp.value? (op : RowOp) (field : String) : Option Json :=
  op.set.bind fun set => set[field]?

theorem RowOp.mem_writes_iff {field : String} {value : Json} :
    (field, value) ∈ op.writes ↔ op.value? field = some value := by
  cases hset : op.set with
  | none => simp [writes, value?, hset]
  | some set => simp [writes, value?, hset, mem_toList_iff_getElem?_eq_some]

theorem RowOp.writes_nodup (op : RowOp) : (op.writes.map Prod.fst).Nodup := by
  cases hset : op.set with
  | none => simp [writes, hset]
  | some set =>
    have hdistinct := distinct_keys_toList (t := set)
    simp only [writes, hset, List.Nodup, pairwise_map]
    exact hdistinct.imp fun hne heq => hne (by simp [heq])

theorem RowOp.foldl_writeField_get {writes : List (String × Json)}
    (hnodup : (writes.map Prod.fst).Nodup) (base : RegistryRow) (changed : Bool) (field : String) :
    let final := (writes.foldl op.writeField (base, changed)).1
    (field ∉ writes.map Prod.fst → final.clocks[field]? = base.clocks[field]? ∧
      final.fields[field]? = base.fields[field]?) ∧
    ∀ value, (field, value) ∈ writes →
      final.clocks[field]? = (if hlcNewer (op.clockFor field) base.clocks[field]? then
        some (op.clockFor field) else base.clocks[field]?) ∧
      final.fields[field]? = (if hlcNewer (op.clockFor field) base.clocks[field]? then
        (if value = .null then none else some value) else base.fields[field]?) := by
  induction writes generalizing base changed with
  | nil => simp
  | cons write rest ih =>
    rw [map_cons, nodup_cons] at hnodup
    obtain ⟨hhead, hrest⟩ := hnodup
    have hclocks := op.writeField_clocks base changed write field
    have hfields := op.writeField_fields base changed write field
    cases hstep : op.writeField (base, changed) write with
    | mk next flag =>
      rw [hstep] at hclocks hfields
      obtain ⟨habsent, hpresent⟩ := ih hrest next flag
      simp only [foldl_cons, hstep]
      refine ⟨?_, ?_⟩
      · intro hfield
        rw [map_cons, mem_cons, not_or] at hfield
        have hne : write.1 ≠ field := fun heq => hfield.1 heq.symm
        rw [if_neg (fun h => hne h.1)] at hclocks hfields
        rw [← hclocks, ← hfields]
        exact habsent hfield.2
      · intro value hvalue
        rcases mem_cons.mp hvalue with rfl | htail
        · obtain ⟨hlastClock, hlastField⟩ := habsent hhead
          rw [hlastClock, hlastField, hclocks, hfields]
          simp
        · have hne : write.1 ≠ field := by
            rintro rfl
            exact hhead (mem_map.mpr ⟨_, htail, rfl⟩)
          rw [if_neg (fun h => hne h.1)] at hclocks hfields
          rw [← hclocks, ← hfields]
          exact hpresent value htail

variable {base : RegistryRow} {field : String}

theorem RowOp.written_absent (hfield : op.value? field = none) :
    (op.written base).clocks[field]? = base.clocks[field]? ∧
      (op.written base).fields[field]? = base.fields[field]? := by
  apply (foldl_writeField_get op.writes_nodup base false field).1
  intro hmem
  obtain ⟨write, hwrite, rfl⟩ := mem_map.mp hmem
  rw [mem_writes_iff.1 hwrite] at hfield
  cases hfield

theorem RowOp.written_present (op : RowOp) {value : Json} (hvalue : op.value? field = some value) :
    (op.written base).clocks[field]? = (if hlcNewer (op.clockFor field) base.clocks[field]? then
        some (op.clockFor field) else base.clocks[field]?) ∧
      (op.written base).fields[field]? = (if hlcNewer (op.clockFor field) base.clocks[field]? then
        (if value = .null then none else some value) else base.fields[field]?) :=
  (foldl_writeField_get op.writes_nodup base false field).2 value (mem_writes_iff.2 hvalue)

theorem RowOp.written_frame (op : RowOp) (base : RegistryRow) :
    ∃ fields clocks, op.written base = { base with fields, clocks } :=
  foldl_writeField_frame op.writes base false

theorem RowOp.foldl_writeField_fst (writes : List (String × Json)) (base : RegistryRow)
    (first second : Bool) :
    (writes.foldl op.writeField (base, first)).1 = (writes.foldl op.writeField (base, second)).1 := by
  induction writes generalizing base first second with
  | nil => rfl
  | cons write rest ih =>
    simp only [foldl_cons, writeField]
    split
    · exact ih _ true true
    · exact ih base first second

theorem RowOp.writeSet_fst (hbase : base.deleted = false) (changed : Bool) :
    (op.writeSet base changed).1 = some (op.written base) := by
  obtain ⟨fields, clocks, hframe⟩ := op.written_frame base
  have hrow : (op.writes.foldl op.writeField (base, changed)).1 = op.written base :=
    foldl_writeField_fst _ _ _ _
  simp only [writeSet]
  rw [hrow]
  split
  · rw [hframe, ← hbase]
  · rfl

theorem RowOp.written_eq_self
    (hstale : ∀ key value, op.value? key = some value →
      hlcNewer (op.clockFor key) base.clocks[key]? = false) : op.written base = base := by
  have hfold : ∀ writes : List (String × Json), (∀ write ∈ writes, write ∈ op.writes) →
      writes.foldl op.writeField (base, false) = (base, false) := by
    intro writes hwrites
    induction writes with
    | nil => rfl
    | cons write rest ih =>
      have hhead := hstale write.1 write.2
        (mem_writes_iff.1 (hwrites write mem_cons_self))
      have hskip : op.writeField (base, false) write = (base, false) := by
        simp [writeField, hhead]
      rw [foldl_cons, hskip]
      exact ih fun other hother => hwrites other (mem_cons_of_mem _ hother)
  rw [written, hfold op.writes fun _ h => h]

end Writes

section Merge

def isLive (row : Option RegistryRow) : Bool := row.any fun row => !row.deleted

/-- The clock an upsert of a row that is not live, or a delete, has to beat. -/
def standingClock : Option RegistryRow → Option String
  | none => none
  | some row => if row.deleted then row.delHlc else row.maxClock

/-- What an op does to a row: it buries it, brings it to life, writes to it, or
is ignored. -/
theorem applyOp_cases (row : Option RegistryRow) (op : RowOp) :
    (op.op = .delete ∧ hlcNewer op.hlc (standingClock row) = true ∧
      ∃ gone : RegistryRow, (applyOp row op).1 = some gone ∧ gone.deleted = true ∧
        gone.delHlc = some op.hlc) ∨
    (op.op = .upsert ∧ isLive row = false ∧ hlcNewer op.hlc (standingClock row) = true ∧
      ∃ base : RegistryRow, (applyOp row op).1 = some (op.written base) ∧ base.deleted = false ∧
        base.delHlc = standingClock row ∧ base.fields = ∅ ∧ base.clocks = ∅) ∨
    (op.op ≠ .delete ∧ ∃ base : RegistryRow, row = some base ∧ base.deleted = false ∧
      (applyOp row op).1 = some (op.written base)) ∨
    ((applyOp row op).1 = row ∧ (op.op = .delete → hlcNewer op.hlc (standingClock row) = false) ∧
      (op.op ≠ .delete → isLive row = false) ∧
      (op.op = .upsert → hlcNewer op.hlc (standingClock row) = false)) := by
  unfold applyOp
  split
  next hdelete =>
    cases row with
    | none => exact .inl ⟨hdelete, rfl, _, rfl, rfl, rfl⟩
    | some row =>
      have hbeats : (if row.deleted then hlcNewer op.hlc row.delHlc
          else hlcNewer op.hlc row.maxClock) = hlcNewer op.hlc (standingClock (some row)) := by
        simp only [standingClock]
        split <;> rfl
      simp only [hbeats]
      split
      next hnewer => exact .inl ⟨hdelete, hnewer, _, rfl, rfl, rfl⟩
      next hnewer =>
        refine .inr (.inr (.inr ⟨rfl, fun _ => by simpa using hnewer, ?_, ?_⟩))
        · exact fun hne => absurd hdelete hne
        · rw [hdelete]
          exact fun habsurd => by cases habsurd
  next hdelete =>
    cases row with
    | none =>
      simp only
      split
      next hupdate =>
        refine .inr (.inr (.inr ⟨rfl, fun h => absurd h hdelete, fun _ => rfl, ?_⟩))
        rw [hupdate]
        exact fun habsurd => by cases habsurd
      next hupdate =>
        have hupsert : op.op = .upsert := by
          cases hop : op.op <;> simp_all
        exact .inr (.inl ⟨hupsert, rfl, rfl, _, op.writeSet_fst rfl true, rfl, rfl, rfl, rfl⟩)
    | some row =>
      simp only
      split
      next hgone =>
        have hclock : standingClock (some row) = row.delHlc := by simp [standingClock, hgone]
        have hlive : isLive (some row) = false := by simp [isLive, hgone]
        split
        next hstale =>
          refine .inr (.inr (.inr ⟨rfl, fun h => absurd h hdelete, fun _ => hlive, ?_⟩))
          intro hupsert
          rw [hclock]
          rcases hstale with hupdate | hstale
          · rw [hupsert] at hupdate
            cases hupdate
          · exact hstale
        next hfresh =>
          rw [not_or, Bool.not_eq_false] at hfresh
          have hupsert : op.op = .upsert := by
            cases hop : op.op <;> simp_all
          exact .inr (.inl ⟨hupsert, hlive, hclock ▸ hfresh.2, _, op.writeSet_fst rfl true, rfl,
            hclock.symm, rfl, rfl⟩)
      next hpresent =>
        have hbase : row.deleted = false := by simpa using hpresent
        exact .inr (.inr (.inl ⟨hdelete, row, rfl, hbase, op.writeSet_fst hbase false⟩))

end Merge

end Keel
