import Keel.Doc.RegistryEntries

/-! # Rows rebuilt from their seed op

A server that lost its rows is given each of them again as one op with the row's own clocks.
The op carries the clocks of the fields it sets, so the clock of a field that a null write
cleared and the tombstone clock of a revived row are lost. A later op meets the same fate on
the rebuilt row exactly when it does not have to beat one of those.
-/

namespace Keel

open Option

/-- The row that a server without one builds from the row's seed op. -/
def reseeded (row : RegistryRow) : Option RegistryRow := (applyOp none (rowToSeedOp row)).1

def visible (row : Option RegistryRow) : Option (Bool × Fields) :=
  row.map fun row => (row.deleted, row.fields)

namespace RegistryRow

/-- A delete at a clock that beats every visible field also beats the cleared fields and the
tombstone clock. -/
def DeleteSettled (row : RegistryRow) (hlc : String) : Prop :=
  (∀ (field : String) (value : Json) (clock : String), row.fields[field]? = some value →
    row.clocks[field]? = some clock → clock < hlc) → hlcNewer hlc row.maxClock = true

/-- What an op writes to a field without a value beats the clock that field was cleared at. -/
def WritesSettled (row : RegistryRow) (op : RowOp) : Prop :=
  ∀ (field : String) (value : Json), op.value? field = some value → value ≠ .null →
    row.fields[field]? = none → hlcNewer (op.clockFor field) row.clocks[field]? = true

/-- An op on a live row does not depend on a clock that the seed op leaves out. -/
def SeedSettles (row : RegistryRow) (op : RowOp) : Prop :=
  row.deleted = false →
    (op.op = .delete → row.DeleteSettled op.hlc) ∧ (op.op ≠ .delete → row.WritesSettled op)

end RegistryRow

namespace FieldEntry

variable {entry : FieldEntry} {clock : String}

theorem write_newer (hnewer : hlcNewer clock entry.1 = true) (value : Json) :
    entry.write clock value = (some clock, if value = .null then none else some value) := by
  rw [write, if_pos hnewer]

theorem write_stale (hstale : ¬ hlcNewer clock entry.1 = true) (value : Json) :
    entry.write clock value = entry := by
  rw [write, if_neg hstale]

theorem write_fresh (clock : String) (value : Json) :
    write (none, none) clock value = (some clock, if value = .null then none else some value) := rfl

end FieldEntry

section Tombstones

theorem reseeded_deleted {row : RegistryRow} (hsound : row.Sound) (hdeleted : row.deleted = true) :
    ∃ gone : RegistryRow, reseeded row = some gone ∧ gone.deleted = true ∧ gone.Sound ∧
      gone.delHlc = row.delHlc := by
  obtain ⟨-, -, hburied⟩ := hsound.buried hdeleted
  obtain ⟨hlc, hhlc⟩ := isSome_iff_exists.mp hburied
  have hseed : rowToSeedOp row =
      { kind := row.kind, id := row.id, op := .delete, set := none, hlc := hlc, clocks := none } := by
    rw [rowToSeedOp, if_pos hdeleted, hhlc]
    rfl
  refine ⟨.tombstone row.kind row.id hlc, ?_, rfl, ?_, hhlc.symm⟩
  · rw [reseeded, hseed]
    rfl
  · exact RegistryRow.sound_of_empty rfl rfl fun _ => rfl

theorem visible_applyOp_deleted {first second : RegistryRow} (hfirst : first.Sound)
    (hsecond : second.Sound) (hdeleted : first.deleted = true) (hdeleted' : second.deleted = true)
    (hdel : first.delHlc = second.delHlc) (op : RowOp) :
    visible (applyOp (some first) op).1 = visible (applyOp (some second) op).1 := by
  obtain ⟨hfields, hclocks, -⟩ := hfirst.buried hdeleted
  obtain ⟨hfields', hclocks', -⟩ := hsecond.buried hdeleted'
  unfold applyOp
  split
  · simp only [hdeleted, hdeleted', if_true, hdel]
    split
    · rfl
    · simp only [visible, map_some, hdeleted, hdeleted', hfields, hfields']
  · simp only [hdeleted, hdeleted', if_true, hdel]
    split
    · simp only [visible, map_some, hdeleted, hdeleted', hfields, hfields']
    · -- a revival writes to an empty row in both
      rw [RowOp.writeSet_fst rfl, RowOp.writeSet_fst rfl]
      simp only [visible, map_some, some.injEq, Prod.mk.injEq]
      refine ⟨(op.written_deleted rfl).trans (op.written_deleted rfl).symm, ?_⟩
      refine (RegistryRow.ext_entry fun field => ?_).1
      rw [RowOp.entry_written, RowOp.entry_written]
      rfl

end Tombstones

section Live

variable {row : RegistryRow}

theorem reseeded_live (hsound : row.Sound) (hlive : row.deleted = false) :
    ∃ base : RegistryRow, reseeded row = some base ∧ base.deleted = false ∧ base.delHlc = none ∧
      ∀ field, base.entry field =
        if row.fields[field]? = none then (none, none) else row.entry field := by
  have hnot : ¬ row.deleted = true := by rw [hlive]; exact Bool.false_ne_true
  have hop : (rowToSeedOp row).op = .upsert := by rw [rowToSeedOp, if_neg hnot]
  refine ⟨_, applyOp_upsert_none hop, RowOp.written_deleted rfl, RowOp.written_delHlc, ?_⟩
  intro field
  have hvalue : (rowToSeedOp row).value? field = row.fields[field]? := by
    rw [rowToSeedOp, if_neg hnot]
    rfl
  rw [RowOp.entry_written, hvalue]
  cases hfield : row.fields[field]? with
  | none => rfl
  | some value =>
    obtain ⟨clock, hclock⟩ := isSome_iff_exists.mp (hsound.clocked field value hfield)
    have hclockFor : (rowToSeedOp row).clockFor field = clock := by
      rw [rowToSeedOp, if_neg hnot, RowOp.clockFor, bind_some, hclock]
      rfl
    have hentry : row.entry field = (some clock, some value) := Prod.ext hclock hfield
    rw [if_neg (some_ne_none value), hentry, hclockFor]
    refine (FieldEntry.write_fresh clock value).trans ?_
    rw [if_neg (hsound.present field value hfield)]

variable {base : RegistryRow}

section
variable (hlive : row.deleted = false) (hbase : base.deleted = false)
include hlive hbase

theorem visible_written_eq (op : RowOp) :
    visible (some (op.written base)) = visible (some (op.written row)) ↔
      ∀ field, ((op.written base).entry field).2 = ((op.written row).entry field).2 := by
  simp only [visible, map_some, some.injEq, Prod.mk.injEq, op.written_deleted hlive,
    op.written_deleted hbase, true_and]
  exact ⟨fun hfields field => congrArg (fun fields : Fields => fields[field]?) hfields,
    fun hfields => Std.ExtTreeMap.ext_getElem? hfields⟩

/-- Writes to a rebuilt row show the same fields if they beat the clocks it lost. -/
theorem visible_written_reseeded
    (hentry : ∀ field, base.entry field =
      if row.fields[field]? = none then (none, none) else row.entry field) (op : RowOp) :
    visible (some (op.written base)) = visible (some (op.written row)) ↔ row.WritesSettled op := by
  rw [visible_written_eq hlive hbase]
  have hfield : ∀ field,
      (((op.written base).entry field).2 = ((op.written row).entry field).2 ↔
        ∀ value, op.value? field = some value → value ≠ .null → row.fields[field]? = none →
          hlcNewer (op.clockFor field) row.clocks[field]? = true) := by
    intro field
    rw [RowOp.entry_written, RowOp.entry_written, hentry field]
    cases hstored : row.fields[field]? with
    | some stored => simp
    | none =>
      have hnone : (row.entry field).2 = none := hstored
      cases hvalue : op.value? field with
      | none => simp [hnone]
      | some value =>
        rw [if_pos rfl]
        simp only [FieldEntry.write_fresh]
        by_cases hnewer : hlcNewer (op.clockFor field) row.clocks[field]? = true
        · rw [FieldEntry.write_newer hnewer]
          simp [hnewer]
        · rw [FieldEntry.write_stale hnewer, hnone]
          by_cases hnull : value = .null <;> simp [hnull, hnewer]
  constructor
  · intro hsame field value hvalue hnull hnone
    exact (hfield field).mp (hsame field) value hvalue hnull hnone
  · intro hsettled field
    exact (hfield field).mpr fun value hvalue hnull hnone => hsettled field value hvalue hnull hnone

end

theorem hlcNewer_maxClock_reseeded (hdel : base.delHlc = none)
    (hentry : ∀ field, base.entry field =
      if row.fields[field]? = none then (none, none) else row.entry field) (hlc : String) :
    hlcNewer hlc base.maxClock = true ↔
      ∀ (field : String) (value : Json) (clock : String), row.fields[field]? = some value →
        row.clocks[field]? = some clock → clock < hlc := by
  have hclocks : ∀ field : String, base.clocks[field]? =
      if row.fields[field]? = none then none else row.clocks[field]? := by
    intro field
    have hfst := congrArg Prod.fst (hentry field)
    split at hfst
    · next hnone => rw [if_pos hnone]; exact hfst
    · next hsome => rw [if_neg hsome]; exact hfst
  rw [RegistryRow.hlcNewer_maxClock_iff, hdel]
  constructor
  · intro ⟨_, hbeats⟩ field value clock hfield hclock
    refine hbeats field clock ?_
    rw [hclocks, hfield, if_neg (some_ne_none value), hclock]
  · intro hbeats
    refine ⟨rfl, fun field clock hclock => ?_⟩
    rw [hclocks] at hclock
    split at hclock
    · cases hclock
    · next hsome =>
        obtain ⟨value, hvalue⟩ := ne_none_iff_exists'.mp hsome
        exact hbeats field value clock hvalue hclock

/-- A delete buries both rows or neither, unless only the rebuilt one is beaten. -/
theorem visible_delete_reseeded (hlive : row.deleted = false) (hbase : base.deleted = false)
    (hdel : base.delHlc = none)
    (hentry : ∀ field, base.entry field =
      if row.fields[field]? = none then (none, none) else row.entry field) {op : RowOp}
    (hop : op.op = .delete) :
    visible (applyOp (some base) op).1 = visible (applyOp (some row) op).1 ↔
      row.DeleteSettled op.hlc := by
  have hget : ∀ field : String, base.fields[field]? = row.fields[field]? := by
    intro field
    have hsnd := congrArg Prod.snd (hentry field)
    split at hsnd
    · next hnone => exact hsnd.trans hnone.symm
    · exact hsnd
  have hfields : base.fields = row.fields := Std.ExtTreeMap.ext_getElem? fun field => hget field
  have hbeats := hlcNewer_maxClock_reseeded hdel hentry op.hlc
  have hloses : hlcNewer op.hlc row.maxClock = true → hlcNewer op.hlc base.maxClock = true := by
    intro hnewer
    exact hbeats.mpr fun field value clock _ hclock =>
      ((RegistryRow.hlcNewer_maxClock_iff row op.hlc).mp hnewer).2 field clock hclock
  rw [RegistryRow.DeleteSettled, ← hbeats]
  simp only [applyOp, if_pos hop, hlive, hbase, Bool.false_eq_true, if_false]
  by_cases hrow : hlcNewer op.hlc row.maxClock = true
  · simp [hrow, hloses hrow, visible]
  · by_cases hrebuilt : hlcNewer op.hlc base.maxClock = true
    · simp [hrow, hrebuilt, visible, hlive]
    · simp [hrow, hrebuilt, visible, hlive, hbase, hfields]

end Live

/-- An op shows the same row after the rebuilt row as after the original one exactly when it
does not have to beat a clock that the seed op leaves out. -/
theorem applyOp_reseeded (ops : List RowOp) (row : RegistryRow) (op : RowOp)
    (hrow : applyOps none ops = some row) :
    visible (applyOp (reseeded row) op).1 = visible (applyOp (some row) op).1 ↔
      row.SeedSettles op := by
  have hsound : row.Sound := applyOps_sound (fun base hnone => by cases hnone) hrow
  cases hdeleted : row.deleted with
  | true =>
    obtain ⟨gone, hgone, hburied, hgoneSound, hdel⟩ := reseeded_deleted hsound hdeleted
    rw [hgone]
    refine ⟨fun _ hlive => ?_, fun _ => ?_⟩
    · rw [hdeleted] at hlive
      cases hlive
    · exact visible_applyOp_deleted hgoneSound hsound hburied hdeleted hdel op
  | false =>
    obtain ⟨base, hbase, hlive, hdel, hentry⟩ := reseeded_live hsound hdeleted
    rw [hbase, RegistryRow.SeedSettles]
    by_cases hop : op.op = .delete
    · rw [visible_delete_reseeded hdeleted hlive hdel hentry hop]
      exact ⟨fun hsettled _ => ⟨fun _ => hsettled, fun hne => absurd hop hne⟩,
        fun hsettled => (hsettled hdeleted).1 hop⟩
    · have hwrites : ∀ {base : RegistryRow}, base.deleted = false →
          (applyOp (some base) op).1 = some (op.written base) := by
        intro base hlive
        simp only [applyOp, if_neg hop, hlive, Bool.false_eq_true, if_false]
        exact op.writeSet_fst hlive false
      rw [hwrites hlive, hwrites hdeleted, visible_written_reseeded hdeleted hlive hentry]
      exact ⟨fun hsettled _ => ⟨fun hdelete => absurd hdelete hop, fun _ => hsettled⟩,
        fun hsettled => (hsettled hdeleted).2 hop⟩

/-- A chat's name is cleared after it was set. -/
def clearedName : List RowOp :=
  [{ kind := "chats", id := "c1", op := .upsert, hlc := encodeHlc 1000 0 "a", clocks := none
     set := some (Std.ExtTreeMap.ofList [("title", Json.string "x"), ("name", Json.string "y")]) },
   { kind := "chats", id := "c1", op := .update, hlc := encodeHlc 2000 0 "a", clocks := none
     set := some (Std.ExtTreeMap.ofList [("name", Json.null)]) }]

def rename (ms : Int) : RowOp :=
  { kind := "chats", id := "c1", op := .update, hlc := encodeHlc ms 0 "b", clocks := none
    set := some (Std.ExtTreeMap.ofList [("name", Json.string "zombie")]) }

theorem applyOp_reseeded_rename : ∃ row, applyOps none clearedName = some row ∧
    (visible (applyOp (reseeded row) (rename 3000)).1 = visible (applyOp (some row) (rename 3000)).1 ↔
      row.SeedSettles (rename 3000)) := by
  obtain ⟨row, hrow⟩ : ∃ row, applyOps none clearedName = some row := ⟨_, rfl⟩
  exact ⟨row, hrow, applyOp_reseeded clearedName row (rename 3000) hrow⟩

/-- A rename older than the clearing takes effect on the rebuilt row only. -/
theorem applyOp_reseeded_zombie : ∃ row, applyOps none clearedName = some row ∧
    visible (applyOp (reseeded row) (rename 1500)).1 ≠
      visible (applyOp (some row) (rename 1500)).1 :=
  ⟨_, rfl, by decide⟩

end Keel
