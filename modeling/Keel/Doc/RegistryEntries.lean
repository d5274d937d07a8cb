import Keel.Doc.RegistryReplay

/-! # The fields of a row as registers

Each field of a row is a register whose last writer wins: it holds the newest clock it was
written with and the value of that write, or no value if the write was null. What an op does
to a live row is what its write to each field does to that register, so ops with different
clocks may be applied in any order.
-/

namespace Keel

open List Option

section Register

/-- The clock of a field and its value. -/
abbrev FieldEntry := Option String × Option Json

/-- A write takes effect if its clock is strictly newer. -/
def FieldEntry.write (entry : FieldEntry) (clock : String) (value : Json) : FieldEntry :=
  if hlcNewer clock entry.1 then (some clock, if value = .null then none else some value) else entry

theorem FieldEntry.write_comm (entry : FieldEntry) {first second : String} (hne : first ≠ second)
    (value other : Json) :
    (entry.write first value).write second other = (entry.write second other).write first value := by
  obtain ⟨clock, stored⟩ := entry
  have horder : first < second ∧ ¬ second < first ∨ second < first ∧ ¬ first < second := by
    cases lt_or_gt_of_ne hne with
    | inl hlt => exact .inl ⟨hlt, lt_asymm hlt⟩
    | inr hgt => exact .inr ⟨hgt, lt_asymm hgt⟩
  cases clock with
  | none => rcases horder with ⟨hlt, hnlt⟩ | ⟨hlt, hnlt⟩ <;> simp [write, hlcNewer, hlt, hnlt]
  | some clock =>
    by_cases hfirst : clock < first
    · by_cases hsecond : clock < second
      · rcases horder with ⟨hlt, hnlt⟩ | ⟨hlt, hnlt⟩ <;>
          simp [write, hlcNewer, hfirst, hsecond, hlt, hnlt]
      · -- the second write is older than the field, and so than the first
        have hnlt : ¬ first < second := fun hlt => hsecond (hfirst.trans hlt)
        simp [write, hlcNewer, hfirst, hsecond, hnlt]
    · by_cases hsecond : clock < second
      · have hnlt : ¬ second < first := fun hlt => hfirst (hsecond.trans hlt)
        simp [write, hlcNewer, hfirst, hsecond, hnlt]
      · simp [write, hlcNewer, hfirst, hsecond]

end Register

namespace RegistryRow

def entry (row : RegistryRow) (field : String) : FieldEntry := (row.clocks[field]?, row.fields[field]?)

theorem ext_entry {first second : RegistryRow}
    (hentry : ∀ field, first.entry field = second.entry field) :
    first.fields = second.fields ∧ first.clocks = second.clocks :=
  ⟨Std.ExtTreeMap.ext_getElem? fun field => congrArg Prod.snd (hentry field),
    Std.ExtTreeMap.ext_getElem? fun field => congrArg Prod.fst (hentry field)⟩

end RegistryRow

theorem RowOp.entry_written (op : RowOp) (base : RegistryRow) (field : String) :
    (op.written base).entry field =
      match op.value? field with
      | none => base.entry field
      | some value => (base.entry field).write (op.clockFor field) value := by
  cases hvalue : op.value? field with
  | none =>
    obtain ⟨hclock, hfield⟩ := op.written_absent hvalue
    exact Prod.ext hclock hfield
  | some value =>
    obtain ⟨hclock, hfield⟩ := @RowOp.written_present base field op value hvalue
    simp only [RegistryRow.entry, FieldEntry.write, hclock, hfield]
    by_cases hnewer : hlcNewer (op.clockFor field) base.clocks[field]? = true
    · simp only [hnewer, if_true]
    · simp only [hnewer, Bool.false_eq_true, if_false]

theorem RowOp.entry_written_of_value {op : RowOp} {base : RegistryRow} {field : String} {value : Json}
    (hvalue : op.value? field = some value) :
    (op.written base).entry field = (base.entry field).write (op.clockFor field) value := by
  rw [entry_written, hvalue]

theorem RowOp.entry_written_of_none {op : RowOp} {base : RegistryRow} {field : String}
    (hvalue : op.value? field = none) : (op.written base).entry field = base.entry field := by
  rw [entry_written, hvalue]

/-- Two ops never write one field with one clock. -/
def RowOp.Distinct (op other : RowOp) : Prop :=
  ∀ field, (op.value? field).isSome → (other.value? field).isSome →
    op.clockFor field ≠ other.clockFor field

theorem RowOp.written_comm {op other : RowOp} (hdistinct : op.Distinct other) (base : RegistryRow) :
    op.written (other.written base) = other.written (op.written base) := by
  have hentry : ∀ field, (op.written (other.written base)).entry field =
      (other.written (op.written base)).entry field := by
    intro field
    cases hop : op.value? field with
    | none =>
      rw [entry_written_of_none hop]
      cases hother : other.value? field with
      | none => rw [entry_written_of_none hother, entry_written_of_none hother,
          entry_written_of_none hop]
      | some value => rw [entry_written_of_value hother, entry_written_of_value hother,
          entry_written_of_none hop]
    | some value =>
      rw [entry_written_of_value hop]
      cases hother : other.value? field with
      | none => rw [entry_written_of_none hother, entry_written_of_none hother,
          entry_written_of_value hop]
      | some value' =>
        have hne := hdistinct field (by rw [hop]; rfl) (by rw [hother]; rfl)
        rw [entry_written_of_value hother, entry_written_of_value hother,
          entry_written_of_value hop, FieldEntry.write_comm _ hne.symm]
  obtain ⟨hfields, hclocks⟩ := RegistryRow.ext_entry hentry
  obtain ⟨fields, clocks, hframe⟩ := op.written_frame (other.written base)
  obtain ⟨fields', clocks', hframe'⟩ := other.written_frame base
  obtain ⟨others, marks, hother⟩ := other.written_frame (op.written base)
  obtain ⟨others', marks', hother'⟩ := op.written_frame base
  rw [hframe, hframe', hother, hother'] at hfields hclocks ⊢
  simp only at hfields hclocks
  rw [hfields, hclocks]

section Soundness

/-- What holds of every row the merge produces. -/
structure RegistryRow.Sound (row : RegistryRow) : Prop where
  buried : row.deleted = true → row.fields = ∅ ∧ row.clocks = ∅ ∧ row.delHlc.isSome
  clocked : ∀ (field : String) (value : Json), row.fields[field]? = some value →
    row.clocks[field]?.isSome
  present : ∀ (field : String) (value : Json), row.fields[field]? = some value → value ≠ .null

theorem FieldEntry.write_clocked {entry : FieldEntry} {clock : String} {value : Json}
    (hentry : ∀ stored, entry.2 = some stored → entry.1.isSome ∧ stored ≠ .null) {stored : Json}
    (hstored : (entry.write clock value).2 = some stored) :
    (entry.write clock value).1.isSome ∧ stored ≠ .null := by
  unfold write at hstored ⊢
  split
  · next hnewer =>
      rw [if_pos hnewer] at hstored
      refine ⟨rfl, ?_⟩
      by_cases hnull : value = .null
      · simp [hnull] at hstored
      · simp only [hnull, if_false, some.injEq] at hstored
        exact hstored ▸ hnull
  · next hstale =>
      rw [if_neg hstale] at hstored
      exact hentry stored hstored

theorem RowOp.written_sound (op : RowOp) {base : RegistryRow} (hlive : base.deleted = false)
    (hsound : base.Sound) : (op.written base).Sound := by
  have hentry : ∀ (field : String) (value : Json), ((op.written base).entry field).2 = some value →
      ((op.written base).entry field).1.isSome ∧ value ≠ .null := by
    intro field value hvalue
    have hbase : ∀ stored, (base.entry field).2 = some stored →
        (base.entry field).1.isSome ∧ stored ≠ .null := fun stored hstored =>
      ⟨hsound.clocked field stored hstored, hsound.present field stored hstored⟩
    cases hop : op.value? field with
    | none =>
      rw [entry_written_of_none hop] at hvalue ⊢
      exact hbase value hvalue
    | some written =>
      rw [entry_written_of_value hop] at hvalue ⊢
      exact FieldEntry.write_clocked hbase hvalue
  refine ⟨?_, fun field value hvalue => (hentry field value hvalue).1,
    fun field value hvalue => (hentry field value hvalue).2⟩
  intro hdeleted
  rw [op.written_deleted hlive] at hdeleted
  cases hdeleted

theorem RegistryRow.sound_of_empty {row : RegistryRow} (hfields : row.fields = ∅)
    (hclocks : row.clocks = ∅) (hburied : row.deleted = true → row.delHlc.isSome) : row.Sound := by
  refine ⟨fun hdeleted => ⟨hfields, hclocks, hburied hdeleted⟩, ?_, ?_⟩
  · intro field value hvalue
    rw [hfields, Std.ExtTreeMap.getElem?_empty] at hvalue
    cases hvalue
  · intro field value hvalue
    rw [hfields, Std.ExtTreeMap.getElem?_empty] at hvalue
    cases hvalue

variable {row : Option RegistryRow}

theorem applyOp_delete {op : RowOp} {next : RegistryRow}
    (hdelete : op.op = .delete) (hnext : (applyOp row op).1 = some next) :
    row = some next ∨ next.deleted = true ∧ next.fields = ∅ ∧ next.clocks = ∅ ∧
      next.delHlc = some op.hlc := by
  cases row with
  | none =>
    rw [applyOp, if_pos hdelete] at hnext
    cases hnext
    exact .inr ⟨rfl, rfl, rfl, rfl⟩
  | some row =>
    simp only [applyOp, if_pos hdelete] at hnext
    generalize (if row.deleted then hlcNewer op.hlc row.delHlc
      else hlcNewer op.hlc row.maxClock) = beats at hnext
    cases beats with
    | true =>
      cases hnext
      exact .inr ⟨rfl, rfl, rfl, rfl⟩
    | false =>
      cases hnext
      exact .inl rfl

variable (hsound : ∀ base, row = some base → base.Sound)
include hsound

theorem applyOp_sound {op : RowOp} {next : RegistryRow} (hnext : (applyOp row op).1 = some next) :
    next.Sound := by
  rcases applyOp_cases row op with ⟨hdelete, -, -⟩ | ⟨-, -, -, base, hbase, hlive, -,
    hfields, hclocks⟩ |
    ⟨-, base, rfl, hlive, hbase⟩ | ⟨hsame, -⟩
  · rcases applyOp_delete hdelete hnext with hrow | ⟨-, hfields, hclocks, hdel⟩
    · exact hsound next hrow
    · exact RegistryRow.sound_of_empty hfields hclocks fun _ => by rw [hdel]; rfl
  · rw [hbase, some.injEq] at hnext
    subst hnext
    have hempty : base.Sound := RegistryRow.sound_of_empty hfields hclocks fun hdeleted => by
      rw [hlive] at hdeleted
      cases hdeleted
    exact op.written_sound hlive hempty
  · rw [hbase, some.injEq] at hnext
    subst hnext
    exact op.written_sound hlive (hsound base rfl)
  · exact hsound next (hsame.symm.trans hnext)

theorem applyOps_sound {ops : List RowOp} {last : RegistryRow}
    (hlast : applyOps row ops = some last) : last.Sound := by
  induction ops generalizing row with
  | nil => exact hsound last hlast
  | cons op rest ih => exact ih (fun base hbase => applyOp_sound hsound hbase) hlast

end Soundness

section Newest

/-- The newest clock of a row that may be missing. -/
def newestClock (row : Option RegistryRow) : Option String := row.bind RegistryRow.maxClock

theorem newestClock_le {before after : Option RegistryRow}
    (hbeats : ∀ hlc, hlcNewer hlc (newestClock after) = true →
    hlcNewer hlc (newestClock before) = true)
    {clock : String} (hclock : newestClock before = some clock) :
    ∃ later, newestClock after = some later ∧ clock ≤ later := by
  have hself : ¬ hlcNewer clock (newestClock before) = true := by
    rw [hclock, hlcNewer_some]
    exact lt_irrefl clock
  cases hafter : newestClock after with
  | none => exact absurd (hbeats clock (by rw [hafter]; rfl)) hself
  | some later =>
    refine ⟨later, rfl, le_of_not_gt fun hlt => hself (hbeats clock ?_)⟩
    rw [hafter, hlcNewer_some]
    exact hlt

theorem RegistryRow.maxClock_of_empty {row : RegistryRow} (hclocks : row.clocks = ∅) :
    row.maxClock = row.delHlc := by
  rw [maxClock, hclocks]
  rfl

theorem newestClock_eq_standing {row : Option RegistryRow}
    (hsound : ∀ base, row = some base → base.Sound) : newestClock row = standingClock row := by
  cases row with
  | none => rfl
  | some base =>
    rw [newestClock, bind_some, standingClock]
    split
    · next hdeleted => exact RegistryRow.maxClock_of_empty ((hsound base rfl).buried hdeleted).2.1
    · rfl

theorem hlcNewer_newestClock_applyOp {row : Option RegistryRow} (op : RowOp)
    (hsound : ∀ base, row = some base → base.Sound) {hlc : String}
    (hnewer : hlcNewer hlc (newestClock (applyOp row op).1) = true) :
    hlcNewer hlc (newestClock row) = true := by
  rw [newestClock_eq_standing hsound]
  rcases applyOp_cases row op with ⟨-, hbeats, gone, hgone, -, hdel⟩ |
    ⟨-, -, -, base, hbase, -, hstanding, -, -⟩ | ⟨-, base, rfl, hlive, hbase⟩ | ⟨hsame, -⟩
  · -- the tombstone's clock beat the row
    rw [hgone, newestClock, bind_some, RegistryRow.hlcNewer_maxClock_iff, hdel,
      hlcNewer_some] at hnewer
    exact hlcNewer_trans hnewer.1 hbeats
  · rw [hbase, newestClock, bind_some, RegistryRow.hlcNewer_maxClock_iff,
      RowOp.written_delHlc, hstanding] at hnewer
    exact hnewer.1
  · rw [standingClock_live hlive]
    rw [hbase, newestClock, bind_some] at hnewer
    by_contra hstale
    rw [Bool.not_eq_true] at hstale
    rw [op.not_newer_written hstale] at hnewer
    cases hnewer
  · rw [hsame, newestClock_eq_standing hsound] at hnewer
    exact hnewer

end Newest

section Order

/-- The row that an upsert creates, before its writes. -/
def freshRow (kind id : String) : RegistryRow :=
  { kind, id, seq := 0, deleted := false, delHlc := none, fields := ∅, clocks := ∅ }

theorem applyOp_upsert_none {op : RowOp} (hop : op.op = .upsert) :
    (applyOp none op).1 = some (op.written (freshRow op.kind op.id)) := by
  have hdelete : op.op ≠ .delete := by rw [hop]; exact nofun
  have hupdate : op.op ≠ .update := by rw [hop]; exact nofun
  rw [applyOp, if_neg hdelete]
  simp only [if_neg hupdate]
  exact op.writeSet_fst rfl true

theorem applyOp_upsert_live {op : RowOp} (hop : op.op = .upsert) {base : RegistryRow}
    (hlive : base.deleted = false) : (applyOp (some base) op).1 = some (op.written base) := by
  have hdelete : op.op ≠ .delete := by rw [hop]; exact nofun
  rw [applyOp, if_neg hdelete]
  simp only [hlive, Bool.false_eq_true, if_false]
  exact op.writeSet_fst hlive false

theorem applyOps_upserts_live {ops : List RowOp} (hops : ∀ op ∈ ops, op.op = .upsert)
    {base : RegistryRow} (hlive : base.deleted = false) :
    applyOps (some base) ops = some (ops.foldl (fun row op => op.written row) base) := by
  induction ops generalizing base with
  | nil => rfl
  | cons op rest ih =>
    rw [applyOps_cons, applyOp_upsert_live (hops op mem_cons_self) hlive, foldl_cons]
    exact ih (fun other hother => hops other (mem_cons_of_mem _ hother))
      (op.written_deleted hlive)

theorem applyOps_upserts {kind id : String} {ops : List RowOp}
    (hops : ∀ op ∈ ops, op.op = .upsert ∧ op.kind = kind ∧ op.id = id) (hne : ops ≠ []) :
    applyOps none ops = some (ops.foldl (fun row op => op.written row) (freshRow kind id)) := by
  cases ops with
  | nil => exact absurd rfl hne
  | cons op rest =>
    obtain ⟨hop, rfl, rfl⟩ := hops op mem_cons_self
    rw [applyOps_cons, applyOp_upsert_none hop, foldl_cons]
    exact applyOps_upserts_live (fun other hother =>
      (hops other (mem_cons_of_mem _ hother)).1) (op.written_deleted rfl)

/-- Upserts with different clocks for each field give the same row in any order. -/
theorem applyOps_upserts_perm {kind id : String} {ops others : List RowOp} (hperm : ops.Perm others)
    (hops : ∀ op ∈ ops, op.op = .upsert ∧ op.kind = kind ∧ op.id = id)
    (hdistinct : ∀ op ∈ ops, ∀ other ∈ ops, op ≠ other → op.Distinct other) :
    applyOps none ops = applyOps none others := by
  by_cases hne : ops = []
  · rw [hne] at hperm ⊢
    rw [nil_perm.mp hperm]
  · have hne' : others ≠ [] := fun hnil => hne (perm_nil.mp (hnil ▸ hperm))
    rw [applyOps_upserts hops hne,
      applyOps_upserts (fun op hop => hops op (hperm.mem_iff.mpr hop)) hne']
    congr 1
    refine hperm.foldl_eq' ?_ _
    intro op hop other hother base
    by_cases hsame : op = other
    · rw [hsame]
    · exact (RowOp.written_comm (hdistinct op hop other hother hsame) base).symm

end Order

/-- From nothing, rows are sound and their newest clock never goes back; and upserts with
different clocks for each field may be applied in any order. -/
theorem registry_rows_sound :
    (∀ (ops : List RowOp) (row : RegistryRow), applyOps none ops = some row → row.Sound) ∧
    (∀ (ops : List RowOp) (op : RowOp) (clock : String),
      newestClock (applyOps none ops) = some clock →
      ∃ later, newestClock (applyOps none (ops ++ [op])) = some later ∧ clock ≤ later) ∧
    ∀ (kind id : String) (ops others : List RowOp), ops.Perm others →
      (∀ op ∈ ops, op.op = .upsert ∧ op.kind = kind ∧ op.id = id) →
      (∀ op ∈ ops, ∀ other ∈ ops, op ≠ other → op.Distinct other) →
      applyOps none ops = applyOps none others := by
  have hsound : ∀ (ops : List RowOp) (row : RegistryRow), applyOps none ops = some row →
      row.Sound := by
    intro ops row hrow
    exact applyOps_sound (fun base hnone => by cases hnone) hrow
  refine ⟨hsound, ?_, ?_⟩
  · intro ops op clock hclock
    have hlast : applyOps none (ops ++ [op]) = (applyOp (applyOps none ops) op).1 := by
      rw [applyOps, foldl_append]
      rfl
    rw [hlast]
    exact newestClock_le (fun hlc => hlcNewer_newestClock_applyOp op (hsound ops)) hclock
  · intro kind id ops others hperm hops hdistinct
    exact applyOps_upserts_perm hperm hops hdistinct

/-- Two renames of a chat, in either order. -/
def renames : RowOp × RowOp :=
  ({ kind := "chats", id := "c1", op := .upsert, hlc := encodeHlc 1000 0 "a", clocks := none
     set := some (Std.ExtTreeMap.ofList [("title", Json.string "old")]) },
   { kind := "chats", id := "c1", op := .upsert, hlc := encodeHlc 2000 0 "b", clocks := none
     set := some (Std.ExtTreeMap.ofList [("title", Json.string "new"), ("archived", Json.null)]) })

theorem registry_rows_sound_renames :
    applyOps none [renames.1, renames.2] = applyOps none [renames.2, renames.1] := by
  refine registry_rows_sound.2.2 "chats" "c1" _ _ (List.Perm.swap _ _ []) ?_ ?_
  · intro op hop
    simp only [mem_cons, not_mem_nil, or_false] at hop
    obtain rfl | rfl := hop <;> exact ⟨rfl, rfl, rfl⟩
  · have hclock : renames.1.hlc ≠ renames.2.hlc := by decide
    intro op hop other hother hne field _ _
    simp only [mem_cons, not_mem_nil, or_false] at hop hother
    obtain rfl | rfl := hop <;> obtain rfl | rfl := hother
    · exact absurd rfl hne
    · exact hclock
    · exact hclock.symm
    · exact absurd rfl hne

end Keel
