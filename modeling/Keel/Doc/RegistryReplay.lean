import Keel.Doc.RegistryRow

/-! # Replaying a queue of row operations

One client's queue of operations on a row carries strictly increasing clocks. A
queue whose acknowledgement was lost is pushed again as a whole, and a pending
queue is laid over an authoritative row that may already contain it. The second
application leaves the row as it is unless a field written early in the queue
was dropped by a deletion and then missed by the upsert that brought the row
back.
-/

namespace Keel

open List Bool

def applyOps (row : Option RegistryRow) (ops : List RowOp) : Option RegistryRow :=
  ops.foldl (fun row op => (applyOp row op).1) row

theorem applyOps_cons (row : Option RegistryRow) (op : RowOp) (rest : List RowOp) :
    applyOps row (op :: rest) = applyOps (applyOp row op).1 rest := rfl

def buries (row : Option RegistryRow) (op : RowOp) : Bool :=
  op.op = .delete && hlcNewer op.hlc (standingClock row)

/-- An upsert that finds the row missing, or under a tombstone older than
itself. -/
def revives (row : Option RegistryRow) (op : RowOp) : Bool :=
  op.op = .upsert && !isLive row && hlcNewer op.hlc (standingClock row)

/-- No delete of the queue takes effect. -/
def unburied : Option RegistryRow → List RowOp → Bool
  | _, [] => true
  | row, op :: rest => !buries row op && unburied (applyOp row op).1 rest

def RowOp.sets (op : RowOp) (field : String) : Bool :=
  op.op ≠ .delete && (op.value? field).isSome

/-- Every field the op writes to is written again by one of the later ops. -/
def coveredBy (later : List RowOp) (op : RowOp) : Bool :=
  op.writes.all fun write => !op.sets write.1 || later.any fun other => other.sets write.1

/-- Whenever an upsert brings the row to life for good, it and the ops behind it
write again to every field that an earlier op of the queue wrote to. -/
def revivalsCover : Option RegistryRow → List RowOp → List RowOp → Bool
  | _, _, [] => true
  | row, earlier, op :: rest =>
    let next := (applyOp row op).1
    (!(revives row op && unburied next rest) || earlier.all (coveredBy (op :: rest))) &&
      revivalsCover next (earlier ++ [op]) rest

/-- Whether the row is live after an op that beats its standing clock. -/
def OpKind.leavesLive (live : Bool) : OpKind → Bool
  | .upsert => true
  | .update => live
  | .delete => false

/-- The same condition read off the queue, for a row with this standing clock that
is live or not: the upsert that brings the row to life behind the last deletion, and
the ops after it, write again to every field that the queue wrote to before. -/
def queueCovers (clock : Option String) : Bool → List RowOp → List RowOp → Bool
  | _, _, [] => true
  | live, earlier, op :: rest =>
    let fresh := hlcNewer op.hlc clock
    let revival := op.op = .upsert && !live && fresh && rest.all fun later => later.op ≠ .delete
    (!revival || earlier.all (coveredBy (op :: rest))) &&
      queueCovers clock (if fresh then op.op.leavesLive live else live) (earlier ++ [op]) rest

section Written

variable {op : RowOp} {base : RegistryRow} {field : String}

theorem RowOp.clockFor_eq (hplain : op.clocks = none) (field : String) :
    op.clockFor field = op.hlc := by
  simp [clockFor, hplain]

theorem RowOp.sets_iff : op.sets field = true ↔ op.op ≠ .delete ∧ ∃ value,
    op.value? field = some value := by
  simp [sets, Option.isSome_iff_exists]

theorem RowOp.written_clock_le (op : RowOp) {clock : String}
    (hclock : base.clocks[field]? = some clock) :
    ∃ next, (op.written base).clocks[field]? = some next ∧ clock ≤ next := by
  cases hvalue : op.value? field with
  | none => exact ⟨clock, by rw [(written_absent hvalue).1, hclock], le_refl clock⟩
  | some value =>
    rw [(written_present op hvalue).1, hclock]
    by_cases hnewer : clock < op.clockFor field
    · exact ⟨op.clockFor field, by simp [hlcNewer, hnewer], le_of_lt hnewer⟩
    · exact ⟨clock, by simp [hlcNewer, hnewer], le_refl clock⟩

theorem RowOp.written_clock_of_sets (base : RegistryRow) (hplain : op.clocks = none)
    (hsets : op.sets field = true) :
    ∃ clock, (op.written base).clocks[field]? = some clock ∧ op.hlc ≤ clock := by
  obtain ⟨-, value, hvalue⟩ := sets_iff.1 hsets
  rw [(written_present op hvalue).1, clockFor_eq hplain]
  by_cases hnewer : hlcNewer op.hlc base.clocks[field]? = true
  · exact ⟨op.hlc, by simp [hnewer], le_refl _⟩
  · rw [if_neg hnewer]
    cases hclock : base.clocks[field]? with
    | none => simp [hlcNewer, hclock] at hnewer
    | some clock =>
      rw [hclock, hlcNewer_some, not_lt] at hnewer
      exact ⟨clock, rfl, hnewer⟩

theorem RowOp.written_clock_of_not_sets (base : RegistryRow) (hop : op.op ≠ .delete)
    (hsets : op.sets field = false) :
    (op.written base).clocks[field]? = base.clocks[field]? := by
  refine (written_absent ?_).1
  cases hvalue : op.value? field with
  | none => rfl
  | some value =>
    rw [sets_iff.2 ⟨hop, value, hvalue⟩] at hsets
    cases hsets

theorem RowOp.written_clock_cases (hplain : op.clocks = none) {clock : String}
    (hclock : (op.written base).clocks[field]? = some clock) :
    base.clocks[field]? = some clock ∨ clock = op.hlc := by
  cases hvalue : op.value? field with
  | none => exact .inl (by rw [← hclock, (written_absent hvalue).1])
  | some value =>
    rw [(written_present op hvalue).1, clockFor_eq hplain] at hclock
    split at hclock
    · exact .inr (Option.some.inj hclock).symm
    · exact .inl hclock

theorem RowOp.written_deleted (hbase : base.deleted = false) : (op.written base).deleted = false := by
  obtain ⟨fields, clocks, hframe⟩ := op.written_frame base
  rw [hframe, ← hbase]

theorem RowOp.written_delHlc : (op.written base).delHlc = base.delHlc := by
  obtain ⟨fields, clocks, hframe⟩ := op.written_frame base
  rw [hframe]

theorem RowOp.not_newer_written {hlc : String} (hstale : hlcNewer hlc base.maxClock = false) :
    hlcNewer hlc (op.written base).maxClock = false := by
  rw [← not_eq_true] at hstale ⊢
  refine fun hnewer => hstale ?_
  rw [RegistryRow.hlcNewer_maxClock_iff] at hnewer ⊢
  refine ⟨written_delHlc ▸ hnewer.1, ?_⟩
  intro key clock hclock
  obtain ⟨next, hnext, hle⟩ := op.written_clock_le hclock
  exact lt_of_le_of_lt hle (hnewer.2 key next hnext)

end Written

section FirstPass

/-- The clock of a field of a row that may be missing. -/
def fieldClock (row : Option RegistryRow) (field : String) : Option String :=
  row.bind fun row => row.clocks[field]?

theorem hlcNewer_of_le {first second : String} (hle : first ≤ second) :
    hlcNewer first (some second) = false := by
  rw [← not_eq_true, hlcNewer_some, not_lt]
  exact hle

theorem hlcNewer_trans {first second : String} {clock : Option String} (hlt : first < second)
    (hnewer : hlcNewer first clock = true) : hlcNewer second clock = true := by
  cases clock with
  | none => rfl
  | some clock => exact hlcNewer_some.2 ((hlcNewer_some.1 hnewer).trans hlt)

theorem isLive_written {op : RowOp} {base : RegistryRow} (hbase : base.deleted = false) :
    isLive (some (op.written base)) = true := by
  simp [isLive, RowOp.written_deleted hbase]

theorem standingClock_live {base : RegistryRow} (hbase : base.deleted = false) :
    standingClock (some base) = base.maxClock := by
  simp [standingClock, hbase]

theorem coveredBy_iff {later : List RowOp} {op : RowOp} :
    coveredBy later op = true ↔
      ∀ field, op.sets field = true → ∃ other ∈ later, other.sets field = true := by
  simp only [coveredBy, all_eq_true, or_eq_true, not_eq_true', any_eq_true]
  constructor
  · intro hcover field hsets
    obtain ⟨-, value, hvalue⟩ := RowOp.sets_iff.1 hsets
    rcases hcover (field, value) (RowOp.mem_writes_iff.2 hvalue) with hclear | hother
    · rw [hclear] at hsets
      cases hsets
    · exact hother
  · intro hcover write hwrite
    cases hsets : op.sets write.1 with
    | false => exact .inl rfl
    | true => exact .inr (hcover write.1 hsets)

/-- After an op that wrote to the row, a field needed from the rest of the queue
including it is there or is needed from the rest behind it. -/
theorem fieldClock_written_of_later {op : RowOp} {base : RegistryRow} {rest : List RowOp}
    {field hlc : String} (hplain : op.clocks = none) (hle : hlc ≤ op.hlc)
    (hlater : ∃ later ∈ op :: rest, later.sets field = true) :
    (∃ clock, fieldClock (some (op.written base)) field = some clock ∧ hlc ≤ clock) ∨
      ∃ later ∈ rest, later.sets field = true := by
  obtain ⟨later, hmem, hsets⟩ := hlater
  rcases mem_cons.mp hmem with rfl | hrest
  · obtain ⟨clock, hclock, hnewer⟩ := RowOp.written_clock_of_sets base hplain hsets
    exact .inl ⟨clock, hclock, le_trans hle hnewer⟩
  · exact .inr ⟨later, hrest, hsets⟩

variable {done rest : List RowOp} {op : RowOp} {row : Option RegistryRow}

/-- No delete of `done` can bury the row any more. -/
def DeletesStale (done : List RowOp) (row : Option RegistryRow) : Prop :=
  ∀ op ∈ done, op.op = .delete → hlcNewer op.hlc (standingClock row) = false

theorem DeletesStale.step (hstale : DeletesStale done row)
    (hclocks : ∀ old ∈ done, old.hlc < op.hlc) :
    DeletesStale (done ++ [op]) (applyOp row op).1 := by
  intro old hold hdelete
  rcases applyOp_cases row op with ⟨-, -, gone, hnext, hgone, hdel⟩ |
      ⟨hop, -, -, base, hnext, hbase, hdel, -, -⟩ |
      ⟨hop, base, rfl, hbase, hnext⟩ | ⟨hnext, hlost, -, -⟩
  · -- The tombstone carries the newest clock of the queue so far.
    have hclock : standingClock (some gone) = some op.hlc := by simp [standingClock, hgone, hdel]
    rw [hnext, hclock]
    apply hlcNewer_of_le
    rcases mem_append.mp hold with hdone | hlast
    · exact le_of_lt (hclocks old hdone)
    · rw [mem_singleton.mp hlast]
  · -- The revived row keeps the tombstone's clock, so old deletes still lose.
    have hlost : hlcNewer old.hlc (standingClock row) = false := by
      rcases mem_append.mp hold with hdone | hlast
      · exact hstale old hdone hdelete
      · rw [mem_singleton.mp hlast, hop] at hdelete
        cases hdelete
    rw [hnext, standingClock_live (RowOp.written_deleted hbase)]
    apply RowOp.not_newer_written
    rw [← not_eq_true] at hlost ⊢
    exact fun hnewer => hlost (hdel ▸ (base.hlcNewer_maxClock_iff old.hlc).mp hnewer |>.1)
  · rw [hnext, standingClock_live (RowOp.written_deleted hbase)]
    apply RowOp.not_newer_written
    rw [← standingClock_live hbase]
    rcases mem_append.mp hold with hdone | hlast
    · exact hstale old hdone hdelete
    · rw [mem_singleton.mp hlast] at hdelete
      exact absurd hdelete hop
  · rw [hnext]
    rcases mem_append.mp hold with hdone | hlast
    · exact hstale old hdone hdelete
    · rw [mem_singleton.mp hlast] at hdelete ⊢
      exact hlost hdelete

theorem DeletesStale.run (hstale : DeletesStale done row)
    (hclocks : (done ++ rest).Pairwise fun first second => first.hlc < second.hlc) :
    DeletesStale (done ++ rest) (applyOps row rest) := by
  induction rest generalizing done row with
  | nil => simpa [applyOps] using hstale
  | cons op rest ih =>
    have hhead : ∀ old ∈ done, old.hlc < op.hlc := fun old hold =>
      (pairwise_append.mp hclocks).2.2 old hold op mem_cons_self
    have hrun := ih (hstale.step hhead) (by simpa using hclocks)
    rw [applyOps_cons]
    simpa using hrun

/-- What the queue applied so far leaves behind: no delete of it can bury the row
any more, no upsert of it can bring the row to life, and a field it wrote to has a
clock at least as new, or gets one from the rest of the queue. -/
structure Settled (done rest : List RowOp) (row : Option RegistryRow) : Prop where
  deletes : DeletesStale done row
  upserts : isLive row = false → ∀ op ∈ done, op.op = .upsert →
    hlcNewer op.hlc (standingClock row) = false
  fields : isLive row = true → unburied row rest = true → ∀ op ∈ done, ∀ field,
    op.sets field = true → (∃ clock, fieldClock row field = some clock ∧ op.hlc ≤ clock) ∨
      ∃ later ∈ rest, later.sets field = true

theorem Settled.nil (row : Option RegistryRow) (ops : List RowOp) : Settled [] ops row :=
  ⟨by simp [DeletesStale], by simp, by simp⟩

theorem Settled.step (hsettled : Settled done (op :: rest) row) (hplain : op.clocks = none)
    (hclocks : ∀ old ∈ done, old.hlc < op.hlc)
    (hcover : revives row op = true → unburied (applyOp row op).1 rest = true →
      ∀ old ∈ done, coveredBy (op :: rest) old = true) :
    Settled (done ++ [op]) rest (applyOp row op).1 := by
  have hle : ∀ old ∈ done ++ [op], old.hlc ≤ op.hlc := by
    intro old hold
    rcases mem_append.mp hold with hdone | hlast
    · exact le_of_lt (hclocks old hdone)
    · rw [mem_singleton.mp hlast]
  have hself : ∀ field, op.sets field = true →
      ∃ later ∈ op :: rest, later.sets field = true :=
    fun field hsets => ⟨op, mem_cons_self, hsets⟩
  have hdeletes := hsettled.deletes.step hclocks
  rcases applyOp_cases row op with ⟨-, -, gone, hnext, hgone, hdel⟩ |
      ⟨hop, hdead, hnewer, base, hnext, hbase, -⟩ |
      ⟨hop, base, rfl, hbase, hnext⟩ | ⟨hnext, hdelete, hother, hupsert⟩
  · have hclock : standingClock (some gone) = some op.hlc := by simp [standingClock, hgone, hdel]
    rw [hnext]
    refine ⟨hnext ▸ hdeletes, ?_, ?_⟩
    · intro _ old hold _
      rw [hclock]
      exact hlcNewer_of_le (hle old hold)
    · intro hlive
      simp [isLive, hgone] at hlive
  · rw [hnext] at hcover ⊢
    refine ⟨hnext ▸ hdeletes, ?_, ?_⟩
    · intro hlive
      rw [isLive_written hbase] at hlive
      cases hlive
    · intro _ hunburied old hold field hsets
      have hrevives : revives row op = true := by simp [revives, hop, hdead, hnewer]
      apply fieldClock_written_of_later hplain (hle old hold)
      rcases mem_append.mp hold with hdone | hlast
      · exact coveredBy_iff.1 (hcover hrevives hunburied old hdone) field hsets
      · rw [mem_singleton.mp hlast] at hsets
        exact hself field hsets
  · rw [hnext]
    refine ⟨hnext ▸ hdeletes, ?_, ?_⟩
    · intro hlive
      rw [isLive_written hbase] at hlive
      cases hlive
    · intro _ hunburied old hold field hsets
      have hstill : unburied (some base) (op :: rest) = true := by
        simp [unburied, buries, hop, hnext, hunburied]
      have hbaseLive : isLive (some base) = true := by simp [isLive, hbase]
      rcases mem_append.mp hold with hdone | hlast
      · rcases hsettled.fields hbaseLive hstill old hdone field hsets with ⟨clock, hclock,
          hold⟩ | hlater
        · obtain ⟨next, hwritten, hmono⟩ := op.written_clock_le hclock
          exact .inl ⟨next, hwritten, le_trans hold hmono⟩
        · exact fieldClock_written_of_later hplain (hle old hold) hlater
      · rw [mem_singleton.mp hlast] at hsets ⊢
        exact fieldClock_written_of_later hplain (le_refl op.hlc) (hself field hsets)
  · rw [hnext]
    refine ⟨hnext ▸ hdeletes, ?_, ?_⟩
    · intro hdead old hold holdOp
      rcases mem_append.mp hold with hdone | hlast
      · exact hsettled.upserts hdead old hdone holdOp
      · rw [mem_singleton.mp hlast] at holdOp ⊢
        exact hupsert holdOp
    · intro hlive hunburied old hold field hsets
      -- Only a delete is ignored by a live row, and a delete writes no field.
      have hop : op.op = .delete := by
        by_contra hop
        rw [hother hop] at hlive
        cases hlive
      have hnone : op.sets field = false := by simp [RowOp.sets, hop]
      have hstill : unburied row (op :: rest) = true := by
        simp [unburied, buries, hdelete hop, hnext, hunburied]
      rcases mem_append.mp hold with hdone | hlast
      · rcases hsettled.fields hlive hstill old hdone field hsets with hclock | ⟨later, hmem, hlater⟩
        · exact .inl hclock
        · rcases mem_cons.mp hmem with rfl | hrest
          · rw [hnone] at hlater
            cases hlater
          · exact .inr ⟨later, hrest, hlater⟩
      · rw [mem_singleton.mp hlast, hnone] at hsets
        cases hsets

theorem Settled.run (hsettled : Settled done rest row) (hplain : ∀ op ∈ rest, op.clocks = none)
    (hclocks : (done ++ rest).Pairwise fun first second => first.hlc < second.hlc)
    (hcover : revivalsCover row done rest = true) :
    Settled (done ++ rest) [] (applyOps row rest) := by
  induction rest generalizing done row with
  | nil => simpa [applyOps] using hsettled
  | cons op rest ih =>
    rw [revivalsCover, and_eq_true] at hcover
    have hhead : ∀ old ∈ done, old.hlc < op.hlc := fun old hold =>
      (pairwise_append.mp hclocks).2.2 old hold op mem_cons_self
    have hstep := hsettled.step (hplain op mem_cons_self) hhead (by
      intro hrevives hunburied
      simpa [hrevives, hunburied, all_eq_true] using hcover.1)
    have hrun := ih hstep (fun other hother => hplain other (mem_cons_of_mem _ hother))
      (by simpa using hclocks) hcover.2
    rw [applyOps_cons]
    simpa using hrun

end FirstPass

section SecondPass

variable {ops : List RowOp} {row : Option RegistryRow}

theorem Settled.applyOp_eq (hsettled : Settled ops [] row) (hplain : ∀ op ∈ ops, op.clocks = none)
    {op : RowOp} (hop : op ∈ ops) : (applyOp row op).1 = row := by
  rcases applyOp_cases row op with ⟨hdelete, hnewer, -⟩ | ⟨hupsert, hdead, hnewer, -⟩ |
      ⟨hwrite, base, rfl, hbase, hnext⟩ | ⟨hnext, -⟩
  · rw [hsettled.deletes op hop hdelete] at hnewer
    cases hnewer
  · rw [hsettled.upserts hdead op hop hupsert] at hnewer
    cases hnewer
  · rw [hnext]
    congr 1
    apply RowOp.written_eq_self
    intro field value hvalue
    have hlive : isLive (some base) = true := by simp [isLive, hbase]
    have hsets : op.sets field = true := RowOp.sets_iff.2 ⟨hwrite, value, hvalue⟩
    rcases hsettled.fields hlive rfl op hop field hsets with ⟨clock, hclock, hle⟩ | ⟨later, hmem, -⟩
    · rw [fieldClock, Option.bind_some] at hclock
      rw [RowOp.clockFor_eq (hplain op hop), hclock]
      exact hlcNewer_of_le hle
    · cases hmem
  · exact hnext

theorem applyOps_eq_self (hquiet : ∀ op ∈ ops, (applyOp row op).1 = row) : applyOps row ops = row := by
  induction ops with
  | nil => rfl
  | cons op rest ih =>
    rw [applyOps_cons, hquiet op mem_cons_self]
    exact ih fun other hother => hquiet other (mem_cons_of_mem _ hother)

theorem applyOps_fieldClock_none {field : String} (hlive : isLive row = true)
    (hunburied : unburied row ops = true) (hnone : fieldClock row field = none)
    (hsets : ∀ op ∈ ops, op.sets field = false) :
    isLive (applyOps row ops) = true ∧ fieldClock (applyOps row ops) field = none := by
  induction ops generalizing row with
  | nil => exact ⟨hlive, hnone⟩
  | cons op rest ih =>
    rw [unburied, and_eq_true, not_eq_true'] at hunburied
    have hrest : ∀ other ∈ rest, other.sets field = false :=
      fun other hother => hsets other (mem_cons_of_mem _ hother)
    rw [applyOps_cons]
    rcases applyOp_cases row op with ⟨hdelete, hnewer, -⟩ | ⟨-, hdead, -⟩ |
        ⟨hwrite, base, rfl, hbase, hnext⟩ | ⟨hnext, -⟩
    · simp [buries, hdelete, hnewer] at hunburied
    · rw [hdead] at hlive
      cases hlive
    · rw [hnext] at hunburied ⊢
      refine ih (isLive_written hbase) hunburied.2 ?_ hrest
      have hkept := RowOp.written_clock_of_not_sets base hwrite
        (hsets op mem_cons_self)
      rw [fieldClock, Option.bind_some] at hnone ⊢
      rw [hkept, hnone]
    · rw [hnext] at hunburied ⊢
      exact ih hlive hunburied.2 hnone hrest

/-- A live row whose deletes all lose has, in the end, a clock for every field the
queue writes to. -/
theorem applyOps_fieldClock_some (field : String) (hlive : isLive row = true)
    (hplain : ∀ op ∈ ops, op.clocks = none)
    (hdeletes : ∀ op ∈ ops, op.op = .delete → hlcNewer op.hlc (standingClock row) = false)
    (hsome : (fieldClock row field).isSome = true ∨ ∃ op ∈ ops, op.sets field = true) :
    (fieldClock (applyOps row ops) field).isSome = true := by
  induction ops generalizing row with
  | nil => simpa [applyOps] using hsome
  | cons op rest ih =>
    have hplainRest : ∀ other ∈ rest, other.clocks = none :=
      fun other hother => hplain other (mem_cons_of_mem _ hother)
    rw [applyOps_cons]
    rcases applyOp_cases row op with ⟨hdelete, hnewer, -⟩ | ⟨-, hdead, -⟩ |
        ⟨hwrite, base, rfl, hbase, hnext⟩ | ⟨hnext, -, hother, -⟩
    · rw [hdeletes op mem_cons_self hdelete] at hnewer
      cases hnewer
    · rw [hdead] at hlive
      cases hlive
    · rw [hnext]
      refine ih (isLive_written hbase) hplainRest ?_ ?_
      · intro other hmem hdelete
        have hstale := hdeletes other (mem_cons_of_mem _ hmem) hdelete
        rw [standingClock_live hbase] at hstale
        rw [standingClock_live (RowOp.written_deleted hbase)]
        exact RowOp.not_newer_written hstale
      · rcases hsome with hsome | ⟨other, hmem, hsets⟩
        · obtain ⟨clock, hclock⟩ := Option.isSome_iff_exists.mp hsome
          obtain ⟨next, hwritten, -⟩ := op.written_clock_le hclock
          exact .inl (Option.isSome_iff_exists.mpr ⟨next, hwritten⟩)
        · rcases mem_cons.mp hmem with rfl | hrest
          · obtain ⟨next, hwritten, -⟩ := RowOp.written_clock_of_sets base
              (hplain other mem_cons_self) hsets
            exact .inl (Option.isSome_iff_exists.mpr ⟨next, hwritten⟩)
          · exact .inr ⟨other, hrest, hsets⟩
    · rw [hnext]
      refine ih hlive hplainRest ?_ ?_
      · exact fun other hmem => hdeletes other (mem_cons_of_mem _ hmem)
      · rcases hsome with hsome | ⟨other, hmem, hsets⟩
        · exact .inl hsome
        · rcases mem_cons.mp hmem with rfl | hrest
          · -- The live row ignored the op, so it is a delete.
            have hwrite := (RowOp.sets_iff.1 hsets).1
            rw [hother hwrite] at hlive
            cases hlive
          · exact .inr ⟨other, hrest, hsets⟩

end SecondPass

section Replay

variable {done rest : List RowOp} {row : Option RegistryRow}

/-- A revival that lasts and misses a field of an earlier op leaves the row
without that field's clock. -/
theorem fieldClock_none_of_uncovered (hcover : revivalsCover row done rest = false) :
    ∃ field, (∃ op ∈ done ++ rest, op.sets field = true) ∧
      isLive (applyOps row rest) = true ∧ fieldClock (applyOps row rest) field = none := by
  induction rest generalizing done row with
  | nil => simp [revivalsCover] at hcover
  | cons op rest ih =>
    rw [revivalsCover, and_eq_false_iff] at hcover
    rw [applyOps_cons]
    rcases hcover with hhere | hrest
    · simp only [or_eq_false_iff, not_eq_false', and_eq_true,
        all_eq_false] at hhere
      obtain ⟨⟨hrevives, hunburied⟩, old, hold, huncovered⟩ := hhere
      simp only [revives, and_eq_true, not_eq_true', decide_eq_true_eq] at hrevives
      rw [coveredBy_iff] at huncovered
      push Not at huncovered
      obtain ⟨field, hsets, hlater⟩ := huncovered
      have hclear : ∀ other ∈ op :: rest, other.sets field = false :=
        fun other hother => by simpa using hlater other hother
      refine ⟨field, ⟨old, mem_append_left _ hold, hsets⟩, ?_⟩
      rcases applyOp_cases row op with ⟨hdelete, -⟩ |
          ⟨hop, -, -, base, hnext, hbase, -, -, hempty⟩ |
          ⟨-, base, rfl, hbase, -⟩ | ⟨-, -, -, hupsert⟩
      · rw [hrevives.1.1] at hdelete
        cases hdelete
      · rw [hnext] at hunburied ⊢
        refine applyOps_fieldClock_none (isLive_written hbase) hunburied ?_
          fun other hother => hclear other (mem_cons_of_mem _ hother)
        have hkept := RowOp.written_clock_of_not_sets base
          (by rw [hop]; exact fun habsurd => by cases habsurd) (hclear op mem_cons_self)
        rw [fieldClock, Option.bind_some, hkept, hempty]
        exact Std.ExtTreeMap.getElem?_empty
      · simp [isLive, hbase] at hrevives
      · rw [hupsert hrevives.1.1] at hrevives
        exact absurd hrevives.2 (by simp)
    · obtain ⟨field, ⟨old, hold, hsets⟩, hrow⟩ := ih hrest
      exact ⟨field, ⟨old, by simpa using hold, hsets⟩, hrow⟩

/-- For a clock newer than the op, the op does not change whether it beats the row. -/
theorem hlcNewer_standingClock_applyOp {op : RowOp} {hlc : String} (hplain : op.clocks = none)
    (hlt : op.hlc < hlc) (row : Option RegistryRow) :
    hlcNewer hlc (standingClock (applyOp row op).1) = hlcNewer hlc (standingClock row) := by
  rw [Bool.eq_iff_iff]
  rcases applyOp_cases row op with ⟨-, hnewer, gone, hnext, hgone, hdel⟩ |
      ⟨-, -, -, base, hnext, hbase, hdel, -, hempty⟩ |
      ⟨-, base, rfl, hbase, hnext⟩ | ⟨hnext, -⟩
  · have hclock : standingClock (some gone) = some op.hlc := by simp [standingClock, hgone, hdel]
    rw [hnext, hclock, hlcNewer_some]
    exact ⟨fun _ => hlcNewer_trans hlt hnewer, fun _ => hlt⟩
  · rw [hnext, standingClock_live (RowOp.written_deleted hbase), RegistryRow.hlcNewer_maxClock_iff,
      RowOp.written_delHlc, hdel]
    apply and_iff_left
    intro field clock hclock
    rcases RowOp.written_clock_cases hplain hclock with hold | rfl
    · rw [hempty, Std.ExtTreeMap.getElem?_empty] at hold
      cases hold
    · exact hlt
  · rw [hnext, standingClock_live (RowOp.written_deleted hbase), standingClock_live hbase]
    refine ⟨fun hnewer => ?_, fun hnewer => ?_⟩
    · by_contra hstale
      rw [not_eq_true] at hstale
      rw [RowOp.not_newer_written hstale] at hnewer
      cases hnewer
    · rw [RegistryRow.hlcNewer_maxClock_iff] at hnewer ⊢
      rw [RowOp.written_delHlc]
      refine ⟨hnewer.1, ?_⟩
      intro field clock hclock
      rcases RowOp.written_clock_cases hplain hclock with hold | rfl
      · exact hnewer.2 field clock hold
      · exact hlt
  · rw [hnext]

/-- An op that beats the standing clock decides whether the row is live; any other
leaves that as it is. -/
theorem isLive_applyOp (row : Option RegistryRow) (op : RowOp) :
    isLive (applyOp row op).1 = if hlcNewer op.hlc (standingClock row) then
      op.op.leavesLive (isLive row) else isLive row := by
  rcases applyOp_cases row op with ⟨hop, hnewer, gone, hnext, hgone, -⟩ |
      ⟨hop, -, hnewer, base, hnext, hbase, -⟩ |
      ⟨hop, base, rfl, hbase, hnext⟩ | ⟨hnext, hdelete, hother, hupsert⟩
  · rw [hnext, if_pos hnewer, hop]
    simp [isLive, hgone, OpKind.leavesLive]
  · rw [hnext, if_pos hnewer, hop, isLive_written hbase]
    rfl
  · have hlive : isLive (some base) = true := by simp [isLive, hbase]
    rw [hnext, isLive_written hbase, hlive]
    cases hkind : op.op with
    | upsert | update => simp [OpKind.leavesLive]
    | delete => exact absurd hkind hop
  · rw [hnext]
    cases hkind : op.op with
    | upsert => rw [hupsert hkind, if_neg Bool.false_ne_true]
    | update => simp [OpKind.leavesLive]
    | delete => rw [hdelete hkind, if_neg Bool.false_ne_true]

theorem queueCovers_congr {first second : Option String} {live : Bool}
    (hclocks : ∀ op ∈ rest, hlcNewer op.hlc first = hlcNewer op.hlc second) :
    queueCovers first live done rest = queueCovers second live done rest := by
  induction rest generalizing live done with
  | nil => rfl
  | cons op rest ih =>
    have hrest := fun other hother => hclocks other (mem_cons_of_mem op hother)
    simp only [queueCovers, hclocks op mem_cons_self, ih hrest]

/-- Behind an op that beats the row, every delete of the queue takes effect. -/
theorem unburied_eq {clock : Option String} (hstanding : standingClock row = clock)
    (hplain : ∀ op ∈ rest, op.clocks = none)
    (hclocks : rest.Pairwise fun first second => first.hlc < second.hlc)
    (hfresh : ∀ op ∈ rest, hlcNewer op.hlc clock = true) :
    unburied row rest = rest.all fun op => op.op ≠ .delete := by
  induction rest generalizing row clock with
  | nil => rfl
  | cons op rest ih =>
    rw [pairwise_cons] at hclocks
    have hhead := hfresh op mem_cons_self
    have hrest : ∀ other ∈ rest,
        hlcNewer other.hlc (standingClock (applyOp row op).1) = true := by
      intro other hother
      rw [hlcNewer_standingClock_applyOp (hplain op mem_cons_self)
        (hclocks.1 other hother), hstanding]
      exact hfresh other (mem_cons_of_mem _ hother)
    rw [unburied, all_cons, ih rfl
      (fun other hother => hplain other (mem_cons_of_mem _ hother)) hclocks.2 hrest]
    simp [buries, hstanding, hhead]

theorem revivalsCover_eq (hplain : ∀ op ∈ rest, op.clocks = none)
    (hclocks : rest.Pairwise fun first second => first.hlc < second.hlc) :
    revivalsCover row done rest = queueCovers (standingClock row) (isLive row) done rest := by
  induction rest generalizing done row with
  | nil => rfl
  | cons op rest ih =>
    rw [pairwise_cons] at hclocks
    have hplainRest : ∀ other ∈ rest, other.clocks = none :=
      fun other hother => hplain other (mem_cons_of_mem _ hother)
    have hkept : ∀ other ∈ rest, hlcNewer other.hlc (standingClock (applyOp row op).1) =
        hlcNewer other.hlc (standingClock row) := fun other hother =>
      hlcNewer_standingClock_applyOp (hplain op mem_cons_self) (hclocks.1 other hother) row
    have hunburied : hlcNewer op.hlc (standingClock row) = true →
        unburied (applyOp row op).1 rest = rest.all fun later => later.op ≠ .delete := by
      intro hnewer
      apply unburied_eq rfl hplainRest hclocks.2
      intro other hother
      rw [hkept other hother]
      exact hlcNewer_trans (hclocks.1 other hother) hnewer
    simp only [revivalsCover, queueCovers]
    rw [ih hplainRest hclocks.2, isLive_applyOp, queueCovers_congr hkept]
    cases hnewer : hlcNewer op.hlc (standingClock row) with
    | false => simp [revives, hnewer]
    | true => simp [revives, hnewer, hunburied hnewer]

/-- Applying a queue twice is applying it once exactly when the revival behind its
last deletion writes again to what the queue wrote before. -/
theorem applyOps_twice_iff (row : Option RegistryRow) (ops : List RowOp)
    (hclocks : ops.Pairwise fun first second => first.hlc < second.hlc)
    (hplain : ∀ op ∈ ops, op.clocks = none) :
    applyOps (applyOps row ops) ops = applyOps row ops ↔
      queueCovers (standingClock row) (isLive row) [] ops = true := by
  rw [← revivalsCover_eq hplain hclocks]
  constructor
  · intro htwice
    by_contra hcover
    rw [Bool.not_eq_true] at hcover
    obtain ⟨field, hsets, hlive, hnone⟩ := fieldClock_none_of_uncovered hcover
    have hstale : DeletesStale ops (applyOps row ops) :=
      DeletesStale.run (fun _ hop => absurd hop not_mem_nil) hclocks
    -- The second pass writes the field that the first one lost.
    have hsome := applyOps_fieldClock_some field hlive hplain hstale (.inr hsets)
    rw [htwice, hnone] at hsome
    cases hsome
  · intro hcover
    have hsettled := (Settled.nil row ops).run hplain hclocks hcover
    exact applyOps_eq_self fun op hop => hsettled.applyOp_eq hplain hop

/-- A chat's queue: named, deleted, and written again. -/
def revivalQueue (second : Fields) : List RowOp :=
  let op (kind : OpKind) (counter : Nat) (set : Option Fields) : RowOp :=
    { kind := "chat", id := "c1", op := kind, set, hlc := encodeHlc 1000 counter "d1", clocks := none }
  [op .upsert 0 (some (Std.ExtTreeMap.ofList [("title", Json.string "first")])), op .delete 1 none,
    op .upsert 2 (some second)]

/-- The last upsert names the chat again. -/
theorem applyOps_twice_renamed :
    let ops := revivalQueue
      (Std.ExtTreeMap.ofList [("title", Json.string "second"), ("branch", Json.string "main")])
    applyOps (applyOps none ops) ops = applyOps none ops :=
  (applyOps_twice_iff none _ (by decide) (by decide)).mpr (by decide)

/-- The last upsert does not name the chat: the row loses the title, and gets the
first one back when the queue is applied again. -/
theorem revivalQueue_unstable :
    let ops := revivalQueue (Std.ExtTreeMap.ofList [("branch", Json.string "main")])
    ops.Pairwise (fun first second => first.hlc < second.hlc) ∧ (∀ op ∈ ops, op.clocks = none) ∧
      (applyOps none ops).map (fun row => row.fields["title"]?) = some none ∧
      (applyOps (applyOps none ops) ops).map (fun row => row.fields["title"]?) =
        some (some (.string "first")) ∧
      applyOps (applyOps none ops) ops ≠ applyOps none ops := by
  decide

end Replay

end Keel
