import Mathlib.Data.Prod.Lex
import Mathlib.Data.List.Nodup
import Keel.Foundation.Trace
import Keel.Doc.RegistryDoc

/-! # The queue of unacknowledged writes

A replica's run mixes local writes, server frames, lost connections and restarts
from its own snapshot. Recorded beside the replica are the operations handed to
the queue, the batches cut from them, the batches acknowledged, and the batches
pushed on the current connection. The queue is at every moment the recorded
batches without the acknowledged ones.
-/

namespace Keel

section Clock

/-- Clocks compare by milliseconds, then by counter. -/
def HlcClock.key (clock : HlcClock) : Int ×ₗ Nat := toLex (clock.lastMs, clock.counter)

section
variable (clock : HlcClock) (nowMs : Int) (device : String)
include clock nowMs device

theorem HlcClock.key_lt_next : clock.key < (clock.next nowMs device).1.key := by
  simp only [key, next, Prod.Lex.toLex_lt_toLex]
  split
  next hnow => exact .inl hnow
  · split
    · exact .inl (by simp)
    · exact .inr (by simp)

theorem HlcClock.lastMs_le_next : clock.lastMs ≤ (clock.next nowMs device).1.lastMs := by
  simp only [next]
  split
  next hnow => exact le_of_lt hnow
  · split
    · simp
    · simp

theorem HlcClock.next_snd : (clock.next nowMs device).2 =
      encodeHlc (clock.next nowMs device).1.lastMs (clock.next nowMs device).1.counter device := rfl

end

theorem toList_pushn (text : String) (c : Char) (count : Nat) :
    (text.pushn c count).toList = text.toList ++ List.replicate count c := by
  rw [String.pushn_eq_repeat_push]
  induction count with
  | zero => simp [Nat.repeat]
  | succ count ih =>
    rw [Nat.repeat, String.toList_push, ih, List.append_assoc, List.replicate_succ']

theorem toList_zeroPadded (width value : Nat) :
    ∃ zeros, (zeroPadded width (value : Int)).toList =
      List.replicate zeros '0' ++ Nat.toDigits 10 value := by
  refine ⟨width - (toString value).length, ?_⟩
  have hsign : ¬((value : Int) < 0) := by omega
  simp [zeroPadded, hsign, String.toList_append, toList_pushn]

theorem dash_not_mem_zeroPadded (width value : Nat) :
    '-' ∉ (zeroPadded width (value : Int)).toList := by
  obtain ⟨zeros, htext⟩ := toList_zeroPadded width value
  rw [htext, List.mem_append, not_or]
  refine ⟨fun hzero => ?_, fun hdigit => ?_⟩
  · cases List.eq_of_mem_replicate hzero
  · have := Nat.isDigit_of_mem_toDigits (by decide) (by decide) hdigit
    simp at this

theorem zeroPadded_injective {width first second : Nat}
    (heq : zeroPadded width (first : Int) = zeroPadded width (second : Int)) : first = second := by
  obtain ⟨zeros, hfirst⟩ := toList_zeroPadded width first
  obtain ⟨others, hsecond⟩ := toList_zeroPadded width second
  have hvalue := congrArg (fun text : String => Nat.ofDigitChars 10 text.toList 0) heq
  simpa only [hfirst, hsecond, Nat.ofDigitChars_append, Nat.ofDigitChars_replicate_zero,
    Nat.mul_zero, Nat.ofDigitChars_ten_toDigits] using hvalue

theorem append_dash_inj {first second : List Char} {rest others : List Char}
    (hfirst : '-' ∉ first) (hsecond : '-' ∉ second)
    (heq : first ++ '-' :: rest = second ++ '-' :: others) : first = second ∧ rest = others := by
  induction first generalizing second with
  | nil =>
    cases second with
    | nil => exact ⟨rfl, by simpa using heq⟩
    | cons head tail =>
      rw [List.nil_append, List.cons_append, List.cons.injEq] at heq
      exact absurd (heq.1 ▸ List.mem_cons_self) hsecond
  | cons head tail ih =>
    cases second with
    | nil =>
      rw [List.nil_append, List.cons_append, List.cons.injEq] at heq
      exact absurd (heq.1 ▸ List.mem_cons_self) hfirst
    | cons other others' =>
      rw [List.cons_append, List.cons_append, List.cons.injEq] at heq
      obtain ⟨rfl, hrest⟩ := heq
      obtain ⟨rfl, hothers⟩ := ih (fun h => hfirst (List.mem_cons_of_mem _ h))
        (fun h => hsecond (List.mem_cons_of_mem _ h)) hrest
      exact ⟨rfl, hothers⟩

theorem encodeHlc_injective {first second : HlcClock} {device : String} (hfirst : 0 ≤ first.lastMs)
    (hsecond : 0 ≤ second.lastMs)
    (heq : encodeHlc first.lastMs first.counter device =
      encodeHlc second.lastMs second.counter device) : first.key = second.key := by
  obtain ⟨firstMs, hfirstMs⟩ := Int.eq_ofNat_of_zero_le hfirst
  obtain ⟨secondMs, hsecondMs⟩ := Int.eq_ofNat_of_zero_le hsecond
  have hdash : "-".toList = ['-'] := by simp
  have hlist := congrArg String.toList heq
  simp only [encodeHlc, hfirstMs, hsecondMs, String.toList_append, List.append_assoc, hdash,
    List.cons_append, List.nil_append] at hlist
  obtain ⟨hms, hrest⟩ := append_dash_inj (dash_not_mem_zeroPadded 13 firstMs)
    (dash_not_mem_zeroPadded 13 secondMs) hlist
  obtain ⟨hcounter, -⟩ := append_dash_inj (dash_not_mem_zeroPadded 6 first.counter)
    (dash_not_mem_zeroPadded 6 second.counter) hrest
  rw [HlcClock.key, HlcClock.key, hfirstMs, hsecondMs,
    zeroPadded_injective (String.toList_inj.mp hms),
    zeroPadded_injective (String.toList_inj.mp hcounter)]

/-- A batch id minted after the clock `floor` and no later than `last`. -/
def MintedBetween (device : String) (floor last : HlcClock) (id : String) : Prop :=
  ∃ clock : HlcClock, 0 ≤ clock.lastMs ∧ floor.key < clock.key ∧ clock.key ≤ last.key ∧
    id = "b-" ++ encodeHlc clock.lastMs clock.counter device

theorem MintedBetween.ne {device first second : String} {floor middle last : HlcClock}
    (hfirst : MintedBetween device floor middle first)
    (hsecond : MintedBetween device middle last second) : first ≠ second := by
  rintro rfl
  obtain ⟨early, hearlyMs, -, hearly, rfl⟩ := hfirst
  obtain ⟨late, hlateMs, hlate, -, heq⟩ := hsecond
  rw [String.append_right_inj] at heq
  have hkey := encodeHlc_injective hearlyMs hlateMs heq
  rw [hkey] at hearly
  exact absurd hlate (not_lt.mpr hearly)

theorem MintedBetween.mono {device id : String} {floor middle last other : HlcClock}
    (hminted : MintedBetween device middle last id) (hfloor : floor.key ≤ middle.key)
    (hlast : last.key ≤ other.key) : MintedBetween device floor other id := by
  obtain ⟨clock, hms, hafter, hbefore, hid⟩ := hminted
  exact ⟨clock, hms, lt_of_le_of_lt hfloor hafter, le_trans hbefore hlast, hid⟩

/-- Consecutive ticks mint distinct ids, all later than the clock they start from. -/
theorem Mints.distinct {device : String} {clock last : HlcClock} {ids : List String}
    (hmints : Mints device clock ids last) (hclock : 0 ≤ clock.lastMs) :
    ids.Nodup ∧ (∀ id ∈ ids, MintedBetween device clock last id) ∧ clock.key ≤ last.key ∧
      0 ≤ last.lastMs := by
  induction hmints with
  | done clock => exact ⟨List.nodup_nil, by simp, le_refl _, hclock⟩
  | @tick clock last ids nowMs hrest ih =>
    have hlt := clock.key_lt_next nowMs device
    have hms := le_trans hclock (clock.lastMs_le_next nowMs device)
    obtain ⟨hnodup, hids, hle, hlast⟩ := ih hms
    have hhead : MintedBetween device clock (clock.next nowMs device).1
        ("b-" ++ (clock.next nowMs device).2) :=
      ⟨(clock.next nowMs device).1, hms, hlt, le_refl _, by rw [HlcClock.next_snd]⟩
    refine ⟨List.nodup_cons.mpr ⟨fun hmem => ?_, hnodup⟩, ?_, le_trans (le_of_lt hlt) hle, hlast⟩
    · exact hhead.ne (hids _ hmem) rfl
    · refine List.forall_mem_cons.mpr ⟨hhead.mono (le_refl _) hle, fun id hid => ?_⟩
      exact (hids id hid).mono (le_of_lt hlt) (le_refl _)

end Clock

section Run

/-- The replica with what happened to its queue. -/
structure QueueRun where
  doc : RegistryDoc
  /-- Every op handed to the queue, in order. -/
  enqueued : List RowOp := []
  /-- Every batch the queue ever held, in order. -/
  minted : List PersistedBatch := []
  /-- The batches acknowledged while they were queued. -/
  acked : List String := []
  /-- The batches handed out for pushing since the connection was last lost. -/
  pushed : List String := []
deriving DecidableEq

inductive QueueAction where
  | enqueueOps (ops : List RowOp) (now : Nat → Int)
  | write (kind id : String) (op : OpKind) (set : Fields) (now : Nat → Int)
  | deleteRowOps (keys : List (String × String)) (now : Nat → Int)
  | applyState (seq : Nat) (full : Bool) (gcFloor : Nat) (rows visit : List RegistryRow)
      (now : Nat → Int)
  | applyRows (seq : Nat) (rows : List RegistryRow)
  | ackBatch (batch : String) (seq : Nat)
  | takePushable
  | markDisconnected
  /-- Save a snapshot and start again from it. -/
  | restart

def PendingBatch.persisted (entry : PendingBatch) : PersistedBatch :=
  { batch := entry.batch, ops := entry.ops }

namespace QueueRun

def start (device : String) : QueueRun := { doc := .new device }

/-- Record the ops handed to the queue and the batches added at its end. -/
def enqueue (run : QueueRun) (ops : List RowOp) (next : RegistryDoc) : QueueRun :=
  { run with
    doc := next
    enqueued := run.enqueued ++ ops
    minted := run.minted ++ (next.pending.drop run.doc.pending.length).map PendingBatch.persisted }

def step (codec : SnapshotCodec) (run : QueueRun) : QueueAction → Option QueueRun
  | .enqueueOps ops now => some (run.enqueue ops (run.doc.enqueueOps ops now))
  | .write kind id op set now =>
    some (run.enqueue [(run.doc.writeOp kind id op set (now 0)).2] (run.doc.write kind id op set now))
  | .deleteRowOps keys now =>
    some (run.enqueue (run.doc.deleteOps keys (now 0)).2 (run.doc.deleteRowOps keys now))
  | .applyState seq full gcFloor rows visit now =>
    if visit.Perm (allRows run.doc.authoritative) then
      some (run.enqueue (run.doc.stateSeed seq full rows visit)
        (run.doc.applyState seq full gcFloor rows visit now).1)
    else none
  | .applyRows seq rows => some { run with doc := run.doc.applyRows seq rows }
  | .ackBatch batch seq =>
    let (doc, retired) := run.doc.ackBatch batch seq
    some { run with doc, acked := if retired then run.acked ++ [batch] else run.acked }
  | .takePushable =>
    let (doc, batches) := run.doc.takePushable
    some { run with doc, pushed := run.pushed ++ batches.map PendingBatch.batch }
  | .markDisconnected => some { run with doc := run.doc.markDisconnected, pushed := [] }
  | .restart =>
    match RegistryDoc.fromBytes codec (run.doc.toBytes codec) run.doc.deviceId with
    | .ok doc => some { run with doc, pushed := [] }
    | .error _ => none

/-- The JSON library reads back the snapshot it wrote. -/
def ReadsBack (codec : SnapshotCodec) (run : QueueRun) : QueueAction → Prop
  | .restart => codec.fromSlice (codec.toVec run.doc.persisted) = some run.doc.persisted
  | _ => True

instance (codec : SnapshotCodec) (run : QueueRun) : DecidablePred (run.ReadsBack codec)
  | .restart => inferInstanceAs (Decidable (codec.fromSlice (codec.toVec run.doc.persisted) =
      some run.doc.persisted))
  | .enqueueOps _ _ | .write _ _ _ _ _ | .deleteRowOps _ _ | .applyState _ _ _ _ _ _
  | .applyRows _ _ | .ackBatch _ _ | .takePushable | .markDisconnected => isTrue trivial

end QueueRun

end Run

section Invariant

/-- The queue is the batches not acknowledged, each named by a clock tick of its
own. -/
structure QueueInv (device : String) (run : QueueRun) : Prop where
  sameDevice : run.doc.deviceId = device
  clock : 0 ≤ run.doc.clock.lastMs
  ops : run.minted.flatMap PersistedBatch.ops = run.enqueued
  size : ∀ entry ∈ run.minted, 1 ≤ entry.ops.length ∧ entry.ops.length ≤ maxOpsPerBatch
  ids : (run.minted.map PersistedBatch.batch).Nodup
  named : ∀ id ∈ run.minted.map PersistedBatch.batch,
    ∃ floor, MintedBetween device floor run.doc.clock id
  pending : run.doc.pending.map PendingBatch.persisted =
    run.minted.filter fun entry => entry.batch ∉ run.acked
  acked : ∀ id ∈ run.acked, id ∈ run.minted.map PersistedBatch.batch
  pushed : run.pushed.Nodup
  pushedMinted : ∀ id ∈ run.pushed, id ∈ run.minted.map PersistedBatch.batch
  flight : ∀ entry ∈ run.doc.pending, entry.inFlight = true ↔ entry.batch ∈ run.pushed

variable {device : String} {run : QueueRun}

theorem QueueInv.start (device : String) : QueueInv device (.start device) := by
  constructor
  all_goals simp [QueueRun.start, RegistryDoc.new]

section
variable (hinv : QueueInv device run)
include hinv

/-- Queueing ops on a replica whose clock may have ticked and whose rows may have
changed since. -/
theorem QueueInv.enqueue (middle : RegistryDoc) {next : RegistryDoc} {ops : List RowOp}
    {batches : List PendingBatch} (hpending : middle.pending = run.doc.pending)
    (hdevice : middle.deviceId = run.doc.deviceId) (hclock : run.doc.clock.key ≤ middle.clock.key)
    (hms : 0 ≤ middle.clock.lastMs) (hqueued : RegistryDoc.Enqueued middle next ops batches) :
    QueueInv device (run.enqueue ops next) := by
  have hmints := hqueued.minted
  rw [hdevice, hinv.sameDevice] at hmints
  obtain ⟨hnodup, hnew, hle, hlast⟩ := hmints.distinct hms
  have hnames : (batches.map PendingBatch.persisted).map PersistedBatch.batch =
      batches.map PendingBatch.batch := by
    rw [List.map_map]
    rfl
  have hsplit : next.pending.drop run.doc.pending.length = batches := by
    rw [hqueued.pending, hpending, List.drop_left]
  have hminted : (run.enqueue ops next).minted =
      run.minted ++ batches.map PendingBatch.persisted := by
    rw [QueueRun.enqueue, hsplit]
  -- A fresh id is later than everything named so far.
  have hfresh : ∀ id ∈ batches.map PendingBatch.batch,
      id ∉ run.minted.map PersistedBatch.batch := by
    intro id hid hold
    obtain ⟨floor, hnamed⟩ := hinv.named id hold
    exact hnamed.ne ((hnew id hid).mono hclock (le_refl _)) rfl
  refine
    { sameDevice := ?_, clock := hlast, ops := ?_, size := ?_, ids := ?_, named := ?_, pending := ?_
      acked := ?_, pushed := hinv.pushed, pushedMinted := ?_, flight := ?_ }
  · exact (hqueued.deviceId.trans hdevice).trans hinv.sameDevice
  · rw [hminted, List.flatMap_append, hinv.ops, List.flatMap_map]
    exact congrArg (run.enqueued ++ ·) hqueued.ops
  · rw [hminted]
    intro entry hentry
    rcases List.mem_append.mp hentry with hold | hnewEntry
    · exact hinv.size entry hold
    · obtain ⟨batch, hbatch, rfl⟩ := List.mem_map.mp hnewEntry
      exact hqueued.size batch hbatch
  · rw [hminted, List.map_append, hnames, List.nodup_append]
    refine ⟨hinv.ids, hnodup, fun id hold other hother heq => ?_⟩
    exact hfresh other hother (heq ▸ hold)
  · rw [hminted, List.map_append, hnames]
    intro id hid
    rcases List.mem_append.mp hid with hold | hnewId
    · obtain ⟨floor, hnamed⟩ := hinv.named id hold
      exact ⟨floor, hnamed.mono (le_refl _) (le_trans hclock hle)⟩
    · exact ⟨middle.clock, hnew id hnewId⟩
  · have hkept : (batches.map PendingBatch.persisted).filter
        (fun entry => decide (entry.batch ∉ run.acked)) = batches.map PendingBatch.persisted := by
      rw [List.filter_eq_self]
      intro entry hentry
      have hname : entry.batch ∈ batches.map PendingBatch.batch := by
        rw [← hnames]
        exact List.mem_map.mpr ⟨entry, hentry, rfl⟩
      simpa using fun hacked => hfresh entry.batch hname (hinv.acked entry.batch hacked)
    rw [hminted, List.filter_append]
    refine Eq.trans ?_ (congrArg₂ (· ++ ·) hinv.pending hkept.symm)
    exact (congrArg (List.map PendingBatch.persisted) (hqueued.pending.trans (by rw [hpending]))).trans
      List.map_append
  · intro id hid
    rw [hminted, List.map_append]
    exact List.mem_append_left _ (hinv.acked id hid)
  · intro id hid
    rw [hminted, List.map_append]
    exact List.mem_append_left _ (hinv.pushedMinted id hid)
  · intro entry hentry
    have hentry : entry ∈ run.doc.pending ++ batches := by
      rw [← hpending, ← hqueued.pending]
      exact hentry
    rcases List.mem_append.mp hentry with hold | hnewEntry
    · exact hinv.flight entry hold
    · have hname : entry.batch ∈ batches.map PendingBatch.batch := List.mem_map.mpr ⟨entry,
        hnewEntry, rfl⟩
      rw [hqueued.idle entry hnewEntry]
      refine ⟨fun habsurd => (by cases habsurd), fun hpushed => ?_⟩
      exact absurd (hinv.pushedMinted entry.batch hpushed) (hfresh entry.batch hname)

theorem QueueInv.enqueue_ticked (nowMs : Int) {next : RegistryDoc} {ops : List RowOp}
    {batches : List PendingBatch}
    (hqueued : RegistryDoc.Enqueued (run.doc.nextHlc nowMs).1 next ops batches) :
    QueueInv device (run.enqueue ops next) := by
  refine hinv.enqueue (run.doc.nextHlc nowMs).1 rfl rfl ?_ ?_ hqueued
  · exact le_of_lt (run.doc.clock.key_lt_next nowMs run.doc.deviceId)
  · exact le_trans hinv.clock (run.doc.clock.lastMs_le_next nowMs run.doc.deviceId)

theorem QueueInv.mark {doc : RegistryDoc} {pushed : List String}
    (hdevice : doc.deviceId = run.doc.deviceId) (hclock : doc.clock = run.doc.clock)
    (hpending : doc.pending.map PendingBatch.persisted = run.doc.pending.map PendingBatch.persisted)
    (hnodup : pushed.Nodup) (hminted : ∀ id ∈ pushed, id ∈ run.minted.map PersistedBatch.batch)
    (hflight : ∀ entry ∈ doc.pending, entry.inFlight = true ↔ entry.batch ∈ pushed) :
    QueueInv device { run with doc, pushed } :=
  { sameDevice := hdevice.trans hinv.sameDevice
    clock := by rw [hclock]; exact hinv.clock
    ops := hinv.ops
    size := hinv.size
    ids := hinv.ids
    named := by rw [hclock]; exact hinv.named
    pending := hpending.trans hinv.pending
    acked := hinv.acked
    pushed := hnodup
    pushedMinted := hminted
    flight := hflight }

theorem QueueInv.pending_minted {entry : PendingBatch} (hentry : entry ∈ run.doc.pending) :
    entry.persisted ∈ run.minted := by
  have hmem : entry.persisted ∈ run.doc.pending.map PendingBatch.persisted :=
    List.mem_map.mpr ⟨entry, hentry, rfl⟩
  rw [hinv.pending] at hmem
  exact List.mem_of_mem_filter hmem

theorem QueueInv.pending_ids : (run.doc.pending.map PendingBatch.batch).Nodup := by
  have hsub : ((run.doc.pending.map PendingBatch.persisted).map PersistedBatch.batch).Nodup := by
    rw [hinv.pending]
    exact hinv.ids.sublist (List.filter_sublist.map _)
  rw [List.map_map] at hsub
  exact hsub

theorem QueueInv.takePushable : QueueInv device { run with
      doc := run.doc.takePushable.1
      pushed := run.pushed ++ run.doc.takePushable.2.map PendingBatch.batch } := by
  have hnames : run.doc.takePushable.2.map PendingBatch.batch =
      (run.doc.pending.filter fun entry => !entry.inFlight).map PendingBatch.batch := by
    rw [RegistryDoc.takePushable, List.map_map]
    rfl
  have htaken : ∀ id ∈ run.doc.takePushable.2.map PendingBatch.batch,
      ∃ entry ∈ run.doc.pending, entry.inFlight = false ∧ entry.batch = id := by
    intro id hid
    rw [hnames] at hid
    obtain ⟨entry, hentry, rfl⟩ := List.mem_map.mp hid
    obtain ⟨hmem, hidle⟩ := List.mem_filter.mp hentry
    exact ⟨entry, hmem, by simpa using hidle, rfl⟩
  refine hinv.mark rfl rfl ?_ ?_ ?_ ?_
  · rw [RegistryDoc.takePushable, List.map_map]
    rfl
  · refine List.nodup_append.mpr ⟨hinv.pushed, ?_, ?_⟩
    · rw [hnames]
      exact hinv.pending_ids.sublist (List.filter_sublist.map _)
    · intro id hold other hother heq
      obtain ⟨entry, hentry, hidle, hname⟩ := htaken other hother
      rw [← heq] at hname
      rw [← hname, ← hinv.flight entry hentry, hidle] at hold
      cases hold
  · intro id hid
    rcases List.mem_append.mp hid with hold | hnew
    · exact hinv.pushedMinted id hold
    · obtain ⟨entry, hentry, -, rfl⟩ := htaken id hnew
      exact List.mem_map.mpr ⟨entry.persisted, hinv.pending_minted hentry, rfl⟩
  · intro entry hentry
    obtain ⟨old, hold, rfl⟩ := List.mem_map.mp hentry
    apply iff_of_true rfl
    cases hflight : old.inFlight with
    | true => exact List.mem_append_left _ ((hinv.flight old hold).mp hflight)
    | false =>
      apply List.mem_append_right _
      rw [hnames]
      exact List.mem_map.mpr ⟨old, List.mem_filter.mpr ⟨hold, by simp [hflight]⟩, rfl⟩

theorem QueueInv.reset {doc : RegistryDoc} (hdevice : doc.deviceId = run.doc.deviceId)
    (hclock : doc.clock = run.doc.clock)
    (hpending : doc.pending = run.doc.pending.map fun entry => { entry with inFlight := false }) :
    QueueInv device { run with doc, pushed := [] } := by
  refine hinv.mark hdevice hclock ?_ List.nodup_nil (by simp) ?_
  · rw [hpending, List.map_map]
    rfl
  · intro entry hentry
    rw [hpending] at hentry
    obtain ⟨old, -, rfl⟩ := List.mem_map.mp hentry
    simp

theorem QueueInv.ackBatch (batch : String) (seq : Nat) : QueueInv device { run with
      doc := (run.doc.ackBatch batch seq).1
      acked := if (run.doc.ackBatch batch seq).2 then run.acked ++ [batch] else run.acked } := by
  have hkept : (run.doc.ackBatch batch seq).1.pending =
      run.doc.pending.filter fun entry => entry.batch ≠ batch := rfl
  have hsub : ∀ entry ∈ (run.doc.ackBatch batch seq).1.pending, entry ∈ run.doc.pending := by
    intro entry hentry
    rw [hkept] at hentry
    exact List.mem_of_mem_filter hentry
  have hretired : (run.doc.ackBatch batch seq).2 = false →
      (run.doc.ackBatch batch seq).1.pending = run.doc.pending := by
    intro hsame
    rw [hkept]
    apply List.filter_sublist.eq_of_length
    simpa [RegistryDoc.ackBatch] using hsame
  have hnamed : (run.doc.ackBatch batch seq).2 = true →
      batch ∈ run.minted.map PersistedBatch.batch := by
    intro hgone
    have hlength : (run.doc.pending.filter fun entry => entry.batch ≠ batch).length ≠
        run.doc.pending.length := by
      simpa [RegistryDoc.ackBatch] using hgone
    rw [ne_eq, List.length_filter_eq_length_iff] at hlength
    push Not at hlength
    obtain ⟨entry, hentry, hname⟩ := hlength
    simp only [ne_eq, decide_not, Bool.not_eq_true', decide_eq_false_iff_not, not_not] at hname
    exact List.mem_map.mpr ⟨entry.persisted, hinv.pending_minted hentry, hname⟩
  refine
    { sameDevice := hinv.sameDevice, clock := hinv.clock, ops := hinv.ops, size := hinv.size
      ids := hinv.ids, named := hinv.named, pending := ?_, acked := ?_, pushed := hinv.pushed
      pushedMinted := hinv.pushedMinted, flight := fun entry h => hinv.flight entry (hsub entry h) }
  · cases hack : (run.doc.ackBatch batch seq).2 with
    | false =>
      rw [if_neg Bool.false_ne_true, hretired hack]
      exact hinv.pending
    | true =>
      have hmap : (run.doc.pending.filter fun entry => entry.batch ≠ batch).map
          PendingBatch.persisted =
          (run.doc.pending.map PendingBatch.persisted).filter fun entry => entry.batch ≠ batch := by
        rw [List.filter_map]
        rfl
      rw [if_pos rfl, hkept, hmap, hinv.pending, List.filter_filter]
      apply List.filter_congr
      intro entry _
      simp [and_comm]
  · intro id hid
    cases hack : (run.doc.ackBatch batch seq).2 with
    | false =>
      simp only [hack, Bool.false_eq_true, if_false] at hid
      exact hinv.acked id hid
    | true =>
      simp only [hack, if_true, List.mem_append, List.mem_singleton] at hid
      rcases hid with hold | rfl
      · exact hinv.acked id hold
      · exact hnamed hack

end

theorem QueueInv.step {codec : SnapshotCodec} {action : QueueAction} {next : QueueRun}
    (hinv : QueueInv device run) (hreads : run.ReadsBack codec action)
    (hstep : run.step codec action = some next) : QueueInv device next := by
  cases action with
  | enqueueOps ops now =>
    cases hstep
    obtain ⟨batches, hqueued⟩ := run.doc.enqueueOps_enqueued ops now
    exact hinv.enqueue _ rfl rfl (le_refl _) hinv.clock hqueued
  | write kind id op set now =>
    cases hstep
    obtain ⟨batches, hqueued⟩ := (run.doc.writeOp kind id op set (now 0)).1.enqueueOps_enqueued
      [(run.doc.writeOp kind id op set (now 0)).2] fun tick => now (tick + 1)
    exact hinv.enqueue_ticked (now 0) hqueued
  | deleteRowOps keys now =>
    cases hstep
    obtain ⟨batches, hqueued⟩ := (run.doc.deleteOps keys (now 0)).1.enqueueOps_enqueued
      (run.doc.deleteOps keys (now 0)).2 fun tick => now (tick + 1)
    exact hinv.enqueue_ticked (now 0) hqueued
  | applyState seq full gcFloor rows visit now =>
    rw [QueueRun.step] at hstep
    split at hstep
    · cases hstep
      obtain ⟨middle, batches, hqueued, hpending, hdevice, hclock, -, -⟩ :=
        run.doc.applyState_enqueued seq full gcFloor rows visit now
      refine hinv.enqueue _ hpending hdevice ?_ ?_ hqueued
      · rw [hclock]
      · rw [hclock]
        exact hinv.clock
    · cases hstep
  | applyRows seq rows =>
    cases hstep
    exact hinv.mark rfl rfl rfl hinv.pushed hinv.pushedMinted hinv.flight
  | ackBatch batch seq =>
    cases hstep
    exact hinv.ackBatch batch seq
  | takePushable =>
    cases hstep
    exact hinv.takePushable
  | markDisconnected =>
    cases hstep
    exact hinv.reset rfl rfl rfl
  | restart =>
    have hreads : codec.fromSlice (codec.toVec run.doc.persisted) = some run.doc.persisted := hreads
    have hrestored : RegistryDoc.fromBytes codec (run.doc.toBytes codec) run.doc.deviceId =
        .ok (.restored run.doc.persisted run.doc.deviceId) := by
      rw [RegistryDoc.fromBytes, RegistryDoc.toBytes, hreads]
      rfl
    rw [QueueRun.step, hrestored] at hstep
    cases hstep
    refine hinv.reset rfl rfl ?_
    simp [RegistryDoc.restored, RegistryDoc.persisted, Function.comp_def]

/-- Every op handed to the queue is in exactly one batch, the batches hold the ops
in order and have distinct ids, the queue is the batches whose acknowledgement has
not arrived, and no batch is handed out twice on one connection. -/
theorem queue_keeps_every_write {codec : SnapshotCodec} {device : String}
    {trace : List QueueAction} {final : QueueRun}
    (hreads : Trace.Guarded (QueueRun.step codec) (QueueRun.ReadsBack codec) (.start device) trace)
    (hrun : Trace.run (QueueRun.step codec) (.start device) trace = some final) :
    final.minted.flatMap PersistedBatch.ops = final.enqueued ∧
      (final.minted.map PersistedBatch.batch).Nodup ∧
      final.doc.pending.map PendingBatch.persisted =
        final.minted.filter (fun entry => entry.batch ∉ final.acked) ∧
      (∀ entry ∈ final.doc.pending, 1 ≤ entry.ops.length ∧ entry.ops.length ≤ 400) ∧
      final.pushed.Nodup := by
  have hinv : QueueInv device final :=
    Trace.guarded_invariant (fun _ _ _ hinv hreads hstep => hinv.step hreads hstep)
      (QueueInv.start device) hreads hrun
  refine ⟨hinv.ops, hinv.ids, hinv.pending, fun entry hentry => ?_, hinv.pushed⟩
  exact hinv.size entry.persisted (hinv.pending_minted hentry)

/-- The snapshot of a replica that queued the deletion of a chat. -/
def deletionSnapshot : PersistedState :=
  { v := 1, deviceId := "d1", serverSeq := 0, gcFloor := 0, clock := { lastMs := 1000, counter := 1 }
    rows := []
    pending :=
      [{ batch := "b-0000000001000-000001-d1"
         ops := [{ kind := "chats", id := "c1", op := .delete, set := none
                   hlc := "0000000001000-000000-d1", clocks := none }] }] }

def deletionSnapshotText : String :=
  "\x7b\"v\":1,\"deviceId\":\"d1\",\"serverSeq\":0,\"gcFloor\":0,\"clock\":\x7b\"last_ms\":1000,\"counter\":1\x7d," ++
    "\"rows\":[],\"pending\":[\x7b\"batch\":\"b-0000000001000-000001-d1\",\"ops\":[\x7b\"kind\":\"chats\"," ++
    "\"id\":\"c1\",\"op\":\"delete\",\"hlc\":\"0000000001000-000000-d1\"\x7d]\x7d]\x7d"

/-- What the JSON library prints for that snapshot, and what it reads in that
text. -/
def deletionCodec : SnapshotCodec where
  toVec _ := deletionSnapshotText.toList.map fun c => UInt8.ofNat c.toNat
  fromSlice _ := some deletionSnapshot

/-- A chat is deleted, the batch is pushed, the process restarts, pushes it again
and gets the acknowledgement. -/
def deletionTrace : List QueueAction :=
  [.deleteRowOps [("chats", "c1")] fun _ => 1000, .takePushable, .restart, .takePushable,
    .ackBatch "b-0000000001000-000001-d1" 1]

def deletionFinal : QueueRun :=
  { doc := { deviceId := "d1", serverSeq := 1, clock := { lastMs := 1000, counter := 1 }, generation := 1 }
    enqueued := deletionSnapshot.pending.flatMap PersistedBatch.ops
    minted := deletionSnapshot.pending
    acked := ["b-0000000001000-000001-d1"]
    pushed := ["b-0000000001000-000001-d1"] }

theorem queue_keeps_every_write_deletion :
    Trace.run (QueueRun.step deletionCodec) (.start "d1") deletionTrace = some deletionFinal ∧
      deletionFinal.minted.flatMap PersistedBatch.ops = deletionFinal.enqueued ∧
      deletionFinal.pushed.Nodup := by
  have hrun : Trace.run (QueueRun.step deletionCodec) (.start "d1") deletionTrace =
      some deletionFinal := by decide
  have hkept := queue_keeps_every_write (by decide) hrun
  exact ⟨hrun, hkept.1, hkept.2.2.2.2⟩

end Invariant

end Keel
