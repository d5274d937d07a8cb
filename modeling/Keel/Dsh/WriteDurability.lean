import Keel.Dsh.WriteBehind
import Keel.Foundation.Trace

/-! # What a drain makes durable

As long as no write fails, writes complete in the order they were started, no batch
is taken with a gap and no drain finds the queue empty while a write is in flight,
an event that was enqueued is in the backend's log, in flight or queued, and the
backend's log followed by what is in flight has consecutive numbers. A drain that
returns then leaves every earlier event in the log.
-/

namespace Keel.Session

open List Option

section Batches

variable {event : Event} {durableNext : Nat} {batch : List Event}

theorem exists_mem_destutter (events : List Event) (hevent : event ∈ events) :
    ∃ kept ∈ events.destutter (fun a b => a.seq ≠ b.seq), kept.seq = event.seq := by
  have hcons : ∀ (rest : List Event) (first : Event), ∀ event ∈ first :: rest,
      ∃ kept ∈ rest.destutter' (fun a b => a.seq ≠ b.seq) first, kept.seq = event.seq := by
    intro rest
    induction rest with
    | nil =>
      intro first event hevent
      obtain rfl := mem_singleton.mp hevent
      exact ⟨event, mem_singleton_self _, rfl⟩
    | cons second others ih =>
      intro first event hevent
      rw [List.destutter']
      split
      next hne =>
        rcases mem_cons.mp hevent with rfl | hrest
        · exact ⟨event, mem_cons_self, rfl⟩
        · obtain ⟨kept, hkept, hseq⟩ := ih second event hrest
          exact ⟨kept, mem_cons_of_mem _ hkept, hseq⟩
      next heq =>
        rw [not_not] at heq
        rcases mem_cons.mp hevent with rfl | hrest
        · exact ih event event mem_cons_self
        · rcases mem_cons.mp hrest with rfl | hother
          · obtain ⟨kept, hkept, hseq⟩ := ih first first mem_cons_self
            exact ⟨kept, hkept, hseq.trans heq⟩
          · exact ih first event (mem_cons_of_mem _ hother)
  cases events with
  | nil => cases hevent
  | cons first rest => exact hcons rest first event hevent

theorem mem_of_mem_readyBatch (hevent : event ∈ readyBatch durableNext batch) : event ∈ batch := by
  have hsorted := (destutter_sublist _ _).subset (mem_of_mem_filter hevent)
  exact (perm_insertionSort _ batch).mem_iff.mp hsorted

theorem exists_mem_readyBatch (hevent : event ∈ batch) (hnext : durableNext ≤ event.seq) :
    ∃ kept ∈ readyBatch durableNext batch, kept.seq = event.seq := by
  obtain ⟨kept, hkept, hseq⟩ := exists_mem_destutter
    (batch.insertionSort fun a b => a.seq ≤ b.seq) ((perm_insertionSort _ batch).mem_iff.mpr hevent)
  refine ⟨kept, mem_filter.mpr ⟨hkept, ?_⟩, hseq⟩
  rw [hseq]
  exact decide_eq_true hnext

theorem prepareBatch_of_nil (hready : readyBatch durableNext batch = []) :
    prepareBatch durableNext batch = (durableNext, none) := by
  simp only [prepareBatch, hready, head?_nil]

theorem prepareBatch_of_contiguous (hne : readyBatch durableNext batch ≠ [])
    (hready : Contiguous durableNext (readyBatch durableNext batch)) :
    prepareBatch durableNext batch =
      (durableNext + (readyBatch durableNext batch).length, some (readyBatch durableNext batch)) := by
  rw [prepareBatch]
  generalize readyBatch durableNext batch = ready at hne hready
  obtain ⟨last, hlast⟩ : ∃ last, ready.getLast? = some last :=
    ⟨_, getLast?_eq_some_getLast hne⟩
  have hend := hready.getLast hlast
  cases ready with
  | nil => exact absurd rfl hne
  | cons first rest =>
    simp only [head?_cons, hlast, hready.1, gt_iff_lt, Nat.lt_irrefl, if_false, hend]

theorem Contiguous.exists_mem {start : Nat} {events : List Event} (hevents : Contiguous start events)
    (seq : Nat) (hstart : start ≤ seq) (hend : seq < start + events.length) :
    ∃ event ∈ events, event.seq = seq := by
  induction events generalizing start with
  | nil => simp at hend; omega
  | cons first rest ih =>
    rcases Nat.eq_or_lt_of_le hstart with rfl | hlater
    · exact ⟨first, mem_cons_self, hevents.1⟩
    · obtain ⟨event, hevent, hseq⟩ := ih hevents.2 hlater (by rw [length_cons] at hend; omega)
      exact ⟨event, mem_cons_of_mem _ hevent, hseq⟩

theorem Contiguous.bounds {start : Nat} {events : List Event} (hevents : Contiguous start events)
    (hevent : event ∈ events) :
    start ≤ event.seq ∧ event.seq < start + events.length := by
  induction events generalizing start with
  | nil => cases hevent
  | cons head tail ih =>
    rw [length_cons]
    rcases mem_cons.mp hevent with rfl | htail
    · have hhead := hevents.1
      omega
    · have hrest := ih hevents.2 htail
      omega

theorem Contiguous.seq_ne {start : Nat} {first second : List Event}
    (hseq : Contiguous start (first ++ second)) {other : Event} (hevent : event ∈ first)
    (hother : other ∈ second) : event.seq ≠ other.seq := by
  obtain ⟨hfirst, hsecond⟩ := contiguous_append.1 hseq
  have hbefore := hfirst.bounds hevent
  have hafter := hsecond.bounds hother
  omega

end Batches

namespace SessionWriteBehind

/-- The events in flight, in the order their writes were started. -/
def flight (state : SessionWriteBehind) : List Event := state.inFlight.flatMap Prod.snd

/-- The number behind the backend's log and what is in flight. -/
def nextSeq (state : SessionWriteBehind) : Nat := state.durable.length + state.flight.length

def ready (state : SessionWriteBehind) : List Event := readyBatch state.durableNext state.pending

/-- The next batch continues the log without gaps. -/
def Continues (state : SessionWriteBehind) : Prop :=
  state.durableNext = state.nextSeq ∧ Contiguous state.nextSeq state.ready

/-- A drain that takes the queue now has the last events to write, or there are none
and nothing is in flight. -/
def TakesLast (state : SessionWriteBehind) : Prop :=
  state.ready = [] ∧ state.inFlight = [] ∨ state.ready ≠ [] ∧ state.Continues

/-- A session whose backend holds the first `stored` events. -/
def start (source : Nat → Event) (stored : Nat) : SessionWriteBehind where
  durable := (List.range stored).map source

end SessionWriteBehind

/-- The steps that lose and reorder nothing. -/
def WriteAction.Orderly (state : SessionWriteBehind) : WriteAction → Prop
  | .enqueue _ | .clearSlot _ => True
  | .timerFires _ => state.ready = [] ∨ state.Continues
  | .written task succeeds => succeeds = true ∧ state.inFlight.head?.map Prod.fst = some task
  | .drain => state.writing = none → state.TakesLast
  | .drainJoined _ => state.TakesLast
  | .setDurableNext seq => seq ≤ state.durable.length

/-- The log is in order, and holds what was enqueued before each drain that
returned. -/
structure DrainsDurable (state : SessionWriteBehind) : Prop where
  ordered : Contiguous 0 state.durable
  drained : ∀ before, WriteTask.drain before (.returned true) ∈ state.tasks →
    ∀ event ∈ before, event ∈ state.durable

def WriteTask.isWriting : WriteTask → Bool
  | .flush .writing | .drain _ .writing => true
  | _ => false

/-- Where every enqueued event is, and what the drains rely on. -/
structure Tracked (source : Nat → Event) (state : SessionWriteBehind) : Prop where
  durable : Contiguous 0 state.durable
  flight : Contiguous state.durable.length state.flight
  next : state.durableNext ≤ state.nextSeq
  nextFlight : state.inFlight ≠ [] → state.durableNext = state.nextSeq
  known : ∀ event, event ∈ state.durable ∨ event ∈ state.flight ∨ event ∈ state.pending →
    event = source event.seq
  accounted : ∀ event ∈ state.enqueued,
    event ∈ state.durable ∨ event ∈ state.flight ∨ event ∈ state.pending
  before : ∀ (id : Nat) before phase, state.tasks[id]? = some (.drain before phase) →
    before ⊆ state.enqueued
  ids : (state.inFlight.map Prod.fst).Nodup
  writers : ∀ id ∈ state.inFlight.map Prod.fst,
    ∃ task, state.tasks[id]? = some task ∧ task.isWriting = true
  drained : ∀ (id : Nat) before, state.tasks[id]? = some (.drain before (.returned true)) →
    before ⊆ state.durable
  /-- The write of a drain is behind everything it waits for. -/
  draining : ∀ (id : Nat) before, state.tasks[id]? = some (.drain before .writing) →
    ∃ earlier batch later, state.inFlight = earlier ++ (id, batch) :: later ∧
      ∀ event ∈ before, event ∈ state.durable ∨ event ∈ earlier.flatMap Prod.snd ∨ event ∈ batch

section Steps

variable {source : Nat → Event} {state : SessionWriteBehind}

theorem Tracked.start (source : Nat → Event) (hsource : ∀ seq, (source seq).seq = seq)
    (stored : Nat) : Tracked source (.start source stored) := by
  have hstored : ∀ count, Contiguous 0 ((List.range count).map source) := by
    intro count
    induction count with
    | zero => trivial
    | succ count ih =>
      rw [range_succ, map_append, contiguous_append]
      refine ⟨ih, ?_, trivial⟩
      rw [hsource, length_map, length_range, Nat.zero_add]
  refine ⟨hstored stored, trivial, Nat.zero_le _, fun hne => absurd rfl hne, ?_, ?_, ?_, nodup_nil,
    ?_, ?_, ?_⟩
  · rintro event (hdurable | hflight | hpending)
    · obtain ⟨seq, -, rfl⟩ := mem_map.mp hdurable
      rw [hsource]
    · cases hflight
    · cases hpending
  all_goals simp [SessionWriteBehind.start]

section
variable (htracked : Tracked source state)
include htracked

theorem Tracked.mem_of_lt {event : Event} (hevent : event = source event.seq)
    (hseq : event.seq < state.durableNext) : event ∈ state.durable ∨ event ∈ state.flight := by
  have hall : Contiguous 0 (state.durable ++ state.flight) := by
    rw [contiguous_append, Nat.zero_add]
    exact ⟨htracked.durable, htracked.flight⟩
  have hnext := htracked.next
  obtain ⟨found, hfound, hsame⟩ := hall.exists_mem event.seq (Nat.zero_le _)
    (by rw [SessionWriteBehind.nextSeq] at hnext; rw [length_append]; omega)
  rw [mem_append] at hfound
  have hknown : found = source found.seq :=
    htracked.known found (hfound.elim .inl fun h => .inr (.inl h))
  rw [hsame, ← hevent] at hknown
  rwa [hknown] at hfound

theorem Tracked.flags (timerArmed : Bool) (writing : Option Nat) :
    Tracked source { state with timerArmed, writing } :=
  ⟨htracked.durable, htracked.flight, htracked.next, htracked.nextFlight, htracked.known,
    htracked.accounted, htracked.before, htracked.ids, htracked.writers, htracked.drained,
    htracked.draining⟩

/-- Tasks may come and go as long as no write and no return of a drain is among
them. -/
theorem Tracked.withTasks (tasks : List WriteTask)
    (hdrains : ∀ (id : Nat) before phase, tasks[id]? = some (.drain before phase) →
      state.tasks[id]? = some (.drain before phase) ∨
        (∃ flush, phase = .joining flush) ∧ before ⊆ state.enqueued)
    (hwriting : ∀ (id : Nat) task, state.tasks[id]? = some task → task.isWriting = true →
      tasks[id]? = some task) : Tracked source { state with tasks } := by
  refine ⟨htracked.durable, htracked.flight, htracked.next, htracked.nextFlight, htracked.known,
    htracked.accounted, ?_, htracked.ids, ?_, ?_, ?_⟩
  · intro id before phase htask
    rcases hdrains id before phase htask with hold | ⟨-, hbefore⟩
    · exact htracked.before id before phase hold
    · exact hbefore
  · intro id hid
    obtain ⟨task, htask, hbusy⟩ := htracked.writers id hid
    exact ⟨task, hwriting id task htask hbusy, hbusy⟩
  · intro id before htask
    rcases hdrains id before _ htask with hold | ⟨⟨flush, hphase⟩, -⟩
    · exact htracked.drained id before hold
    · cases hphase
  · intro id before htask
    rcases hdrains id before _ htask with hold | ⟨⟨flush, hphase⟩, -⟩
    · exact htracked.draining id before hold
    · cases hphase

theorem Tracked.setDurableNext {seq : Nat} (hseq : seq ≤ state.durable.length) :
    Tracked source (state.setDurableNext seq) := by
  rw [SessionWriteBehind.setDurableNext]
  split
  next hlater =>
    have hnext : seq ≤ state.nextSeq := Nat.le_trans hseq (Nat.le_add_right _ _)
    refine ⟨htracked.durable, htracked.flight, hnext, fun hne => ?_, htracked.known,
      htracked.accounted, htracked.before, htracked.ids, htracked.writers, htracked.drained,
      htracked.draining⟩
    have hexact := htracked.nextFlight hne
    have hbound : seq ≤ state.durableNext := hexact ▸ hnext
    omega
  · exact htracked

end

variable {tasks : List WriteTask} {task : WriteTask} {id : Nat}

theorem getElem?_concat_cases {added : WriteTask}
    (htask : (tasks ++ [added])[id]? = some task) : tasks[id]? = some task ∨ task = added := by
  rcases Nat.lt_trichotomy id tasks.length with hlt | rfl | hgt
  · rw [getElem?_append_left hlt] at htask
    exact .inl htask
  · rw [getElem?_concat_length] at htask
    exact .inr (Option.some.inj htask).symm
  · rw [getElem?_eq_none (by rw [length_append, length_singleton]; omega)] at htask
    cases htask

theorem getElem?_concat_of_some {added : WriteTask}
    (htask : tasks[id]? = some task) : (tasks ++ [added])[id]? = some task := by
  obtain ⟨hlt, -⟩ := List.getElem?_eq_some_iff.mp htask
  rw [List.getElem?_append_left hlt, htask]

theorem getElem?_set_cases {changed : WriteTask} {index : Nat}
    (htask : (tasks.set index changed)[id]? = some task) :
    index ≠ id ∧ tasks[id]? = some task ∨ index = id ∧ task = changed := by
  rw [getElem?_set] at htask
  split at htask
  next heq =>
    split at htask
    · exact .inr ⟨heq, (Option.some.inj htask).symm⟩
    · cases htask
  next hne => exact .inl ⟨hne, htask⟩

theorem getElem?_set_of_writing {old changed : WriteTask}
    {index : Nat} (hold : tasks[index]? = some old) (hidle : old.isWriting = false)
    (htask : tasks[id]? = some task) (hwriting : task.isWriting = true) :
    (tasks.set index changed)[id]? = some task := by
  rw [getElem?_set, if_neg, htask]
  rintro rfl
  rw [hold, some.injEq] at htask
  rw [htask, hwriting] at hidle
  cases hidle

theorem Tracked.enqueue (htracked : Tracked source state)
    (hsource : ∀ seq, (source seq).seq = seq) (seq : Nat) :
    Tracked source (state.enqueue (source seq)) := by
  -- First the queue grows, then a flush may be added.
  have hqueued : Tracked source { state with
      pending := state.pending ++ [source seq], enqueued := state.enqueued ++ [source seq] } := by
    refine ⟨htracked.durable, htracked.flight, htracked.next, htracked.nextFlight, ?_, ?_, ?_,
      htracked.ids, htracked.writers, htracked.drained, htracked.draining⟩
    · rintro event (hdurable | hflight | hpending)
      · exact htracked.known event (.inl hdurable)
      · exact htracked.known event (.inr (.inl hflight))
      · rcases mem_append.mp hpending with hold | hnew
        · exact htracked.known event (.inr (.inr hold))
        · rw [mem_singleton.mp hnew, hsource]
    · intro event hevent
      rcases mem_append.mp hevent with hold | hnew
      · rcases htracked.accounted event hold with hdurable | hflight | hpending
        · exact .inl hdurable
        · exact .inr (.inl hflight)
        · exact .inr (.inr (mem_append_left _ hpending))
      · exact .inr (.inr (mem_append_right _ hnew))
    · intro id before phase htask
      exact List.Subset.trans (htracked.before id before phase htask) (subset_append_left _ _)
  rw [SessionWriteBehind.enqueue]
  dsimp only
  split
  · exact hqueued
  · have hflush := hqueued.withTasks (state.tasks ++ [.flush .sleeping])
      (fun id before phase htask => ?_) fun id task htask _ => getElem?_concat_of_some htask
    · exact hflush.flags true _
    · rcases getElem?_concat_cases htask with hold | hnew
      · exact .inl hold
      · cases hnew

theorem Tracked.clearSlot (htracked : Tracked source state) {flush : Nat}
    (hflush : state.tasks[flush]? = some (.flush .finished)) :
    Tracked source
      { state with writing := none, tasks := state.tasks.set flush (.flush .cleared) } := by
  have hcleared := htracked.withTasks (state.tasks.set flush (.flush .cleared))
    (fun id before phase htask => ?_) fun id task => getElem?_set_of_writing hflush rfl
  · exact hcleared.flags _ none
  · rcases getElem?_set_cases htask with ⟨-, hold⟩ | ⟨-, hnew⟩
    · exact .inl hold
    · cases hnew

theorem startWrite_of_nil (task : Nat) (idle busy : WriteTask) (hready : state.ready = []) :
    state.startWrite task idle busy =
      { state with pending := [], timerArmed := false, tasks := state.tasks.set task idle } := by
  rw [SessionWriteBehind.startWrite, prepareBatch_of_nil hready]

theorem startWrite_of_continues (task : Nat) (idle busy : WriteTask) (hready : state.ready ≠ [])
    (hcontinues : state.Continues) :
    state.startWrite task idle busy =
      { state with
        pending := []
        timerArmed := false
        durableNext := state.nextSeq + state.ready.length
        tasks := state.tasks.set task busy
        inFlight := state.inFlight ++ [(task, state.ready)] } := by
  obtain ⟨hnext, hseq⟩ := hcontinues
  rw [← hnext] at hseq ⊢
  rw [SessionWriteBehind.startWrite, prepareBatch_of_contiguous hready hseq]
  rfl

section
variable (htracked : Tracked source state)
include htracked

theorem Tracked.emptied (hready : state.ready = []) :
    Tracked source { state with pending := [], timerArmed := false } := by
  refine ⟨htracked.durable, htracked.flight, htracked.next, htracked.nextFlight, ?_, ?_,
    htracked.before, htracked.ids, htracked.writers, htracked.drained, htracked.draining⟩
  · rintro event (hdurable | hflight | hpending)
    · exact htracked.known event (.inl hdurable)
    · exact htracked.known event (.inr (.inl hflight))
    · cases hpending
  · intro event hevent
    rcases htracked.accounted event hevent with hdurable | hflight | hpending
    · exact .inl hdurable
    · exact .inr (.inl hflight)
    · -- A queued event with nothing to write is below the watermark.
      have hbelow : event.seq < state.durableNext := by
        by_contra hnot
        obtain ⟨kept, hkept, -⟩ := exists_mem_readyBatch hpending (Nat.not_lt.mp hnot)
        rw [SessionWriteBehind.ready] at hready
        rw [hready] at hkept
        cases hkept
      rcases htracked.mem_of_lt (htracked.known event (.inr (.inr hpending))) hbelow with
        hdurable | hflight
      · exact .inl hdurable
      · exact .inr (.inl hflight)

theorem Tracked.mem_of_pending {event : Event} (hevent : event ∈ state.pending) :
    event ∈ state.durable ∨ event ∈ state.flight ∨ event ∈ state.ready := by
  have hknown := htracked.known event (.inr (.inr hevent))
  rcases Nat.lt_or_ge event.seq state.durableNext with hbelow | habove
  · exact (htracked.mem_of_lt hknown hbelow).elim .inl fun h => .inr (.inl h)
  · obtain ⟨kept, hkept, hseq⟩ := exists_mem_readyBatch hevent habove
    have hsame : kept = source kept.seq :=
      htracked.known kept (.inr (.inr (mem_of_mem_readyBatch hkept)))
    rw [hseq, ← hknown] at hsame
    rw [hsame] at hkept
    exact .inr (.inr hkept)

/-- A batch that continues the log is put in flight by a task that was not
writing. -/
theorem Tracked.launched (hcontinues : state.Continues) {task : Nat} {old : WriteTask}
    (hold : state.tasks[task]? = some old) (hidle : old.isWriting = false) {busy : WriteTask}
    (hbusy : busy.isWriting = true)
    (hbefore : ∀ before phase, busy = .drain before phase → before ⊆ state.enqueued) :
    Tracked source
      { state with
        pending := []
        timerArmed := false
        durableNext := state.nextSeq + state.ready.length
        tasks := state.tasks.set task busy
        inFlight := state.inFlight ++ [(task, state.ready)] } := by
  obtain ⟨hnext, hseq⟩ := hcontinues
  have hflight : (state.inFlight ++ [(task, state.ready)]).flatMap Prod.snd =
      state.flight ++ state.ready := by
    simp [SessionWriteBehind.flight]
  have hlater : state.nextSeq + state.ready.length = state.durable.length +
      ((state.inFlight ++ [(task, state.ready)]).flatMap Prod.snd).length := by
    rw [SessionWriteBehind.nextSeq, hflight, List.length_append, Nat.add_assoc]
  have hnow : ∀ event ∈ state.enqueued, event ∈ state.durable ∨
      event ∈ state.inFlight.flatMap Prod.snd ∨ event ∈ state.ready := by
    intro event hevent
    rcases htracked.accounted event hevent with hdurable | hflight | hpending
    · exact .inl hdurable
    · exact .inr (.inl hflight)
    · exact htracked.mem_of_pending hpending
  have hlt : task < state.tasks.length := (List.getElem?_eq_some_iff.mp hold).1
  refine ⟨htracked.durable, ?_, ?_, fun _ => ?_, ?_, ?_, ?_, ?_, ?_, ?_, ?_⟩
  · rw [SessionWriteBehind.flight, hflight, contiguous_append]
    exact ⟨htracked.flight, hseq⟩
  · exact Nat.le_of_eq hlater
  · exact hlater
  · rintro event (hdurable | hmem | hpending)
    · exact htracked.known event (.inl hdurable)
    · rw [SessionWriteBehind.flight, hflight, List.mem_append] at hmem
      rcases hmem with hold | hnew
      · exact htracked.known event (.inr (.inl hold))
      · exact htracked.known event (.inr (.inr (mem_of_mem_readyBatch hnew)))
    · cases hpending
  · intro event hevent
    rw [SessionWriteBehind.flight, hflight, List.mem_append]
    rcases hnow event hevent with hdurable | hold | hnew
    · exact .inl hdurable
    · exact .inr (.inl (.inl hold))
    · exact .inr (.inl (.inr hnew))
  · intro id before phase htask
    rcases getElem?_set_cases htask with ⟨-, hsame⟩ | ⟨-, hnew⟩
    · exact htracked.before id before phase hsame
    · exact hbefore before phase hnew.symm
  · rw [List.map_append, List.map_singleton, List.nodup_append_comm, List.singleton_append,
      List.nodup_cons]
    refine ⟨fun hmem => ?_, htracked.ids⟩
    obtain ⟨found, hfound, hwriting⟩ := htracked.writers task hmem
    rw [hold, some.injEq] at hfound
    rw [hfound, hwriting] at hidle
    cases hidle
  · intro id hid
    rw [List.map_append, List.mem_append, List.map_singleton, List.mem_singleton] at hid
    rcases hid with hmem | rfl
    · obtain ⟨found, hfound, hwriting⟩ := htracked.writers id hmem
      exact ⟨found, getElem?_set_of_writing hold hidle hfound hwriting, hwriting⟩
    · exact ⟨busy, List.getElem?_set_self hlt, hbusy⟩
  · intro id before htask
    rcases getElem?_set_cases htask with ⟨-, hsame⟩ | ⟨-, hnew⟩
    · exact htracked.drained id before hsame
    · rw [← hnew] at hbusy
      cases hbusy
  · intro id before htask
    rcases getElem?_set_cases htask with ⟨-, hsame⟩ | ⟨rfl, hnew⟩
    · obtain ⟨earlier, batch, later, hwrites, hwaits⟩ := htracked.draining id before hsame
      refine ⟨earlier, batch, later ++ [(task, state.ready)], ?_, hwaits⟩
      rw [hwrites, List.append_assoc, List.cons_append]
    · exact ⟨state.inFlight, state.ready, [], rfl, fun event hevent =>
        hnow event (hbefore before _ hnew.symm hevent)⟩

theorem Tracked.drainBatch (htakes : state.TakesLast) {task : Nat} {before : List Event}
    {flush : Option Nat} (htask : state.tasks[task]? = some (.drain before (.joining flush))) :
    Tracked source (state.drainBatch task before) := by
  have hbefore := htracked.before task before _ htask
  rw [SessionWriteBehind.drainBatch]
  rcases htakes with ⟨hready, hflight⟩ | ⟨hready, hcontinues⟩
  · -- Everything enqueued is in the log already.
    rw [startWrite_of_nil _ _ _ hready]
    have hempty := htracked.emptied hready
    have hall : state.enqueued ⊆ state.durable := by
      intro event hevent
      rcases hempty.accounted event hevent with hdurable | hmem | hpending
      · exact hdurable
      · rw [SessionWriteBehind.flight, hflight] at hmem
        cases hmem
      · cases hpending
    refine ⟨hempty.durable, hempty.flight, hempty.next, hempty.nextFlight, hempty.known,
      hempty.accounted, ?_, hempty.ids, ?_, ?_, ?_⟩
    · intro id found phase hfound
      rcases getElem?_set_cases hfound with ⟨-, hsame⟩ | ⟨-, hnew⟩
      · exact htracked.before id found phase hsame
      · cases hnew
        exact hbefore
    · intro id hid
      obtain ⟨writer, hwriter, hwriting⟩ := htracked.writers id hid
      exact ⟨writer, getElem?_set_of_writing htask rfl hwriter hwriting, hwriting⟩
    · intro id found hfound
      rcases getElem?_set_cases hfound with ⟨-, hsame⟩ | ⟨-, hnew⟩
      · exact htracked.drained id found hsame
      · cases hnew
        exact List.Subset.trans hbefore hall
    · intro id found hfound
      rcases getElem?_set_cases hfound with ⟨-, hsame⟩ | ⟨-, hnew⟩
      · exact htracked.draining id found hsame
      · cases hnew
  · rw [startWrite_of_continues _ _ _ hready hcontinues]
    apply htracked.launched hcontinues htask rfl rfl
    intro found phase heq
    cases heq
    exact hbefore

theorem Tracked.timerFires {flush : Nat} (hflush : state.tasks[flush]? = some (.flush .sleeping))
    (horderly : state.ready = [] ∨ state.Continues) :
    Tracked source (state.startWrite flush (.flush .finished) (.flush .writing)) := by
  by_cases hready : state.ready = []
  · rw [startWrite_of_nil _ _ _ hready]
    refine (htracked.emptied hready).withTasks _ (fun id before phase htask => ?_)
      fun id task => getElem?_set_of_writing hflush rfl
    rcases getElem?_set_cases htask with ⟨-, hsame⟩ | ⟨-, hnew⟩
    · exact .inl hsame
    · cases hnew
  · have hcontinues := horderly.resolve_left hready
    rw [startWrite_of_continues _ _ _ hready hcontinues]
    apply htracked.launched hcontinues hflush rfl rfl
    intro before phase heq
    cases heq

theorem Tracked.written {task : Nat} {batch : List Event} {rest : List (Nat × List Event)}
    (hwrites : state.inFlight = (task, batch) :: rest) : Tracked source
      { state with
        durable := state.durable ++ batch
        inFlight := rest
        tasks := state.tasks.modify task (WriteTask.ended true) } := by
  have hflight : state.flight = batch ++ rest.flatMap Prod.snd := by
    rw [SessionWriteBehind.flight, hwrites, flatMap_cons]
  have hseq := htracked.flight
  rw [hflight, contiguous_append] at hseq
  have hnext : state.nextSeq = (state.durable ++ batch).length + (rest.flatMap Prod.snd).length := by
    rw [SessionWriteBehind.nextSeq, hflight, length_append, length_append, Nat.add_assoc]
  have hids := htracked.ids
  rw [hwrites, map_cons, nodup_cons] at hids
  have hother : ∀ (id : Nat) found,
    (state.tasks.modify task (WriteTask.ended true))[id]? = some found →
      task ≠ id ∧ state.tasks[id]? = some found ∨
        task = id ∧ ∃ old, state.tasks[id]? = some old ∧ found = old.ended true := by
    intro id found hfound
    rw [getElem?_modify] at hfound
    by_cases heq : task = id
    · obtain ⟨old, hold, hended⟩ := map_eq_some_iff.mp hfound
      refine .inr ⟨heq, old, hold, ?_⟩
      rw [← hended, if_pos heq]
    · refine .inl ⟨heq, ?_⟩
      obtain ⟨old, hold, hended⟩ := map_eq_some_iff.mp hfound
      rw [hold, ← hended, if_neg heq]
  have hmem : ∀ event, event ∈ state.flight ↔ event ∈ batch ∨ event ∈ rest.flatMap Prod.snd := by
    intro event
    rw [hflight, mem_append]
  refine ⟨?_, ?_, ?_, fun hne => ?_, ?_, ?_, ?_, hids.2, ?_, ?_, ?_⟩
  · rw [contiguous_append, Nat.zero_add]
    exact ⟨htracked.durable, hseq.1⟩
  · rw [length_append]
    exact hseq.2
  · exact Nat.le_trans htracked.next (Nat.le_of_eq hnext)
  · exact (htracked.nextFlight (by rw [hwrites]; exact cons_ne_nil _ _)).trans hnext
  · intro event hevent
    apply htracked.known event
    rw [hmem]
    rcases hevent with hdurable | hrest | hpending
    · exact (mem_append.mp hdurable).elim .inl fun h => .inr (.inl (.inl h))
    · exact .inr (.inl (.inr hrest))
    · exact .inr (.inr hpending)
  · intro event hevent
    have hold := htracked.accounted event hevent
    rw [hmem] at hold
    rcases hold with hdurable | (hbatch | hrest) | hpending
    · exact .inl (mem_append_left _ hdurable)
    · exact .inl (mem_append_right _ hbatch)
    · exact .inr (.inl hrest)
    · exact .inr (.inr hpending)
  · intro id before phase hfound
    rcases hother id _ hfound with ⟨-, hsame⟩ | ⟨-, old, hold, hended⟩
    · exact htracked.before id before phase hsame
    · cases old with
      | flush _ => cases hended
      | drain found oldPhase =>
        cases hended
        exact htracked.before id _ _ hold
  · intro id hid
    obtain ⟨found, hfound, hwriting⟩ := htracked.writers id (by
      rw [hwrites]
      exact mem_cons_of_mem _ hid)
    have hne : task ≠ id := fun heq => hids.1 (heq ▸ hid)
    refine ⟨found, ?_, hwriting⟩
    rw [getElem?_modify, hfound]
    exact congrArg some (if_neg hne)
  · intro id before hfound
    rcases hother id _ hfound with ⟨-, hsame⟩ | ⟨rfl, old, hold, hended⟩
    · exact List.Subset.trans (htracked.drained id before hsame) (subset_append_left _ _)
    · cases old with
      | flush _ => cases hended
      | drain found phase =>
        cases hended
        -- The drain whose write this is waited for nothing else.
        obtain ⟨writer, hwriter, hwriting⟩ := htracked.writers task (by
          rw [hwrites]
          exact mem_cons_self)
        rw [hold, some.injEq] at hwriter
        subst hwriter
        obtain rfl : phase = .writing := by
          cases phase with
          | writing => rfl
          | joining _ | returned _ => cases hwriting
        obtain ⟨earlier, own, later, horder, hwaits⟩ := htracked.draining task before hold
        rw [hwrites] at horder
        cases earlier with
        | nil =>
          obtain ⟨hown, -⟩ := List.cons.inj horder
          obtain rfl : batch = own := (Prod.mk.inj hown).2
          intro event hevent
          rcases hwaits event hevent with hdurable | hnone | hbatch
          · exact mem_append_left _ hdurable
          · cases hnone
          · exact mem_append_right _ hbatch
        | cons first others =>
          rw [cons_append] at horder
          obtain ⟨-, hrest⟩ := List.cons.inj horder
          refine absurd ?_ hids.1
          rw [hrest, map_append, map_cons]
          exact mem_append_right _ mem_cons_self
  · intro id before hfound
    rcases hother id _ hfound with ⟨hne, hsame⟩ | ⟨-, old, -, hended⟩
    · obtain ⟨earlier, own, later, horder, hwaits⟩ := htracked.draining id before hsame
      rw [hwrites] at horder
      cases earlier with
      | nil => exact absurd (Prod.mk.inj (List.cons.inj horder).1).1 hne
      | cons first others =>
        obtain ⟨hfirst, hrest⟩ := List.cons.inj horder
        refine ⟨others, own, later, hrest, fun event hevent => ?_⟩
        have hwait := hwaits event hevent
        rw [← hfirst, flatMap_cons, mem_append] at hwait
        rcases hwait with hdurable | (hbatch | hothers) | hown
        · exact .inl (mem_append_left _ hdurable)
        · exact .inl (mem_append_right _ hbatch)
        · exact .inr (.inl hothers)
        · exact .inr (.inr hown)
    · cases old with
      | flush _ | drain found phase => cases hended

end

theorem Tracked.step (htracked : Tracked source state) (hsource : ∀ seq, (source seq).seq = seq)
    {action : WriteAction} {next : SessionWriteBehind} (horderly : action.Orderly state)
    (hstep : state.step source action = some next) : Tracked source next := by
  cases action with
  | enqueue seq =>
    cases hstep
    exact htracked.enqueue hsource seq
  | timerFires flush =>
    rw [SessionWriteBehind.step] at hstep
    split at hstep
    next hflush =>
      cases hstep
      exact htracked.timerFires hflush horderly
    · cases hstep
  | written task succeeds =>
    obtain ⟨rfl, hhead⟩ := horderly
    obtain ⟨⟨first, batch⟩, hfirst, hsame⟩ := map_eq_some_iff.mp hhead
    obtain rfl : first = task := hsame
    obtain ⟨rest, hwrites⟩ := head?_eq_some_iff.mp hfirst
    have hids := htracked.ids
    have hseq := htracked.flight
    rw [SessionWriteBehind.flight, hwrites, flatMap_cons, contiguous_append] at hseq
    rw [hwrites, map_cons, nodup_cons] at hids
    have hfresh : first ∉ rest.map Prod.fst := hids.1
    have hlookup : state.inFlight.lookup first = some batch := by
      rw [hwrites, lookup_cons_self]
    have hfilter : state.inFlight.filter (fun write => write.1 ≠ first) = rest := by
      rw [hwrites, filter_cons_of_neg (by simp), filter_eq_self]
      intro write hwrite
      refine decide_eq_true fun heq => hfresh ?_
      rw [← heq]
      exact mem_map_of_mem hwrite
    have happend : backendAppend state.durable batch true = (state.durable ++ batch, true) :=
      if_pos (by simpa using hseq.1)
    simp only [SessionWriteBehind.step, hlookup, happend, hfilter, some.injEq] at hstep
    rw [← hstep]
    exact htracked.written hwrites
  | clearSlot flush =>
    rw [SessionWriteBehind.step] at hstep
    split at hstep
    next hflush =>
      cases hstep
      exact htracked.clearSlot hflush
    · cases hstep
  | drain =>
    have hstarted : Tracked source { state with
        tasks := state.tasks ++ [.drain state.enqueued (.joining state.writing)] } := by
      refine htracked.withTasks _ (fun id before phase htask => ?_)
        fun id task htask _ => getElem?_concat_of_some htask
      rcases getElem?_concat_cases htask with hold | hnew
      · exact .inl hold
      · cases hnew
        exact .inr ⟨⟨_, rfl⟩, List.Subset.refl _⟩
    rw [SessionWriteBehind.step] at hstep
    split at hstep
    next flush _ =>
      cases hstep
      exact hstarted
    next hslot =>
      cases hstep
      exact hstarted.drainBatch (horderly hslot) getElem?_concat_length
  | drainJoined drain =>
    rw [SessionWriteBehind.step] at hstep
    split at hstep
    next before flush htask =>
      split at hstep
      · cases hstep
        exact htracked.drainBatch horderly htask
      · cases hstep
    · cases hstep
  | setDurableNext seq =>
    cases hstep
    exact htracked.setDurableNext horderly

end Steps

/-- In every orderly run the backend's log is in order, and a drain that returns has
made durable what was enqueued before it. -/
theorem drain_makes_durable (source : Nat → Event) (hsource : ∀ seq, (source seq).seq = seq)
    (stored : Nat) (trace : List WriteAction) (final : SessionWriteBehind)
    (horderly : Trace.Guarded (SessionWriteBehind.step source)
      (fun state action => action.Orderly state) (.start source stored) trace)
    (hrun : Trace.run (SessionWriteBehind.step source) (.start source stored) trace = some final) :
    DrainsDurable final := by
  have htracked : Tracked source final :=
    Trace.guarded_invariant (fun _ _ _ hstate hguard hstep => hstate.step hsource hguard hstep)
      (Tracked.start source hsource stored) horderly hrun
  refine ⟨htracked.durable, fun before hdrain event hevent => ?_⟩
  obtain ⟨id, hid⟩ := getElem?_of_mem hdrain
  exact htracked.drained id before hid hevent

section Lost

variable {source : Nat → Event} {state : SessionWriteBehind} {seq : Nat}

/-- The watermark has passed a number that is neither in the log nor in flight. -/
structure Lost (seq : Nat) (state : SessionWriteBehind) : Prop where
  passed : seq < state.durableNext
  durable : ∀ event ∈ state.durable, event.seq ≠ seq
  flight : ∀ event ∈ state.flight, event.seq ≠ seq

theorem le_prepareBatch (durableNext : Nat) (batch : List Event) :
    durableNext ≤ (prepareBatch durableNext batch).1 ∧
      ∀ out, (prepareBatch durableNext batch).2 = some out → ∀ event ∈ out,
        durableNext ≤ event.seq := by
  have habove : ∀ event ∈ readyBatch durableNext batch, durableNext ≤ event.seq := fun event hevent =>
    of_decide_eq_true (mem_filter.mp hevent).2
  rw [prepareBatch]
  split
  next first last _ hlast =>
    split
    · exact ⟨Nat.le_refl _, fun out hout => by cases hout⟩
    · refine ⟨Nat.le_succ_of_le (habove last (mem_of_getLast? hlast)), fun out hout => ?_⟩
      rw [← Option.some.inj hout]
      exact habove
  · exact ⟨Nat.le_refl _, fun out hout => by cases hout⟩

theorem mem_of_mem_backendAppend {durable batch : List Event} {succeeds : Bool} {event : Event}
    (hevent : event ∈ (backendAppend durable batch succeeds).1) : event ∈ durable ∨ event ∈ batch := by
  rw [backendAppend] at hevent
  split at hevent
  · exact mem_append.mp hevent
  · exact .inl hevent

theorem Lost.startWrite (hlost : Lost seq state) (task : Nat) (idle busy : WriteTask) :
    Lost seq (state.startWrite task idle busy) := by
  obtain ⟨hnext, hbatch⟩ := le_prepareBatch state.durableNext state.pending
  rw [SessionWriteBehind.startWrite]
  generalize prepareBatch state.durableNext state.pending = prepared at hnext hbatch
  obtain ⟨durableNext, batch⟩ := prepared
  have hpassed : seq < durableNext := Nat.lt_of_lt_of_le hlost.passed hnext
  cases batch with
  | none => exact ⟨hpassed, hlost.durable, hlost.flight⟩
  | some batch =>
    refine ⟨hpassed, hlost.durable, fun event hevent => ?_⟩
    simp only [SessionWriteBehind.flight, flatMap_append, flatMap_cons, flatMap_nil,
      append_nil, mem_append] at hevent
    rcases hevent with hold | hnew
    · exact hlost.flight event hold
    · have habove := hbatch batch rfl event hnew
      have hbelow := hlost.passed
      omega

theorem Lost.step (hlost : Lost seq state) {action : WriteAction} {next : SessionWriteBehind}
    (hstep : state.step source action = some next) : Lost seq next := by
  cases action with
  | enqueue added =>
    cases hstep
    rw [SessionWriteBehind.enqueue]
    dsimp only
    split
    · exact ⟨hlost.passed, hlost.durable, hlost.flight⟩
    · exact ⟨hlost.passed, hlost.durable, hlost.flight⟩
  | timerFires flush =>
    rw [SessionWriteBehind.step] at hstep
    split at hstep
    · cases hstep
      exact hlost.startWrite _ _ _
    · cases hstep
  | written task succeeds =>
    rw [SessionWriteBehind.step] at hstep
    split at hstep
    · cases hstep
    next batch hlookup =>
      cases hstep
      have hbatch : ∀ event ∈ batch, event.seq ≠ seq := by
        intro event hevent
        obtain ⟨first, second, hwrites⟩ := lookup_eq_some_iff.mp hlookup
        refine hlost.flight event (mem_flatMap.mpr ⟨(task, batch), ?_, hevent⟩)
        rw [hwrites.1]
        simp
      refine ⟨hlost.passed, fun event hevent => ?_, fun event hevent => ?_⟩
      · rcases mem_of_mem_backendAppend hevent with hold | hnew
        · exact hlost.durable event hold
        · exact hbatch event hnew
      · obtain ⟨write, hwrite, hmem⟩ := mem_flatMap.mp hevent
        exact hlost.flight event (mem_flatMap.mpr ⟨write, mem_of_mem_filter hwrite, hmem⟩)
  | clearSlot flush =>
    rw [SessionWriteBehind.step] at hstep
    split at hstep
    · cases hstep
      exact ⟨hlost.passed, hlost.durable, hlost.flight⟩
    · cases hstep
  | drain =>
    rw [SessionWriteBehind.step] at hstep
    split at hstep
    · cases hstep
      exact ⟨hlost.passed, hlost.durable, hlost.flight⟩
    · cases hstep
      refine Lost.startWrite ?_ _ _ _
      exact ⟨hlost.passed, hlost.durable, hlost.flight⟩
  | drainJoined drain =>
    rw [SessionWriteBehind.step] at hstep
    split at hstep
    · split at hstep
      · cases hstep
        exact hlost.startWrite _ _ _
      · cases hstep
    · cases hstep
  | setDurableNext value =>
    cases hstep
    rw [SessionWriteBehind.setDurableNext]
    split
    next hlater => exact ⟨Nat.lt_trans hlost.passed hlater, hlost.durable, hlost.flight⟩
    · exact hlost

/-- The events of a failed write never reach the log, whatever happens later. -/
theorem failed_write_lost (source : Nat → Event) (hsource : ∀ seq, (source seq).seq = seq)
    (stored : Nat) (earlier : List WriteAction)
    (horderly : Trace.Guarded (SessionWriteBehind.step source)
      (fun state action => action.Orderly state) (.start source stored) earlier)
    (hearlier : Trace.run (SessionWriteBehind.step source) (.start source stored) earlier =
      some state)
    {task : Nat} {batch : List Event} {rest : List (Nat × List Event)}
    (hwrites : state.inFlight = (task, batch) :: rest) (later : List WriteAction)
    {final : SessionWriteBehind}
    (hrun : Trace.run (SessionWriteBehind.step source) state (.written task false :: later) =
      some final) : ∀ event ∈ batch, event ∉ final.durable := by
  intro event hevent hdurable
  have htracked : Tracked source state :=
    Trace.guarded_invariant (fun _ _ _ hstate hguard hstep => hstate.step hsource hguard hstep)
      (Tracked.start source hsource stored) horderly hearlier
  obtain ⟨next, hstep, hrest⟩ := Trace.run_cons_eq_some.1 hrun
  have hflight : state.flight = batch ++ rest.flatMap Prod.snd := by
    rw [SessionWriteBehind.flight, hwrites, flatMap_cons]
  have hseq := htracked.flight
  have hall : Contiguous 0 (state.durable ++ state.flight) := by
    rw [contiguous_append, Nat.zero_add]
    exact ⟨htracked.durable, htracked.flight⟩
  have hmem : event ∈ state.flight := by
    rw [hflight]
    exact mem_append_left _ hevent
  have hlost : Lost event.seq next := by
    rw [SessionWriteBehind.step, hwrites, lookup_cons_self] at hstep
    cases hstep
    refine ⟨?_, fun other hother => hall.seq_ne hother hmem, fun other hother => ?_⟩
    · have hnext := htracked.nextFlight (by rw [hwrites]; exact cons_ne_nil _ _)
      rw [SessionWriteBehind.nextSeq] at hnext
      have hbound := (hseq.bounds hmem).2
      simp only [hnext]
      exact hbound
    · obtain ⟨write, hwrite, hin⟩ := mem_flatMap.mp hother
      rw [filter_cons_of_neg (by simp)] at hwrite
      rw [hflight] at hseq
      exact (hseq.seq_ne hevent
        (mem_flatMap.mpr ⟨write, mem_of_mem_filter hwrite, hin⟩)).symm
  have hfinal : Lost event.seq final :=
    Trace.run_invariant (fun _ _ _ hlost hstep => hlost.step hstep) hlost hrest
  exact hfinal.durable event hdurable rfl

end Lost

section Runs

/-- The events of a session that only numbers them. -/
def plainEvent (seq : Nat) : Event where
  seq
  time := 0
  data := .sessionEndSeed

/-- Events out of order and repeated, taken by the timer while a drain waits. -/
def joinedFlush : List WriteAction :=
  [.enqueue 1, .enqueue 0, .enqueue 1, .drain, .timerFires 0, .written 0 true, .drainJoined 1]

theorem drain_makes_durable_joinedFlush :
    ∃ final, Trace.run (SessionWriteBehind.step plainEvent) (.start plainEvent 0) joinedFlush =
        some final ∧
      final.tasks[1]? = some (.drain [plainEvent 1, plainEvent 0, plainEvent 1] (.returned true)) ∧
      final.durable = [plainEvent 0, plainEvent 1] ∧ DrainsDurable final := by
  refine ⟨_, rfl, rfl, rfl, drain_makes_durable plainEvent (fun _ => rfl) 0 joinedFlush _ ?_ rfl⟩
  refine ⟨trivial, trivial, trivial, fun hslot => ?_, .inr ⟨rfl, by decide⟩, ⟨rfl, rfl⟩,
    .inl ⟨rfl, rfl⟩, trivial⟩
  cases hslot

/-- The write of a flush fails, and the next drain finds nothing to write. -/
def failedFlush : List WriteAction :=
  [.enqueue 0, .timerFires 0, .written 0 false, .clearSlot 0, .drain]

theorem failed_write_lost_failedFlush :
    ∃ final, Trace.run (SessionWriteBehind.step plainEvent) (.start plainEvent 0) failedFlush =
      some final ∧ plainEvent 0 ∉ final.durable :=
  ⟨_, rfl, failed_write_lost plainEvent (fun _ => rfl) 0 [.enqueue 0, .timerFires 0]
    ⟨trivial, .inr ⟨rfl, by decide⟩, trivial⟩ rfl rfl [.clearSlot 0, .drain] rfl _
      mem_cons_self⟩

/-- The end of one flush empties the slot of the next, whose write no drain joins. -/
def emptiedSlot : List WriteAction :=
  [.enqueue 0, .timerFires 0, .enqueue 1, .written 0 true, .clearSlot 0, .timerFires 1, .drain]

theorem drain_returns_early :
    (∃ final, Trace.run (SessionWriteBehind.step plainEvent) (.start plainEvent 0) failedFlush =
        some final ∧ final.durable = [] ∧ ¬ DrainsDurable final) ∧
      ∃ final, Trace.run (SessionWriteBehind.step plainEvent) (.start plainEvent 0) emptiedSlot =
        some final ∧ final.durable = [plainEvent 0] ∧ ¬ DrainsDurable final := by
  refine ⟨⟨_, rfl, rfl, fun hdurable => ?_⟩, _, rfl, rfl, fun hdurable => ?_⟩
  · have hevent := hdurable.drained [plainEvent 0] (mem_of_getElem? (i := 1) rfl)
      (plainEvent 0) mem_cons_self
    cases hevent
  · have hevent := hdurable.drained [plainEvent 0, plainEvent 1]
      (mem_of_getElem? (i := 2) rfl) (plainEvent 1) (by simp)
    have hseq := congrArg Event.seq (mem_singleton.mp hevent)
    cases hseq

end Runs

end Keel.Session
