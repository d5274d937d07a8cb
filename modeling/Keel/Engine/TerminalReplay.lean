import Keel.Foundation.Trace
import Mathlib.Algebra.GroupWithZero.Nat
import Mathlib.Data.List.Range

/-! # Terminal replay

A terminal sends its output to the viewers attached and keeps the end of it for viewers that
come later. A viewer names the last event it has, and what the window still holds behind that
one is replayed to it before the live events.
-/

namespace Keel.Terminals

open List

def maxReplayBytes : Nat := 1024 * 1024

/-- The text of an output event is base64. -/
inductive TerminalEvent
  | data (seq : Nat) (data : String)
  | exit (seq : Nat) (exitCode : Int) (signal : Option String)

namespace TerminalEvent

def seq : TerminalEvent → Nat
  | .data seq _ => seq
  | .exit seq _ _ => seq

def bytes : TerminalEvent → Nat
  | .data _ text => text.utf8ByteSize
  | .exit .. => 16

def isExit : TerminalEvent → Bool
  | .data .. => false
  | .exit .. => true

end TerminalEvent

structure LiveTerminal where
  /-- The numbers of the viewers whose senders are kept. -/
  subscribers : List Nat := []
  replay : List TerminalEvent := []
  replayBytes : Nat := 0
  seq : Nat := 0
  exited : Bool := false

/-- One subscription, with what its stream was sent so far. -/
structure Viewer where
  after : Nat
  /-- How many events there were when it came, and how many had left the window. -/
  joined : Nat
  evicted : Nat
  received : List TerminalEvent
  /-- Its stream was not dropped. -/
  attached : Bool := true

structure State where
  terminal : LiveTerminal := {}
  viewers : List Viewer := []
  emitted : List TerminalEvent := []

inductive Action
  | output (data : String)
  | exit (exitCode : Int)
  | subscribe (afterSeq : Option Nat)
  | detach (viewer : Nat)

/-- Drop events from the front while the window is over its bytes and holds another one. -/
def evict : List TerminalEvent → Nat → List TerminalEvent × Nat
  | dropped :: next :: rest, bytes =>
    if bytes > maxReplayBytes then evict (next :: rest) (bytes - dropped.bytes)
    else (dropped :: next :: rest, bytes)
  | replay, bytes => (replay, bytes)

def State.emit (state : State) (event : TerminalEvent) : State :=
  let terminal := state.terminal
  let window := evict (terminal.replay ++ [event]) (terminal.replayBytes + event.bytes)
  let attached := fun id => id ∈ terminal.subscribers ∧ (state.viewers[id]?).any (·.attached)
  { state with
    terminal :=
      { subscribers := if event.isExit then [] else terminal.subscribers.filter attached
        replay := window.1, replayBytes := window.2, seq := event.seq
        exited := terminal.exited || event.isExit }
    viewers := state.viewers.mapIdx fun id viewer =>
      if attached id then { viewer with received := viewer.received ++ [event] } else viewer
    emitted := state.emitted ++ [event] }

def State.subscribe (state : State) (after : Nat) : State :=
  let terminal := state.terminal
  { state with
    terminal.subscribers :=
      if terminal.exited then terminal.subscribers
      else terminal.subscribers ++ [state.viewers.length]
    viewers := state.viewers ++ [{
      after, joined := state.emitted.length
      evicted := state.emitted.length - terminal.replay.length
      received := terminal.replay.filter fun event => event.seq > after }] }

/-- One event of a terminal that stays open. The shell's output ends with its exit. -/
def State.step (state : State) : Action → Option State
  | .output data =>
    if state.terminal.exited then none
    else some (state.emit (.data (state.terminal.seq + 1) data))
  | .exit exitCode =>
    if state.terminal.exited then none
    else some (state.emit (.exit (state.terminal.seq + 1) exitCode none))
  | .subscribe afterSeq => some (state.subscribe (afterSeq.getD 0))
  | .detach id =>
    some { state with viewers := state.viewers.modify id ({ · with attached := false }) }

/-- A viewer is sent what was in the window behind its event, and what came after it. -/
def Viewer.start (viewer : Viewer) : Nat := min (max viewer.after viewer.evicted) viewer.joined

/-- A viewer has the output from its start on, all of it while it is attached. -/
structure Viewer.Follows (state : State) (id : Nat) (viewer : Viewer) : Prop where
  received : ∃ count, viewer.joined ≤ count ∧ count ≤ state.emitted.length ∧
    viewer.received = (state.emitted.take count).drop viewer.start ∧
      (viewer.attached → count = state.emitted.length)
  evicted : viewer.evicted ≤ viewer.joined
  subscribed : viewer.attached → state.terminal.exited = false → id ∈ state.terminal.subscribers

/-- The window is the end of the numbered output, which an exit ends. -/
structure Replays (state : State) : Prop where
  numbered : state.emitted.map (·.seq) = range' 1 state.terminal.seq
  window : state.terminal.replay <:+ state.emitted
  bytes : state.terminal.replayBytes = (state.terminal.replay.map (·.bytes)).sum
  bounded : state.terminal.replayBytes ≤ maxReplayBytes ∨ state.terminal.replay.length ≤ 1
  running : state.terminal.exited = false → ∀ event ∈ state.emitted, event.isExit = false
  ended : state.terminal.exited = true → ∃ before event, state.emitted = before ++ [event] ∧
    event.isExit = true ∧ ∀ other ∈ before, other.isExit = false
  follows : ∀ id (viewer : Viewer), state.viewers[id]? = some viewer → viewer.Follows state id

theorem evict_spec (replay : List TerminalEvent) (bytes : Nat)
    (hbytes : bytes = (replay.map (·.bytes)).sum) :
    (evict replay bytes).1 <:+ replay ∧
      (evict replay bytes).2 = ((evict replay bytes).1.map (·.bytes)).sum ∧
      ((evict replay bytes).2 ≤ maxReplayBytes ∨ (evict replay bytes).1.length ≤ 1) := by
  fun_induction evict with
  | case1 bytes dropped next rest hover ih =>
    obtain ⟨hsuffix, hsum, hbounded⟩ := ih (by simp [hbytes])
    exact ⟨hsuffix.trans (suffix_cons _ _), hsum, hbounded⟩
  | case2 bytes dropped next rest hwithin =>
    exact ⟨suffix_rfl, hbytes, .inl (Nat.le_of_not_lt hwithin)⟩
  | case3 replay bytes hshort =>
    refine ⟨suffix_rfl, hbytes, .inr ?_⟩
    match replay with
    | [] | [_] => simp
    | dropped :: next :: rest => exact absurd rfl (hshort dropped next rest)

/-- Numbered events behind one of them are those from its place on. -/
theorem filter_seq_gt {events : List TerminalEvent} {first : Nat}
    (hnumbered : events.map (·.seq) = range' (first + 1) events.length) (after : Nat) :
    events.filter (fun event => event.seq > after) = events.drop (after - first) := by
  induction events generalizing first with
  | nil => simp
  | cons event rest ih =>
    rw [length_cons, range'_succ, map_cons, cons.injEq] at hnumbered
    obtain ⟨hseq, hrest⟩ := hnumbered
    have hkept := ih hrest
    by_cases hafter : after < first + 1
    · rw [filter_cons_of_pos (by simpa [hseq] using hafter), hkept]
      simp [Nat.sub_eq_zero_of_le hafter.le, Nat.sub_eq_zero_of_le (Nat.le_of_lt_succ hafter)]
    · obtain ⟨more, rfl⟩ := Nat.exists_eq_add_of_le (Nat.le_of_not_lt hafter)
      rw [filter_cons_of_neg (by simp only [hseq, decide_eq_true_eq]; omega), hkept]
      have hmore : first + 1 + more - first = more + 1 := by omega
      rw [hmore, drop_succ_cons, Nat.add_sub_cancel_left]

variable {state next : State}

theorem Replays.emit (hstate : Replays state) (hrunning : state.terminal.exited = false)
    {event : TerminalEvent} (hseq : event.seq = state.terminal.seq + 1) :
    Replays (state.emit event) := by
  obtain ⟨hsuffix, hsum, hbounded⟩ :=
    evict_spec (state.terminal.replay ++ [event]) (state.terminal.replayBytes + event.bytes)
      (by simp [hstate.bytes])
  have hdata := hstate.running hrunning
  refine ⟨?_, hsuffix.trans ?_, hsum, hbounded, fun hnot other hother => ?_, fun hexit => ?_,
    fun id viewer hviewer => ?_⟩
  · simp [State.emit, hstate.numbered, hseq, range'_1_concat, Nat.add_comm]
  · obtain ⟨dropped, hdropped⟩ := hstate.window
    exact ⟨dropped, by rw [← append_assoc, hdropped]; rfl⟩
  · simp only [State.emit, hrunning, Bool.false_or] at hnot
    obtain hold | hnew := mem_append.mp hother
    · exact hdata other hold
    · rw [mem_singleton.mp hnew, hnot]
  · exact ⟨state.emitted, event, rfl, by simpa [State.emit, hrunning] using hexit, hdata⟩
  · simp only [State.emit, getElem?_mapIdx, Option.map_eq_some_iff] at hviewer
    obtain ⟨old, hold, rfl⟩ := hviewer
    obtain ⟨⟨count, hjoined, hcount, hreceived, hall⟩, hevicted, hsubscribed⟩ :=
      hstate.follows id old hold
    have hstart : old.start ≤ count := (min_le_right _ _).trans hjoined
    by_cases hattached : old.attached
    · obtain rfl := hall hattached
      have hmem := hsubscribed hattached hrunning
      have hsent : id ∈ state.terminal.subscribers ∧
          (state.viewers[id]?.any (·.attached)) = true := ⟨hmem, by simp [hold, hattached]⟩
      rw [if_pos hsent]
      refine ⟨⟨state.emitted.length + 1, by simpa using hjoined.trans (Nat.le_succ _),
        by simp [State.emit], ?_, fun _ => by simp [State.emit]⟩, hevicted, fun _ hnot => ?_⟩
      · rw [take_length] at hreceived
        change old.received ++ [event] = ((state.emitted ++ [event]).take _).drop old.start
        rw [take_of_length_le (by simp), drop_append_of_le_length hstart, hreceived]
      · simp only [State.emit, hrunning, Bool.false_or] at hnot
        simp [State.emit, hnot, hsent]
    · have hsent : ¬ (id ∈ state.terminal.subscribers ∧
          (state.viewers[id]?.any (·.attached)) = true) := by simp [hold, hattached]
      rw [if_neg hsent]
      refine ⟨⟨count, hjoined, hcount.trans (by simp [State.emit]), ?_,
        fun hdetached => absurd hdetached hattached⟩, hevicted,
        fun hdetached => absurd hdetached hattached⟩
      change old.received = ((state.emitted ++ [event]).take count).drop old.start
      rw [take_append_of_le_length hcount, hreceived]

/-- A newcomer is sent the part of the window behind its event. -/
theorem Replays.newcomer (hstate : Replays state) (after : Nat) :
    ∀ viewer, (state.subscribe after).viewers[state.viewers.length]? = some viewer →
      viewer.Follows (state.subscribe after) state.viewers.length := by
  intro viewer hviewer
  obtain rfl : _ = viewer := by simpa [State.subscribe] using hviewer
  obtain ⟨dropped, hdropped⟩ := hstate.window
  have hlength := congrArg length hdropped
  rw [length_append] at hlength
  refine ⟨⟨state.emitted.length, le_rfl, le_rfl, ?_, fun _ => rfl⟩, Nat.sub_le _ _,
    fun _ hrunning => ?_⟩
  · have hnumbered : state.terminal.replay.map (·.seq) =
        range' (dropped.length + 1) state.terminal.replay.length := by
      have hall := congrArg (drop dropped.length) hstate.numbered
      have hcount := congrArg length hstate.numbered
      rw [length_map, length_range', ← hlength] at hcount
      rw [← hdropped, map_append, drop_left' (length_map _), drop_range', ← hcount] at hall
      simpa [Nat.add_comm] using hall
    have hevicted : state.emitted.length - state.terminal.replay.length = dropped.length := by omega
    change state.terminal.replay.filter _ = (state.emitted.take state.emitted.length).drop
      (min (max after (state.emitted.length - state.terminal.replay.length)) state.emitted.length)
    rw [filter_seq_gt hnumbered, take_length, hevicted]
    by_cases hafter : after ≤ state.emitted.length
    · have hstart : min (max after dropped.length) state.emitted.length =
          dropped.length + (after - dropped.length) := by omega
      rw [hstart, ← hdropped, drop_length_add_append]
    · rw [drop_eq_nil_of_le (by omega), drop_eq_nil_of_le (by omega)]
  · change state.terminal.exited = false at hrunning
    simp [State.subscribe, hrunning]

theorem Replays.step {action : Action} (hstate : Replays state)
    (hstep : state.step action = some next) : Replays next := by
  cases action with
  | output data | exit exitCode =>
    simp only [State.step, Option.ite_none_left_eq_some, Bool.not_eq_true] at hstep
    obtain ⟨hrunning, hnext⟩ := hstep
    cases hnext
    exact hstate.emit hrunning rfl
  | subscribe afterSeq =>
    cases hstep
    have hnew := hstate.newcomer (afterSeq.getD 0)
    refine { hstate with follows := fun id viewer hviewer => ?_ }
    by_cases hid : id < state.viewers.length
    · rw [State.subscribe, getElem?_append_left hid] at hviewer
      obtain ⟨hreceived, hevicted, hsubscribed⟩ := hstate.follows id viewer hviewer
      refine ⟨hreceived, hevicted, fun hattached hexited => ?_⟩
      have hmem := hsubscribed hattached hexited
      change state.terminal.exited = false at hexited
      simp [State.subscribe, hexited, hmem]
    · obtain rfl : id = state.viewers.length := by
        have hlt := (List.getElem?_eq_some_iff.mp hviewer).1
        simp only [State.subscribe, length_append, length_singleton] at hlt
        omega
      exact hnew viewer hviewer
  | detach id =>
    cases hstep
    refine { hstate with follows := fun other viewer hviewer => ?_ }
    rw [getElem?_modify] at hviewer
    obtain ⟨old, hold, rfl⟩ := Option.map_eq_some_iff.mp hviewer
    obtain ⟨⟨count, hjoined, hcount, hreceived, hall⟩, hevicted, hsubscribed⟩ :=
      hstate.follows other old hold
    split
    · exact ⟨⟨count, hjoined, hcount, hreceived, nofun⟩, hevicted, nofun⟩
    · exact ⟨⟨count, hjoined, hcount, hreceived, hall⟩, hevicted, hsubscribed⟩

/-- The number of the last event a viewer has. -/
def Viewer.last (viewer : Viewer) : Nat := (viewer.received.getLast?.map (·.seq)).getD viewer.after

/-- A later viewer names the last event of an earlier one, which was there when it came. -/
def Resumes (first second : Viewer) : Prop :=
  second.after = first.last ∧ second.after ≤ second.joined

/-- What a viewer is sent is numbered on from its start. -/
theorem Replays.received_seq (hstate : Replays state) {viewer : Viewer}
    (hviewer : viewer ∈ state.viewers) : viewer.received.Pairwise (·.seq < ·.seq) ∧
      (∀ event ∈ viewer.received, viewer.start < event.seq ∧ event.seq ≤ viewer.last) ∧
      (viewer.after ≤ viewer.joined →
        viewer.after ≤ viewer.start ∧ viewer.after ≤ viewer.last) := by
  obtain ⟨id, hid⟩ := getElem?_of_mem hviewer
  obtain ⟨count, -, hcount, hreceived, -⟩ := (hstate.follows id viewer hid).received
  have hall := congrArg length hstate.numbered
  rw [length_map, length_range'] at hall
  have hseq : viewer.received.map (·.seq) = range' (viewer.start + 1) (count - viewer.start) := by
    rw [hreceived, map_drop, map_take, hstate.numbered, take_range'_of_length_ge (by omega),
      drop_range', Nat.mul_one, Nat.add_comm 1]
  have hlast : viewer.last =
      if count - viewer.start = 0 then viewer.after else viewer.start + (count - viewer.start) := by
    rw [Viewer.last, ← getLast?_map, hseq, getLast?_range']
    split
    · rfl
    · simp only [Option.getD_some]
      omega
  have hstart : viewer.after ≤ viewer.joined → viewer.after ≤ viewer.start :=
    fun hafter => le_min (le_max_left _ _) hafter
  refine ⟨pairwise_map.mp (hseq ▸ pairwise_lt_range'), fun event hevent => ?_, fun hafter => ?_⟩
  · have hmem := mem_map_of_mem (f := (·.seq)) hevent
    rw [hseq, mem_range'_1] at hmem
    rw [hlast, if_neg (by omega)]
    omega
  · have := hstart hafter
    rw [hlast]
    split <;> omega

theorem Replays.resumed (hstate : Replays state) {chain : List Viewer}
    (hmem : ∀ viewer ∈ chain, viewer ∈ state.viewers) (hchain : chain.IsChain Resumes) :
    (chain.flatMap (·.received)).Pairwise (·.seq < ·.seq) ∧
      ∀ first ∈ chain.head?, first.after ≤ first.joined →
        ∀ event ∈ chain.flatMap (·.received), first.after < event.seq := by
  induction chain with
  | nil => exact ⟨.nil, nofun⟩
  | cons first rest ih =>
    obtain ⟨hfirst, hbounds, hafter⟩ := hstate.received_seq (hmem first mem_cons_self)
    obtain ⟨hordered, hrest⟩ := ih (fun viewer hviewer => hmem viewer (mem_cons_of_mem _ hviewer))
      hchain.tail
    have hlater : ∀ event ∈ rest.flatMap (·.received), first.last < event.seq := by
      intro event hevent
      cases rest with
      | nil => cases hevent
      | cons second more =>
        obtain ⟨hsecond, hjoined⟩ := (isChain_cons_cons.mp hchain).1
        exact hsecond ▸ hrest second rfl hjoined event hevent
    rw [flatMap_cons]
    refine ⟨pairwise_append.mpr ⟨hfirst, hordered, fun event hevent later hlate =>
      (hbounds event hevent).2.trans_lt (hlater later hlate)⟩, ?_⟩
    intro head hhead hjoined event hevent
    cases hhead
    obtain hmine | hlate := mem_append.mp hevent
    · exact (hafter hjoined).1.trans_lt (hbounds event hmine).1
    · exact (hafter hjoined).2.trans_lt (hlater event hlate)

/-- In every run, the window is a bounded end of the output and every viewer follows it, and
however often it leaves and comes back, a viewer gets the output in order and nothing twice. -/
theorem terminal_replays (actions : List Action) :
    Trace.Always State.step (fun state => Replays state ∧ ∀ chain : List Viewer,
      (∀ viewer ∈ chain, viewer ∈ state.viewers) → chain.IsChain Resumes →
        (chain.flatMap (·.received)).Pairwise (·.seq < ·.seq)) {} actions := by
  refine Trace.always_of_invariant
    (fun _ (hstate : Replays _) => ⟨hstate, fun _ hmem hchain => (hstate.resumed hmem hchain).1⟩)
    (fun _ _ _ => Replays.step) ?_
  exact ⟨rfl, suffix_rfl, rfl, .inl (Nat.zero_le _), nofun, nofun, nofun⟩

end Keel.Terminals
