import Keel.Foundation.Trace

/-! # Dispatching runs of one chat

Any number of dispatch calls for one chat, from commands, re-dispatched steers,
startup retries and boot recovery. A call that finds no live run, or has
interrupted the one it found and waited for it to leave the run table, may await
a routing decision and then inserts its own run. The table slot is looked at
when the call starts and not again before the insert. A run task is live from
its insertion until its exit, and leaving clears the slot only if it still holds
the run.

Runs are numbered as they are inserted, `D` is the type of calls. Every
interrupted run leaves within the settle wait, so the wait ends when the slot no
longer holds the run.
-/

namespace Keel

/-- Where a dispatch call stands. -/
inductive DispatchPhase where
  | idle
  /-- The live run did not take the message. -/
  | replacing
  /-- Waiting for an interrupted run to leave the table. -/
  | waiting (run : Nat)
  | clear
  /-- Awaiting the routing decision. -/
  | routing
  | returned
deriving DecidableEq

structure ChatRuns (D : Type) where
  /-- The chat's slot of the run table. -/
  table : Option Nat
  /-- Run tasks between their insertion and their exit. -/
  live : List Nat
  nextRun : Nat
  /-- Runs whose interrupt token was cancelled. -/
  cancelled : List Nat
  calls : D → DispatchPhase

inductive DispatchAction (D : Type) where
  /-- `accepted`: the live run's mailbox took the message and the run stayed. -/
  | call (dispatch : D) (accepted : Bool)
  | interrupt (dispatch : D)
  | settle (dispatch : D)
  | route (dispatch : D)
  /-- `ok` is false when the harness or the document is not available. -/
  | insert (dispatch : D) (ok : Bool)
  | exit (run : Nat)
  /-- An interrupt that no dispatch asked for. -/
  | userInterrupt

namespace ChatRuns

variable {D : Type} [DecidableEq D]

def init : ChatRuns D :=
  { table := none, live := [], nextRun := 0, cancelled := [], calls := fun _ => .idle }

def setCall (state : ChatRuns D) (dispatch : D) (phase : DispatchPhase) : ChatRuns D :=
  { state with calls := Function.update state.calls dispatch phase }

/-- Put a fresh run into the table slot and spawn its task. -/
def insertRun (state : ChatRuns D) : ChatRuns D :=
  { state with
    table := some state.nextRun, live := state.nextRun :: state.live
    nextRun := state.nextRun + 1 }

/-- The slot is cleared only by the run it holds. -/
def removeRun (state : ChatRuns D) (run : Nat) : ChatRuns D :=
  { state with
    table := if state.table = some run then none else state.table
    live := state.live.filter fun other => other ≠ run }

def step (state : ChatRuns D) : DispatchAction D → Option (ChatRuns D)
  | .call dispatch accepted =>
    match state.calls dispatch, state.table with
    | .idle, none => some (state.setCall dispatch .clear)
    | .idle, some _ => some (state.setCall dispatch (if accepted then .returned else .replacing))
    | _, _ => none
  | .interrupt dispatch =>
    match state.calls dispatch, state.table with
    | .replacing, none => some (state.setCall dispatch .clear)
    | .replacing, some run => some
        { state.setCall dispatch (.waiting run) with cancelled := run :: state.cancelled }
    | _, _ => none
  | .settle dispatch =>
    match state.calls dispatch with
    | .waiting run =>
      if state.table = some run then none else some (state.setCall dispatch .clear)
    | _ => none
  | .route dispatch =>
    match state.calls dispatch with
    | .clear => some (state.setCall dispatch .routing)
    | _ => none
  | .insert dispatch ok =>
    match state.calls dispatch with
    | .clear | .routing =>
      if ok then some (state.insertRun.setCall dispatch .returned)
      else some (state.setCall dispatch .returned)
    | _ => none
  | .exit run => if run ∈ state.live then some (state.removeRun run) else none
  | .userInterrupt => some { state with cancelled := state.table.toList ++ state.cancelled }

/-- A dispatch inserts its run into an empty slot. -/
def insertsIntoEmpty (state : ChatRuns D) : DispatchAction D → Bool
  | .insert _ true => state.table.isNone
  | _ => true

def OneRuntime (state : ChatRuns D) : Prop := state.live.length ≤ 1

instance (state : ChatRuns D) : Decidable (OneRuntime state) :=
  inferInstanceAs (Decidable (state.live.length ≤ 1))

/-- The live run tasks are the one in the table. -/
def TableHoldsLive (state : ChatRuns D) : Prop := state.live = state.table.toList

omit [DecidableEq D] in
theorem TableHoldsLive.oneRuntime {state : ChatRuns D} (hstate : TableHoldsLive state) :
    OneRuntime state := by
  unfold OneRuntime
  rw [hstate]
  cases state.table <;> simp

omit [DecidableEq D] in
theorem TableHoldsLive.removeRun {state : ChatRuns D} {run : Nat} (hstate : TableHoldsLive state)
    (hlive : run ∈ state.live) : TableHoldsLive (state.removeRun run) := by
  rw [hstate, Option.mem_toList] at hlive
  simp [TableHoldsLive, ChatRuns.removeRun, show state.live = _ from hstate,
    show state.table = some run from hlive]

/-- While the table holds the live runs, an insert is the only step that can
break it, and only by adding a second run. -/
theorem step_cases {state next : ChatRuns D} {action : DispatchAction D}
    (hstate : TableHoldsLive state) (hstep : state.step action = some next) :
    (state.insertsIntoEmpty action = true ∧ TableHoldsLive next) ∨
      (state.insertsIntoEmpty action = false ∧ ¬ OneRuntime next) := by
  cases action with
  | insert dispatch ok =>
    cases ok with
    | false =>
      simp only [step] at hstep
      split at hstep
      · cases hstep
        exact .inl ⟨rfl, hstate⟩
      · cases hstep
        exact .inl ⟨rfl, hstate⟩
      · cases hstep
    | true =>
      have hnext : next = state.insertRun.setCall dispatch .returned := by
        simp only [step] at hstep
        split at hstep
        · exact (Option.some.inj hstep).symm
        · exact (Option.some.inj hstep).symm
        · cases hstep
      subst hnext
      have hlive : state.live = state.table.toList := hstate
      cases htable : state.table with
      | none =>
        refine .inl ⟨by simp [insertsIntoEmpty, htable], ?_⟩
        simp [TableHoldsLive, setCall, insertRun, hlive, htable]
      | some run =>
        -- The run the slot held goes on running next to the new one.
        refine .inr ⟨by simp [insertsIntoEmpty, htable], ?_⟩
        simp [OneRuntime, setCall, insertRun, hlive, htable]
  | exit run =>
    simp only [step] at hstep
    split at hstep
    next hlive =>
      cases hstep
      exact .inl ⟨rfl, hstate.removeRun hlive⟩
    · cases hstep
  | call dispatch accepted | interrupt dispatch =>
    simp only [step] at hstep
    split at hstep
    · cases hstep
      exact .inl ⟨rfl, hstate⟩
    · cases hstep
      exact .inl ⟨rfl, hstate⟩
    · cases hstep
  | settle dispatch =>
    simp only [step] at hstep
    split at hstep
    · split at hstep
      · cases hstep
      · cases hstep
        exact .inl ⟨rfl, hstate⟩
    · cases hstep
  | route dispatch =>
    simp only [step] at hstep
    split at hstep
    · cases hstep
      exact .inl ⟨rfl, hstate⟩
    · cases hstep
  | userInterrupt =>
    cases hstep
    exact .inl ⟨rfl, hstate⟩

theorem always_oneRuntime_iff {state final : ChatRuns D} {trace : List (DispatchAction D)}
    (hstate : TableHoldsLive state) (hrun : Trace.run ChatRuns.step state trace = some final) :
    Trace.Always ChatRuns.step OneRuntime state trace ↔
      Trace.Guarded ChatRuns.step (fun state action => state.insertsIntoEmpty action = true)
        state trace := by
  induction trace generalizing state with
  | nil => simp [Trace.Always, Trace.Guarded, hstate.oneRuntime]
  | cons action rest ih =>
    obtain ⟨next, hstep, hrest⟩ := Trace.run_cons_eq_some.1 hrun
    rw [Trace.always_cons_of_step hstep, Trace.guarded_cons_of_step hstep]
    rcases step_cases hstate hstep with ⟨hempty, hnext⟩ | ⟨hoccupied, htwo⟩
    · rw [ih hnext hrest]
      simp [hstate.oneRuntime, hempty]
    · constructor
      · rintro ⟨-, halways⟩
        exact absurd halways.head htwo
      · rintro ⟨hempty, -⟩
        rw [hoccupied] at hempty
        cases hempty

/-- A chat has at most one live run task throughout if and only if every
dispatch that inserts its run finds the table slot empty. -/
theorem oneRuntime_iff_insertsIntoEmpty (trace : List (DispatchAction D)) (final : ChatRuns D)
    (hrun : Trace.run ChatRuns.step init trace = some final) :
    Trace.Always ChatRuns.step OneRuntime init trace ↔
      Trace.Guarded ChatRuns.step (fun state action => state.insertsIntoEmpty action = true)
        init trace :=
  always_oneRuntime_iff rfl hrun

/-- A second call interrupts the first one's run, waits for it and inserts. -/
def replacesRun : List (DispatchAction Nat) :=
  [.call 0 false, .insert 0 true, .call 1 false, .interrupt 1, .exit 0, .settle 1, .route 1,
    .insert 1 true]

theorem oneRuntime_replacesRun :
    Trace.Always ChatRuns.step OneRuntime init replacesRun :=
  (oneRuntime_iff_insertsIntoEmpty replacesRun _ rfl).mpr (by decide)

/-- Two calls interrupt one run. Both waits end when it leaves the table, and
each call inserts. -/
def bothReplaceRun : List (DispatchAction Nat) :=
  [.call 0 false, .insert 0 true, .call 1 false, .interrupt 1, .call 2 false, .interrupt 2,
    .exit 0, .settle 1, .settle 2, .insert 1 true, .insert 2 true]

theorem bothReplaceRun_twoRuntimes :
    ¬ ∀ trace : List (DispatchAction Nat), ∀ final : ChatRuns Nat,
      Trace.run ChatRuns.step init trace = some final →
        Trace.Always ChatRuns.step OneRuntime init trace := by
  intro hclaim
  have halways := hclaim bothReplaceRun _ rfl
  have hlast := halways.final rfl
  exact absurd hlast (by decide)

end ChatRuns

end Keel
