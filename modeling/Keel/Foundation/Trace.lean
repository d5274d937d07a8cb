import Mathlib.Logic.Basic
import Mathlib.Tactic.Common

/-! # Finite executions of a partial step function

A system is a step function that may disable an action in a given state. A
trace is a finite list of actions. Executing a trace stops at the first
disabled action, so a completed execution performs every action of its trace.
Since every prefix of a trace is a trace, a statement about the end of every
execution is a statement about every state the system visits.

Guards restrict the executions a result speaks about. A guard may inspect the
action and the state before it, never the state after it.
-/

namespace Trace

universe u v

variable {State : Type u} {Action : Type v}

/-- Perform a list of actions, stopping at the first disabled one. -/
def run (step : State → Action → Option State) : State → List Action → Option State
  | state, [] => some state
  | state, action :: rest =>
    match step state action with
    | none => none
    | some next => run step next rest

/-- Every action is taken in a state where the guard allows it. -/
def Guarded (step : State → Action → Option State) (guard : State → Action → Prop) :
    State → List Action → Prop
  | _, [] => True
  | state, action :: rest => guard state action ∧
      match step state action with
      | none => True
      | some next => Guarded step guard next rest

/-- A property holds in every state an execution visits. -/
def Always (step : State → Action → Option State) (property : State → Prop) :
    State → List Action → Prop
  | state, [] => property state
  | state, action :: rest => property state ∧
      match step state action with
      | none => True
      | some next => Always step property next rest

instance (step : State → Action → Option State) (guard : State → Action → Prop)
    [decidable : ∀ state action, Decidable (guard state action)] :
    ∀ state trace, Decidable (Guarded step guard state trace)
  | _, [] => isTrue trivial
  | state, action :: rest =>
    @instDecidableAnd _ _ (decidable state action) <|
      match step state action with
      | none => isTrue trivial
      | some next => instDecidableGuarded step guard next rest

variable {step : State → Action → Option State} {guard : State → Action → Prop}

@[simp] theorem run_nil (state : State) : run step state [] = some state := rfl

variable {state next : State} {action : Action} {rest trace : List Action}
  {other : State → Action → Prop} {property invariant : State → Prop}

/-- The first action of a completed execution is enabled, and the rest of the
trace completes from its successor. -/
theorem run_cons_eq_some {final : State} :
    run step state (action :: rest) = some final ↔
      ∃ next, step state action = some next ∧ run step next rest = some final := by
  simp only [run]
  cases step state action with
  | none | some next => simp

/-- An execution of two traces in a row passes through the end of the first. -/
theorem run_append_eq_some {final : State} {first second : List Action} :
    run step state (first ++ second) = some final ↔
      ∃ middle, run step state first = some middle ∧ run step middle second = some final := by
  induction first generalizing state with
  | nil => simp
  | cons action rest ih =>
    simp only [List.cons_append, run_cons_eq_some, ih]
    constructor
    · rintro ⟨next, hstep, middle, hrest, hsecond⟩
      exact ⟨middle, ⟨next, hstep, hrest⟩, hsecond⟩
    · rintro ⟨middle, ⟨next, hstep, hrest⟩, hsecond⟩
      exact ⟨next, hstep, middle, hrest, hsecond⟩

/-- The last action of a completed execution is taken where the actions before it end. -/
theorem run_concat_eq_some {final : State} {init : List Action} :
    run step state (init ++ [action]) = some final ↔
      ∃ last, run step state init = some last ∧ step last action = some final := by
  rw [run_append_eq_some]
  constructor
  · rintro ⟨last, hinit, hlast⟩
    obtain ⟨next, hstep, hnil⟩ := run_cons_eq_some.1 hlast
    rw [run_nil, Option.some.injEq] at hnil
    exact ⟨last, hinit, hnil ▸ hstep⟩
  · rintro ⟨last, hinit, hstep⟩
    exact ⟨last, hinit, run_cons_eq_some.2 ⟨final, hstep, rfl⟩⟩

theorem Guarded.head (hguarded : Guarded step guard state (action :: rest)) : guard state action :=
  hguarded.1

theorem Guarded.tail (hguarded : Guarded step guard state (action :: rest))
    (hstep : step state action = some next) : Guarded step guard next rest := by
  have htail := hguarded.2
  rw [hstep] at htail
  exact htail

theorem Guarded.of_append {middle : State} {first second : List Action}
    (hguarded : Guarded step guard state (first ++ second))
    (hrun : run step state first = some middle) : Guarded step guard middle second := by
  induction first generalizing state with
  | nil =>
    obtain rfl : state = middle := by simpa using hrun
    exact hguarded
  | cons action rest ih =>
    obtain ⟨next, hstep, hrest⟩ := run_cons_eq_some.1 hrun
    exact ih (hguarded.tail hstep) hrest

/-- A guard that holds of each action in any state makes the trace a guarded one. -/
theorem Guarded.of_forall_mem (hall : ∀ action ∈ trace, ∀ state, guard state action) :
    Guarded step guard state trace := by
  induction trace generalizing state with
  | nil => trivial
  | cons action rest ih =>
    refine ⟨hall action List.mem_cons_self state, ?_⟩
    cases step state action with
    | none => trivial
    | some next => exact ih fun later hmem => hall later (List.mem_cons_of_mem _ hmem)

theorem Guarded.and
    (hguarded : Guarded step guard state trace) (hother : Guarded step other state trace) :
    Guarded step (fun state action => guard state action ∧ other state action) state trace := by
  induction trace generalizing state with
  | nil => trivial
  | cons action rest ih =>
    refine ⟨⟨hguarded.head, hother.head⟩, ?_⟩
    cases hstep : step state action with
    | none => trivial
    | some next => exact ih (hguarded.tail hstep) (hother.tail hstep)

theorem Guarded.imp (himp : ∀ state action, guard state action → other state action)
    (hguarded : Guarded step guard state trace) : Guarded step other state trace := by
  induction trace generalizing state with
  | nil => trivial
  | cons action rest ih =>
    refine ⟨himp state action hguarded.head, ?_⟩
    cases hstep : step state action with
    | none => trivial
    | some next => exact ih (hguarded.tail hstep)

theorem guarded_and_iff :
    Guarded step (fun state action => guard state action ∧ other state action) state trace ↔
      Guarded step guard state trace ∧ Guarded step other state trace :=
  ⟨fun hboth => ⟨hboth.imp fun _ _ => And.left, hboth.imp fun _ _ => And.right⟩,
    fun ⟨hguarded, hother⟩ => hguarded.and hother⟩

theorem always_cons_of_step (hstep : step state action = some next) :
    Always step property state (action :: rest) ↔
      property state ∧ Always step property next rest := by
  simp only [Always, hstep]

theorem guarded_cons_of_step (hstep : step state action = some next) :
    Guarded step guard state (action :: rest) ↔
      guard state action ∧ Guarded step guard next rest := by
  simp only [Guarded, hstep]

theorem Always.head (halways : Always step property state trace) : property state := by
  cases trace with
  | nil => exact halways
  | cons action rest => exact halways.1

theorem Always.final {property : State → Prop} {state final : State} {trace : List Action}
    (halways : Always step property state trace) (hrun : run step state trace = some final) :
    property final := by
  induction trace generalizing state with
  | nil =>
    simp only [run_nil, Option.some.injEq] at hrun
    exact hrun ▸ halways
  | cons action rest ih =>
    obtain ⟨next, hstep, hrest⟩ := run_cons_eq_some.1 hrun
    exact ih ((always_cons_of_step hstep).mp halways).2 hrest

/-- What an invariant of the steps implies holds throughout every trace. -/
theorem always_of_invariant (hproperty : ∀ state, invariant state → property state)
    (hkept : ∀ state action next, invariant state → step state action = some next →
      invariant next)
    (hstate : invariant state) : Always step property state trace := by
  induction trace generalizing state with
  | nil => exact hproperty state hstate
  | cons action rest ih =>
    refine ⟨hproperty state hstate, ?_⟩
    cases hnext : step state action with
    | none => trivial
    | some next => exact ih (hkept state action next hstate hnext)

/-- An invariant that the guarded steps keep, and the others leave with the property broken, says
when a trace keeps the property throughout. -/
theorem always_iff_guarded_of_broken
    (hproperty : ∀ state, invariant state → property state)
    (hkept : ∀ state action next, invariant state → guard state action →
      step state action = some next → invariant next)
    (hbroken : ∀ state action next, invariant state → ¬ guard state action →
      step state action = some next → ¬ property next)
    (hdisabled : ∀ state action, invariant state → step state action = none → guard state action)
    (hstate : invariant state) :
    Always step property state trace ↔ Guarded step guard state trace := by
  induction trace generalizing state with
  | nil => exact ⟨fun _ => trivial, fun _ => hproperty state hstate⟩
  | cons action rest ih =>
    cases hnext : step state action with
    | none =>
      simp only [Always, Guarded, hnext, and_true]
      exact ⟨fun _ => hdisabled state action hstate hnext, fun _ => hproperty state hstate⟩
    | some next =>
      rw [always_cons_of_step hnext, guarded_cons_of_step hnext]
      constructor
      · intro ⟨_, hrest⟩
        have hguard : guard state action := by
          by_contra hguard
          exact hbroken state action next hstate hguard hnext hrest.head
        exact ⟨hguard, (ih (hkept state action next hstate hguard hnext)).mp hrest⟩
      · intro ⟨hguard, hrest⟩
        exact ⟨hproperty state hstate,
          (ih (hkept state action next hstate hguard hnext)).mpr hrest⟩

/-- Where an invariant holds, a guard that says when a step keeps a property says when a trace
keeps it throughout. -/
theorem always_iff_guarded_of_invariant {invariant property : State → Prop}
    (hinvariant : ∀ state action next, invariant state → step state action = some next →
      invariant next)
    (hstep : ∀ state action next, invariant state → property state →
      step state action = some next → (property next ↔ guard state action))
    (hdisabled : ∀ state action, step state action = none → guard state action)
    {state : State} {trace : List Action} (hstate : invariant state) (hstart : property state) :
    Always step property state trace ↔ Guarded step guard state trace := by
  have hboth : invariant state ∧ property state := ⟨hstate, hstart⟩
  refine always_iff_guarded_of_broken (fun _ => And.right) ?_ ?_
    (fun state action _ hnone => hdisabled state action hnone) hboth
  · rintro state action next ⟨hstate, hproperty⟩ hguard hnext
    exact ⟨hinvariant state action next hstate hnext,
      (hstep state action next hstate hproperty hnext).mpr hguard⟩
  · rintro state action next ⟨hstate, hproperty⟩ hguard hnext hkept
    exact hguard ((hstep state action next hstate hproperty hnext).mp hkept)

/-- A guard that says when a step keeps a property says when a trace keeps it throughout. -/
theorem always_iff_guarded
    (hstep : ∀ state action next, property state → step state action = some next →
      (property next ↔ guard state action))
    (hdisabled : ∀ state action, step state action = none → guard state action)
    (hstart : property state) :
    Always step property state trace ↔ Guarded step guard state trace :=
  @always_iff_guarded_of_invariant _ _ _ _ (fun _ => True) _ (fun _ _ _ _ _ => trivial)
    (fun state action next _ => hstep state action next) hdisabled _ _ trivial hstart

/-- Where no step mends a property, a guard that says when a step keeps it says when it lasts to the
end. -/
theorem final_iff_guarded_of_invariant {invariant property : State → Prop}
    (hinvariant : ∀ state action next, invariant state → step state action = some next →
      invariant next)
    (hstep : ∀ state action next, invariant state → step state action = some next →
      (property next ↔ property state ∧ guard state action))
    {state final : State} {trace : List Action} (hstate : invariant state)
    (hrun : run step state trace = some final) :
    property final ↔ property state ∧ Guarded step guard state trace := by
  induction trace generalizing state with
  | nil =>
    obtain rfl : state = final := by simpa using hrun
    exact (and_iff_left trivial).symm
  | cons action rest ih =>
    obtain ⟨next, hnext, hrest⟩ := run_cons_eq_some.1 hrun
    rw [ih (hinvariant state action next hstate hnext) hrest,
      hstep state action next hstate hnext, guarded_cons_of_step hnext, and_assoc]

/-- A predicate kept by every guarded step holds at the end of every guarded
execution. -/
theorem guarded_invariant {invariant : State → Prop}
    (hpreserved : ∀ state action next, invariant state → guard state action →
      step state action = some next → invariant next)
    {state final : State} {trace : List Action} (hstart : invariant state)
    (hguarded : Guarded step guard state trace)
    (hrun : run step state trace = some final) : invariant final := by
  induction trace generalizing state with
  | nil =>
    simp only [run_nil, Option.some.injEq] at hrun
    exact hrun ▸ hstart
  | cons action rest ih =>
    obtain ⟨next, hstep, hrest⟩ := run_cons_eq_some.1 hrun
    exact ih (hpreserved state action next hstart hguarded.head hstep)
      (hguarded.tail hstep) hrest

theorem run_invariant {invariant : State → Prop}
    (hpreserved : ∀ state action next, invariant state →
      step state action = some next → invariant next)
    {state final : State} {trace : List Action} (hstart : invariant state)
    (hrun : run step state trace = some final) : invariant final :=
  guarded_invariant (fun state action next hstate _ => hpreserved state action next hstate) hstart
    (Guarded.of_forall_mem fun _ _ _ => trivial) hrun

variable
    (hpreserved : ∀ state action next, invariant state → step state action = some next →
    invariant next)
include hpreserved

/-- An invariant that makes a guard true at every enabled step makes every
completed execution a guarded one. -/
theorem guarded_of_invariant
    (hguard : ∀ state action next, invariant state →
      step state action = some next → guard state action) {final : State} (hstart : invariant state)
    (hrun : run step state trace = some final) : Guarded step guard state trace := by
  induction trace generalizing state with
  | nil => trivial
  | cons action rest ih =>
    obtain ⟨next, hstep, hrest⟩ := run_cons_eq_some.1 hrun
    refine ⟨hguard state action next hstart hstep, ?_⟩
    rw [hstep]
    exact ih (hpreserved state action next hstart hstep) hrest

/-- Guards that agree wherever an invariant holds restrict the executions alike. -/
theorem guarded_congr_of_invariant
    (hagree : ∀ state action, invariant state → (guard state action ↔ other state action))
    (hstart : invariant state) :
    Guarded step guard state trace ↔ Guarded step other state trace := by
  induction trace generalizing state with
  | nil => rfl
  | cons action rest ih =>
    refine and_congr (hagree state action hstart) ?_
    cases hstep : step state action with
    | none => rfl
    | some next => exact ih (hpreserved state action next hstart hstep)

end Trace
