import Keel.Engine.Workflow

/-! # Replaying validation traces

A run keeps every trace that a validation has returned and may present any of them, any
number of times and with any action. The revision separates them: a completion moves it on,
and a trace of an earlier revision is refused.
-/

namespace Keel.Workflow

open List Option

variable {α : Type}

/-- A task state and the validation traces its callers hold, oldest first. -/
structure ActionRun where
  task : TaskState
  issued : List ValidationTrace := []

namespace ActionRun

def start (revision : Nat) : ActionRun := { task := TaskState.new revision }

end ActionRun

inductive Call (α : Type) where
  | invalidate
  | cancel
  | validate (action : PreparedAction α) (selectedId : String) (context : ValidationContext)
  | record (action : PreparedAction α) (index : Nat) (outcome : ExecutionOutcome)

def Call.action? : Call α → Option (PreparedAction α)
  | .invalidate | .cancel => none
  | .validate action _ _ => some action
  | .record action _ _ => some action

def recorded (run : ActionRun) (action : PreparedAction α) (index : Nat)
    (outcome : ExecutionOutcome) : Option (ValidationTrace × TaskState × OutcomeTrace) :=
  run.issued[index]?.bind fun validation =>
    (run.task.recordOutcome action validation outcome).map fun result => (validation, result)

/-- One call; `none` when the revision is exhausted or no such trace was issued. -/
def step (run : ActionRun) : Call α → Option ActionRun
  | .invalidate => run.task.invalidate.map fun task => { run with task }
  | .cancel => some { run with task := { run.task with cancelled := true } }
  | .validate action selectedId context =>
    some { run with issued := run.issued ++ [validateSelected run.task action selectedId context] }
  | .record action index outcome =>
    (recorded run action index outcome).map fun (_, task, _) => { run with task }

/-- The trace that a call turns into a completion. -/
def completion? (run : ActionRun) : Call α → Option ValidationTrace
  | .record action index outcome =>
    (recorded run action index outcome).bind fun (validation, _, result) =>
      if result.status = .verified then some validation else none
  | _ => none

/-- The traces of a run's completions, in order. -/
def completions : ActionRun → List (Call α) → List ValidationTrace
  | _, [] => []
  | run, call :: rest =>
    (completion? run call).toList ++
      match step run call with
      | none => []
      | some next => completions next rest

variable {run next : ActionRun} {validation : ValidationTrace} {call : Call α}
  {calls : List (Call α)} {revision : Nat}

theorem recorded_eq_some {action : PreparedAction α} {index : Nat} {outcome : ExecutionOutcome}
    {task : TaskState} {result : OutcomeTrace} :
    recorded run action index outcome = some (validation, task, result) ↔
      run.issued[index]? = some validation ∧
        run.task.recordOutcome action validation outcome = some (task, result) := by
  simp only [recorded, bind_eq_some_iff, map_eq_some_iff, Prod.mk.injEq]
  constructor
  · rintro ⟨issued, hissued, ⟨next, outcomeTrace⟩, hrecord, rfl, rfl, rfl⟩
    exact ⟨hissued, hrecord⟩
  · rintro ⟨hissued, hrecord⟩
    exact ⟨validation, hissued, (task, result), hrecord, rfl, rfl⟩

theorem completion?_eq_some (hcompletion : completion? run call = some validation) :
    ∃ action index, call = .record action index .verified ∧
      run.issued[index]? = some validation ∧ Matches run.task action validation ∧
      step run call = some { run with task := { run.task with
        revision := run.task.revision + 1
        completed := insert action.id run.task.completed } } := by
  cases call with
  | invalidate | cancel | validate action selectedId context => cases hcompletion
  | record action index outcome =>
    simp only [completion?, bind_eq_some_iff, Prod.exists, ite_none_right_eq_some,
      some.injEq] at hcompletion
    obtain ⟨_, task, result, hrecorded, hstatus, rfl⟩ := hcompletion
    obtain ⟨hissued, hrecord⟩ := recorded_eq_some.1 hrecorded
    rcases recordOutcome_cases hrecord with ⟨hother, -⟩ | ⟨-, rfl, hmatches, rfl⟩
    · exact absurd hstatus hother
    · refine ⟨action, index, rfl, hissued, hmatches, ?_⟩
      simp only [step, hrecorded, map_some]

/-- What a step changes: it completes a trace, moves the revision on, cancels, issues a
trace, or does nothing. -/
theorem step_cases (hstep : step run call = some next) :
    (∃ validation, completion? run call = some validation) ∨
      (completion? run call = none ∧ next.task.completed = run.task.completed ∧
        run.task.revision ≤ next.task.revision ∧
        (next.issued = run.issued ∨ ∃ action selectedId context,
          call = .validate action selectedId context ∧ next.task = run.task ∧
          next.issued = run.issued ++ [validateSelected run.task action selectedId context])) := by
  cases call with
  | invalidate =>
    simp only [step, TaskState.invalidate, map_eq_some_iff, ite_none_right_eq_some,
      some.injEq] at hstep
    obtain ⟨task, ⟨-, rfl⟩, rfl⟩ := hstep
    exact .inr ⟨rfl, rfl, Nat.le_succ _, .inl rfl⟩
  | cancel =>
    cases hstep
    exact .inr ⟨rfl, rfl, Nat.le_refl _, .inl rfl⟩
  | validate action selectedId context =>
    cases hstep
    exact .inr ⟨rfl, rfl, Nat.le_refl _, .inr ⟨action, selectedId, context, rfl, rfl, rfl⟩⟩
  | record action index outcome =>
    simp only [step, map_eq_some_iff, Prod.exists] at hstep
    obtain ⟨validation, task, result, hrecorded, rfl⟩ := hstep
    obtain ⟨hissued, hrecord⟩ := recorded_eq_some.1 hrecorded
    rcases recordOutcome_cases hrecord with ⟨hstatus, rfl⟩ | ⟨hstatus, -⟩
    · refine .inr ⟨?_, rfl, Nat.le_refl _, .inl rfl⟩
      simp only [completion?, hrecorded, bind_some, hstatus, if_false]
    · refine .inl ⟨validation, ?_⟩
      simp only [completion?, hrecorded, bind_some, hstatus, if_true]

theorem completion_revision
    (hcompletion : completion? run call = some validation) (hstep : step run call = some next) :
    validation.taskRevision = run.task.revision ∧ next.task.revision = run.task.revision + 1 := by
  obtain ⟨action, index, -, -, hmatches, htaken⟩ := completion?_eq_some hcompletion
  obtain rfl := mem_unique htaken hstep
  exact ⟨hmatches.taskRevision, rfl⟩

theorem revision_le_of_step
    (hstep : step run call = some next) : run.task.revision ≤ next.task.revision := by
  rcases step_cases hstep with ⟨validation, hcompletion⟩ | ⟨-, -, hrevision, -⟩
  · rw [(completion_revision hcompletion hstep).2]
    exact Nat.le_succ _
  · exact hrevision

theorem revision_le_of_mem_completions (hmem : validation ∈ completions run calls) :
    run.task.revision ≤ validation.taskRevision := by
  induction calls generalizing run with
  | nil => cases hmem
  | cons call rest ih =>
    simp only [completions, mem_append, mem_toList] at hmem
    rcases hmem with hcompletion | hmem
    · obtain ⟨_, _, _, _, hmatches, _⟩ := completion?_eq_some hcompletion
      rw [hmatches.taskRevision]
    · split at hmem
      · cases hmem
      next next hstep => exact (revision_le_of_step hstep).trans (ih hmem)

theorem completions_nodup (run : ActionRun) (calls : List (Call α)) :
    (completions run calls).Nodup := by
  induction calls generalizing run with
  | nil => exact nodup_nil
  | cons call rest ih =>
    simp only [completions]
    cases hcompletion : completion? run call with
    | none =>
      simp only [toList_none, nil_append]
      split
      · exact nodup_nil
      next next _ => exact ih next
    | some validation =>
      simp only [toList_some, singleton_append, nodup_cons]
      split
      · simp
      next next hstep =>
        refine ⟨?_, ih next⟩
        intro hagain
        have hlater := revision_le_of_mem_completions hagain
        have hmoved := completion_revision hcompletion hstep
        omega

/-- A validation trace that the calls have issued, for that action and at that revision. -/
def Produced (revision : Nat) (calls : List (Call α)) (action : PreparedAction α)
    (validation : ValidationTrace) : Prop :=
  ∃ earlier later selectedId context run,
    calls = earlier ++ .validate action selectedId context :: later ∧
      Trace.run step (ActionRun.start revision) earlier = some run ∧
      validation = validateSelected run.task action selectedId context

theorem Produced.append {later : List (Call α)} {action : PreparedAction α}
    (hproduced : Produced revision calls action validation) :
    Produced revision (calls ++ later) action validation := by
  obtain ⟨earlier, rest, selectedId, context, run, rfl, hrun, hvalidation⟩ := hproduced
  exact ⟨earlier, rest ++ later, selectedId, context, run, by simp, hrun, hvalidation⟩

/-- What is known of an issued trace: who it was produced for, and that the preconditions
it was accepted under still hold. -/
def Backed (revision : Nat) (calls : List (Call α)) (run : ActionRun)
    (validation : ValidationTrace) : Prop :=
  ∃ action, Produced revision calls action validation ∧ validation.actionId = action.id ∧
    (validation.accepted = true → ∀ id, Precondition.completed id ∈ action.preconditions →
      id ∈ run.task.completed)

theorem completed_subset_of_step
    (hstep : step run call = some next) : run.task.completed ⊆ next.task.completed := by
  rcases step_cases hstep with ⟨validation, hcompletion⟩ | ⟨-, hcompleted, -, -⟩
  · obtain ⟨action, index, -, -, -, htaken⟩ := completion?_eq_some hcompletion
    obtain rfl := mem_unique htaken hstep
    exact Finset.subset_insert _ _
  · rw [hcompleted]

theorem Backed.later (hbacked : Backed revision calls run validation)
    (hstep : step run call = some next) : Backed revision (calls ++ [call]) next validation := by
  obtain ⟨action, hproduced, hid, hmet⟩ := hbacked
  refine ⟨action, hproduced.append, hid, ?_⟩
  intro haccepted id hprecondition
  exact completed_subset_of_step hstep (hmet haccepted id hprecondition)

theorem backed_of_run (hrun : Trace.run step (ActionRun.start revision) calls = some run) :
    ∀ validation ∈ run.issued, Backed revision calls run validation := by
  induction calls using List.reverseRecOn generalizing run with
  | nil =>
    cases hrun
    intro validation hissued
    cases hissued
  | append_singleton calls call ih =>
    obtain ⟨last, hlast, hstep⟩ := Trace.run_concat_eq_some.1 hrun
    intro validation hissued
    rcases step_cases hstep with ⟨completed, hcompletion⟩ | ⟨-, -, -, hsame | hvalidated⟩
    · obtain ⟨_, _, -, -, -, htaken⟩ := completion?_eq_some hcompletion
      obtain rfl := mem_unique htaken hstep
      exact (ih hlast validation hissued).later hstep
    · rw [hsame] at hissued
      exact (ih hlast validation hissued).later hstep
    · obtain ⟨action, selectedId, context, rfl, htask, hadded⟩ := hvalidated
      rw [hadded, mem_append, mem_singleton] at hissued
      rcases hissued with hold | rfl
      · exact (ih hlast validation hold).later hstep
      · refine ⟨action, ⟨calls, [], selectedId, context, last, rfl, hlast, rfl⟩, rfl, ?_⟩
        intro haccepted
        rw [htask]
        exact (accepts_of_validateSelected haccepted).met

theorem Produced.mem {action : PreparedAction α}
    (hproduced : Produced revision calls action validation) :
    ∃ call ∈ calls, call.action? = some action := by
  obtain ⟨earlier, later, selectedId, context, run, rfl, -, -⟩ := hproduced
  exact ⟨_, mem_append_right _ mem_cons_self, rfl⟩

/-- In every run over a set of prepared actions the revision never decreases, an id enters
`completed` only through a verified outcome whose trace was accepted at the current
revision, for an action of that id with all its preconditions completed, and no trace
completes twice. -/
theorem replay_safe {actions : Set (PreparedAction α)} {revision : Nat} {calls : List (Call α)}
    (hcalls : ∀ call ∈ calls, ∀ action, call.action? = some action → action ∈ actions) :
    (∀ earlier call later run next, calls = earlier ++ call :: later →
        Trace.run step (ActionRun.start revision) earlier = some run →
        step run call = some next →
        run.task.revision ≤ next.task.revision ∧
          ∀ id ∈ next.task.completed, id ∉ run.task.completed →
            ∃ action index validation validated,
              call = .record action index .verified ∧ action.id = id ∧
              completion? run call = some validation ∧
              run.issued[index]? = some validation ∧ validation.accepted = true ∧
              validation.taskRevision = run.task.revision ∧
              validated ∈ actions ∧ validated.id = id ∧
              Produced revision earlier validated validation ∧
              (∀ needed, Precondition.completed needed ∈ validated.preconditions →
                needed ∈ run.task.completed) ∧
              (Set.InjOn PreparedAction.id actions → validated = action)) ∧
      (completions (ActionRun.start revision) calls).Nodup := by
  refine ⟨?_, completions_nodup _ calls⟩
  rintro earlier call later run next rfl hrun hstep
  refine ⟨revision_le_of_step hstep, ?_⟩
  intro id hafter hbefore
  rcases step_cases hstep with ⟨validation, hcompletion⟩ | ⟨-, hsame, -, -⟩
  · obtain ⟨action, index, hcall, hissued, hmatches, htaken⟩ := completion?_eq_some hcompletion
    obtain rfl := mem_unique htaken hstep
    obtain rfl : id = action.id := by
      rcases Finset.mem_insert.mp hafter with hid | hold
      · exact hid
      · exact absurd hold hbefore
    obtain ⟨validated, hproduced, hid, hmet⟩ :=
      backed_of_run hrun validation (mem_of_getElem? hissued)
    have hsameId : validated.id = action.id := hid.symm.trans hmatches.actionId
    have hrecorded : action ∈ actions := by
      apply hcalls call (mem_append_right _ mem_cons_self)
      rw [hcall]
      rfl
    have hvalidated : validated ∈ actions := by
      obtain ⟨issuer, hissuer, haction⟩ := hproduced.mem
      exact hcalls issuer (mem_append_left _ hissuer) validated haction
    exact ⟨action, index, validation, validated, hcall, rfl, hcompletion, hissued,
      hmatches.accepted, hmatches.taskRevision, hvalidated, hsameId, hproduced,
      hmet hmatches.accepted, fun hinj => hinj hvalidated hrecorded hsameId⟩
  · rw [hsame] at hafter
    exact absurd hafter hbefore

def freeAction : PreparedAction Unit where
  id := "inspect"
  description := "Read the relevant source"
  payload := ()
  preparedAtRevision := 7
  preconditions := []
  readSetFingerprint := none
  expiresAtMs := none

/-- The same id on an action that waits for a plan. -/
def gatedAction : PreparedAction Unit :=
  { freeAction with preconditions := [.completed "plan"] }

def openContext : ValidationContext where
  nowMs := 99
  currentReadSetFingerprint := none
  authorized := true

/-- The trace is recorded twice and completes once. -/
def replayedCalls : List (Call Unit) :=
  [.validate freeAction "inspect" openContext, .record freeAction 0 .verified,
    .record freeAction 0 .verified]

theorem replay_safe_inspect :
    (completions (ActionRun.start 7) replayedCalls).length = 1 ∧
      (completions (ActionRun.start 7) replayedCalls).Nodup := by
  have hcalls : ∀ call ∈ replayedCalls, ∀ action, call.action? = some action →
      action ∈ ({freeAction} : Set (PreparedAction Unit)) := by
    intro call hcall action haction
    simp only [replayedCalls, mem_cons, not_mem_nil, or_false] at hcall
    rcases hcall with rfl | rfl | rfl <;> exact (Option.some.inj haction).symm
  exact ⟨by decide, (replay_safe hcalls).2⟩

/-- Two prepared actions may share an id: the trace of the one then completes the other,
which was never validated and whose precondition is not met. -/
theorem shared_id_completes_unvalidated :
    ∃ run next,
      Trace.run step (ActionRun.start 7) [.validate freeAction "inspect" openContext] = some run ∧
      step run (.record gatedAction 0 .verified) = some next ∧
      "inspect" ∉ run.task.completed ∧ "inspect" ∈ next.task.completed ∧
      Precondition.completed "plan" ∈ gatedAction.preconditions ∧
      "plan" ∉ run.task.completed ∧
      ∀ validation, ¬ Produced 7 [.validate freeAction "inspect" openContext] gatedAction
        validation := by
  refine ⟨_, _, rfl, rfl, by decide, by decide, by decide, by decide, ?_⟩
  intro validation hproduced
  obtain ⟨call, hcall, haction⟩ := hproduced.mem
  obtain rfl := mem_singleton.mp hcall
  exact absurd (Option.some.inj haction) (by decide)

end Keel.Workflow
