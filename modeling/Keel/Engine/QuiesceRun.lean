import Keel.Engine.RunFidelity

/-! # Text around a quiesce trip

The watchdog parks a silent turn, and text that comes back later re-opens it. Text that comes back
within the gate of the park is taken for a finished turn's tail and dropped, and nothing else is
lost: the transcript gains the turn's text exactly when no text arrives that early.
-/

namespace Keel

open List Option

namespace DriveRun

section Turn

/-- The steps of a turn: text, the timers, and what other writers do. -/
def TurnAction : DriveAction → Prop
  | .event _ (.textDelta _) | .heartbeat | .flush _ | .quiesce _ | .append _ | .slot .. => True
  | _ => False

def said : DriveAction → List String
  | .event _ event => event.deltas
  | _ => []

/-- Text that reaches a parked run comes after the gate. -/
def AfterGate (run : DriveRun) : DriveAction → Prop
  | .event now (.textDelta text) =>
    text = "" ∨ ∀ parkedAt ∈ run.idleSince, resumeGate ≤ now - parkedAt
  | _ => True

instance (action : DriveAction) : Decidable (TurnAction action) := by
  unfold TurnAction
  split <;> infer_instance

instance (run : DriveRun) (action : DriveAction) : Decidable (run.AfterGate action) := by
  unfold AfterGate
  split <;> infer_instance

/-- What the run takes in of an action's text. -/
def kept (run : DriveRun) : DriveAction → List String
  | .event now event => run.hears now event
  | _ => []

variable {setup : RunSetup} {run next : DriveRun} {action : DriveAction}

theorem accept_textDelta [LineDiff] (run : DriveRun) (setup : RunSetup) (now : Nat)
    (text : String) :
    (run.accept setup now (.textDelta text)).phase = run.phase ∧
      (run.accept setup now (.textDelta text)).heard = run.heard := by
  simp only [accept, startupCrash, Bool.false_eq_true, if_false, markDirty]
  split <;> exact ⟨rfl, rfl⟩

/-- A text delta keeps the run going and is heard unless the gate drops it. -/
theorem receive_textDelta [LineDiff] (run : DriveRun) (setup : RunSetup) (now : Nat)
    (text : String) :
    (run.receive setup now (.textDelta text)).phase = run.phase ∧
      (run.receive setup now (.textDelta text)).heard =
        run.heard ++ run.hears now (.textDelta text) := by
  unfold receive
  extract_lets active
  obtain ⟨hsame, -⟩ := parkedGate_frame setup active now (.textDelta text)
  split
  next hdecision => exact nomatch hdecision
  · split
    next hunknown => exact nomatch hunknown
    · generalize active.parkedGate setup now (.textDelta text) = outcome at hsame ⊢
      obtain ⟨gated, passes⟩ := outcome
      simp only at hsame ⊢
      split
      · exact ⟨hsame.phase, hsame.heard⟩
      · obtain ⟨hphase, hheard⟩ := accept_textDelta gated setup now text
        exact ⟨hphase.trans hsame.phase, hheard.trans hsame.heard⟩

theorem turn_step [LineDiff] (hphase : run.phase = .running) (haction : TurnAction action)
    (hstep : run.step setup action = some next) :
    next.phase = .running ∧ next.heard = run.heard ++ run.kept action := by
  have hsilent : run.heard = run.heard ++ [] := (append_nil _).symm
  cases action with
  | append entry | slot pendingInputs ownsSlot =>
    cases hstep
    exact ⟨hphase, hsilent⟩
  | heartbeat =>
    simp only [step, hphase, select, some.injEq] at hstep
    subst hstep
    exact ⟨hphase, hsilent⟩
  | flush now =>
    simp only [step, hphase, select] at hstep
    split at hstep
    · cases hstep
      exact ⟨hphase, hsilent⟩
    · cases hstep
  | quiesce now =>
    simp only [step, hphase, select] at hstep
    split at hstep
    · cases hstep
      unfold quiesce
      split <;> exact ⟨hphase, hsilent⟩
    · cases hstep
  | event now event =>
    cases event with
    | textDelta text =>
      simp only [step, hphase, select, some.injEq] at hstep
      obtain ⟨hrunning, hheard⟩ := receive_textDelta run setup now text
      subst hstep
      exact ⟨hrunning.trans hphase, hheard⟩
    | _ => exact haction.elim
  | _ => exact haction.elim

theorem kept_cases (run : DriveRun) (haction : TurnAction action) :
    (run.AfterGate action ∧ String.join (run.kept action) = String.join (said action)) ∨
      (¬ run.AfterGate action ∧ run.kept action = [] ∧ 0 < (String.join (said action)).length) := by
  cases action with
  | event now event =>
    cases event with
    | textDelta text =>
      have hsaid : String.join (said (.event now (.textDelta text))) = text := by
        simp [said, AgentEvent.deltas]
      by_cases hempty : text = ""
      · refine .inl ⟨.inl hempty, ?_⟩
        rw [hsaid, kept, hears, hempty]
        split
        · rfl
        · split <;> rfl
      · cases hidle : run.idleSince with
        | none =>
          refine .inl ⟨.inr fun parkedAt hparked => ?_, ?_⟩
          · rw [hidle] at hparked
            cases hparked
          · rw [hsaid, kept, hears, hidle]
            simp
        | some parkedAt =>
          by_cases hgate : resumeGate ≤ now - parkedAt
          · refine .inl ⟨.inr fun other hother => ?_, ?_⟩
            · rw [hidle] at hother
              cases hother
              exact hgate
            · rw [hsaid, kept, hears, hidle]
              simp [selfContinues, hgate, hempty]
          · refine .inr ⟨?_, ?_, ?_⟩
            · rintro (hnone | hafter)
              · exact hempty hnone
              · exact hgate (hafter parkedAt hidle)
            · rw [kept, hears, hidle]
              simp [selfContinues, hgate]
            · rw [hsaid]
              exact Nat.pos_of_ne_zero fun hzero => hempty (String.length_eq_zero_iff.mp hzero)
    | _ => exact haction.elim
  | _ => exact .inl ⟨trivial, rfl⟩

/-- Over a turn the run takes in some of the text, and all of it exactly when no text comes too
early. -/
theorem turn_heard [LineDiff] {turn : List DriveAction} (hturn : ∀ action ∈ turn, TurnAction action) :
    ∀ {run final : DriveRun}, run.phase = .running →
      Trace.run (DriveRun.step setup) run turn = some final →
      final.phase = .running ∧ ∃ taken, final.heard = run.heard ++ taken ∧
        (String.join taken).length ≤ (String.join (turn.flatMap said)).length ∧
        (String.join taken = String.join (turn.flatMap said) ↔
          Trace.Guarded (DriveRun.step setup) AfterGate run turn) := by
  induction turn with
  | nil =>
    intro run final hphase hrun
    cases hrun
    exact ⟨hphase, [], (append_nil _).symm, le_rfl, iff_of_true rfl trivial⟩
  | cons action rest ih =>
    rw [forall_mem_cons] at hturn
    intro run final hphase hrun
    obtain ⟨next, hstep, hrest⟩ := Trace.run_cons_eq_some.1 hrun
    obtain ⟨hnext, hheard⟩ := turn_step hphase hturn.1 hstep
    obtain ⟨hfinal, taken, htaken, hle, hiff⟩ := ih hturn.2 hnext hrest
    refine ⟨hfinal, run.kept action ++ taken, ?_, ?_, ?_⟩
    · rw [htaken, hheard, append_assoc]
    all_goals
      rw [flatMap_cons, String.join_append, String.join_append]
    · rw [String.length_append, String.length_append]
      rcases kept_cases run hturn.1 with ⟨-, hsame⟩ | ⟨-, hnone, -⟩
      · rw [hsame]
        omega
      · rw [hnone, String.join_nil, String.length_empty]
        omega
    · rw [Trace.guarded_cons_of_step hstep, ← hiff]
      rcases kept_cases run hturn.1 with ⟨hafter, hsame⟩ | ⟨hearly, hnone, hlost⟩
      · rw [hsame, and_iff_right hafter]
        exact String.append_right_inj _
      · refine iff_of_false (fun heq => ?_) fun hboth => hearly hboth.1
        have hlength := congrArg String.length heq
        rw [String.length_append, String.length_append, hnone, String.join_nil,
          String.length_empty] at hlength
        omega

end Turn

section Ending

variable {setup : RunSetup} {run : DriveRun} {now : Nat} {status : DoneStatus}
  {result error sessionId : Option String}

theorem turnDone_ends (run : DriveRun) (setup : RunSetup) (now : Nat) (status : DoneStatus) :
    ((run.turnDone setup now status).phase = .exited ∨
      (run.turnDone setup now status).idleSince.isSome) ∧
      (run.turnDone setup now status).heard = run.heard := by
  unfold turnDone
  extract_lets resolved finished
  have hheard : finished.heard = run.heard := by
    unfold finished
    split <;> rfl
  split
  · exact ⟨.inr rfl, hheard⟩
  · cases status <;> exact ⟨.inl rfl, hheard⟩

theorem foldEvent_heard [LineDiff] (run : DriveRun) (event : AgentEvent) :
    (run.foldEvent event).heard = run.heard := by
  unfold foldEvent
  split <;> rfl

theorem parkedGate_done (run : DriveRun) (setup : RunSetup) (now : Nat) (status : DoneStatus)
    (result error sessionId : Option String) :
    (run.parkedGate setup now (.done status result error sessionId)).2 = true := by
  unfold parkedGate
  split
  · rfl
  · rfl

theorem accept_done [LineDiff] (run : DriveRun) (setup : RunSetup) (now : Nat)
    (status : DoneStatus) (result error sessionId : Option String) :
    ((run.accept setup now (.done status result error sessionId)).phase = .exited ∨
      (run.accept setup now (.done status result error sessionId)).idleSince.isSome) ∧
      (run.accept setup now (.done status result error sessionId)).heard = run.heard := by
  by_cases hcrash : run.startupCrash setup (.done status result error sessionId) = true
  · simp only [accept, if_pos hcrash]
    exact ⟨.inl trivial, trivial⟩
  · simp only [accept, if_neg hcrash]
    obtain ⟨hends, hheard⟩ := turnDone_ends (foldEvent _ _) setup now status
    exact ⟨hends, hheard.trans (foldEvent_heard _ _)⟩

theorem receive_done [LineDiff] (run : DriveRun) (setup : RunSetup) (now : Nat)
    (status : DoneStatus) (result error sessionId : Option String) :
    ((run.receive setup now (.done status result error sessionId)).phase = .exited ∨
      (run.receive setup now (.done status result error sessionId)).idleSince.isSome) ∧
      (run.receive setup now (.done status result error sessionId)).heard = run.heard := by
  unfold receive
  extract_lets active
  have hactive : active.heard = run.heard := append_nil _
  obtain ⟨hsame, -⟩ := parkedGate_frame setup active now (.done status result error sessionId)
  have hpass := parkedGate_done active setup now status result error sessionId
  split
  next hdecision => exact nomatch hdecision
  · split
    next hunknown => exact nomatch hunknown
    · generalize active.parkedGate setup now (.done status result error sessionId) = outcome
        at hsame hpass ⊢
      obtain ⟨gated, passes⟩ := outcome
      simp only at hsame hpass ⊢
      have hgated := hsame.heard.trans hactive
      split
      next hdrop =>
        rw [hpass] at hdrop
        simp [staleEcho] at hdrop
      · obtain ⟨hends, hheard⟩ := accept_done gated setup now status result error sessionId
        exact ⟨hends, hheard.trans hgated⟩

theorem ended_faithful [LineDiff] [Serde] {final : DriveRun} (hphase : run.phase = .running)
    (hkept : Kept run)
    (hdone : run.step setup (.event now (.done status result error sessionId)) = some final) :
    Faithful final ∧ final.heard = run.heard := by
  have hfinal := step_kept hkept hdone
  simp only [step, hphase, select, some.injEq] at hdone
  obtain ⟨hends, hheard⟩ := receive_done run setup now status result error sessionId
  rw [hdone] at hends hheard
  refine ⟨?_, hheard⟩
  unfold Kept at hfinal
  cases hlast : final.phase with
  | starting =>
    rw [hlast] at hfinal
    exact hfinal.1.faithful
  | running =>
    rw [hlast] at hfinal hends
    have hparked := hends.resolve_left (by decide)
    exact (hfinal.1.sealed (hfinal.2 hparked)).faithful
  | exited =>
    rw [hlast] at hfinal
    exact hfinal.faithful

end Ending

section Main

variable [Serde]

/-- The text of the entries the run wrote. -/
def transcriptText (run : DriveRun) : String :=
  partsText (run.entries.flatMap fun entry => entry.parts)

/-- A turn starts in a running state with nothing in the fold, so the doc holds all that was
heard. -/
theorem transcriptText_start {run : DriveRun} (hkept : Kept run) (hphase : run.phase = .running)
    (hfolded : run.folded = []) : run.transcriptText = String.join run.heard := by
  unfold Kept at hkept
  rw [hphase] at hkept
  exact (hkept.1.sealed hfolded).faithful.text

variable [LineDiff]

/-- However long the windows are and whenever the watchdog parks the turn: its text is in the
transcript at the end if and only if no text reaches the parked run within the gate. -/
theorem turn_text_kept_iff (setup : RunSetup) (doc : SessionDoc) (prior turn : List DriveAction)
    {before after final : DriveRun}
    (hprior : Trace.run (DriveRun.step setup) (start setup doc) prior = some before)
    (hphase : before.phase = .running) (hfolded : before.folded = [])
    (hturn : ∀ action ∈ turn, TurnAction action)
    (hrun : Trace.run (DriveRun.step setup) before turn = some after) {now : Nat}
    {status : DoneStatus} {result error sessionId : Option String}
    (hdone : after.step setup (.event now (.done status result error sessionId)) = some final) :
    final.transcriptText = before.transcriptText ++ String.join (turn.flatMap said) ↔
      Trace.Guarded (DriveRun.step setup) AfterGate before turn := by
  have hkept : Kept before :=
    Trace.run_invariant (fun _ _ _ hstate hstep => step_kept hstate hstep) (start_kept setup doc)
      hprior
  have hkeptAfter : Kept after :=
    Trace.run_invariant (fun _ _ _ hstate hstep => step_kept hstate hstep) hkept hrun
  obtain ⟨hrunning, taken, htaken, -, hiff⟩ := turn_heard hturn hphase hrun
  obtain ⟨hfaithful, hheard⟩ := ended_faithful hrunning hkeptAfter hdone
  have hend : final.transcriptText = before.transcriptText ++ String.join taken := by
    rw [transcriptText, hfaithful.text, hheard, htaken, String.join_append,
      transcriptText_start hkept hphase hfolded]
  rw [hend, String.append_right_inj, hiff]

end Main

section Examples

local instance : LineDiff := .replaceAll

local instance : Serde := .verbatim

/-- The watchdog parks a silent turn, and the rest of its text comes later. -/
def parkedTurn (resumed : Nat) : List DriveAction :=
  [.event 2 (.textDelta "build "), .quiesce 120002, .event resumed (.textDelta "done")]

/-- A turn that is parked and resumed a second later keeps its text. -/
theorem turn_text_kept_resumed :
    ∃ before after final, Trace.run (DriveRun.step steerableSetup)
        (start steerableSetup (.init "chat")) [.spawned 0] = some before ∧
      Trace.run (DriveRun.step steerableSetup) before (parkedTurn 121002) = some after ∧
      after.step steerableSetup (.event 122000 (.done .completed none none none)) = some final ∧
      final.transcriptText = before.transcriptText ++ String.join ["build ", "done"] := by
  let before := { start steerableSetup (.init "chat") with phase := .running }
  have hturn : ((Trace.run (DriveRun.step steerableSetup) before (parkedTurn 121002)).bind
      fun after => after.step steerableSetup
        (.event 122000 (.done .completed none none none))).isSome := by decide
  obtain ⟨final, hfinal⟩ := Option.isSome_iff_exists.mp hturn
  obtain ⟨after, hafter, hdone⟩ := Option.bind_eq_some_iff.mp hfinal
  have hstart : Trace.run (DriveRun.step steerableSetup) (start steerableSetup (.init "chat"))
      [.spawned 0] = some before := rfl
  have hkept := turn_text_kept_iff steerableSetup (.init "chat") [.spawned 0] (parkedTurn 121002)
    hstart rfl rfl (by decide) hafter hdone
  exact ⟨before, after, final, hstart, hafter, hdone, hkept.mpr (by decide)⟩

/-- Text half a second behind the park is dropped. -/
theorem turn_text_lost : ¬ ∀ (setup : RunSetup) (doc : SessionDoc) (prior turn : List DriveAction)
    (before after final : DriveRun) (now : Nat), setup.steerable = true →
      Trace.run (DriveRun.step setup) (start setup doc) prior = some before →
      before.phase = .running → before.folded = [] → (∀ action ∈ turn, TurnAction action) →
      Trace.run (DriveRun.step setup) before turn = some after →
      after.step setup (.event now (.done .completed none none none)) = some final →
      final.transcriptText = before.transcriptText ++ String.join (turn.flatMap said) := by
  intro hclaim
  have htext := hclaim steerableSetup (.init "chat") [.spawned 0] (parkedTurn 120502) _ _ _ 122000
    rfl rfl rfl rfl (by decide) rfl rfl
  revert htext
  decide

end Examples

end DriveRun

end Keel
