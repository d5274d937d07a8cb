import Keel.Foundation.Trace
import Keel.Engine.BootRecovery

/-! # The resume budget

A resume is spawned only behind the write that notes its attempt, and attempts are noted up to a
fixed number. Whatever of the recovery a crash cuts off, a chat whose turns never complete has been
resumed at most as often as was noted.
-/

namespace Keel

open List

/-- A write that neither notes an attempt nor resumes. -/
def RecoveryWrite.Quiet : RecoveryWrite → Prop
  | .noteAttempt _ | .resume .. => False
  | .remember .. | .publish .. | .stamp .. | .setIdle _ => True

section Disk

variable {codec : JournalCodec} {disk : RecoveryDisk} {chat : String}

theorem RecoveryDisk.resumeAttempts_congr {other : RecoveryDisk}
    (hattempts : other.attempts = disk.attempts) :
    other.resumeAttempts chat = disk.resumeAttempts chat := by
  rw [resumeAttempts, resumeAttempts, hattempts]

theorem RecoveryDisk.resumeAttempts_note {chatId : String}
    (hstem : sanitizeId chatId = sanitizeId chat)
    (hfew : disk.resumeAttempts chatId < maxAutoResume) :
    (disk.noteResumeAttempt chatId).resumeAttempts chat = disk.resumeAttempts chat + 1 := by
  have hsame : disk.resumeAttempts chatId = disk.resumeAttempts chat := by
    rw [resumeAttempts, resumeAttempts, hstem]
  rw [hsame] at hfew
  have hread : ∀ noted, noted < maxAutoResume →
      Text.parseU32 (Text.trim (toString (noted + 1)).toList) =
        some (UInt32.ofNat (noted + 1)) := by
    decide
  have hvalue : ∀ noted, noted < maxAutoResume → (UInt32.ofNat (noted + 1)).toNat = noted + 1 := by
    decide
  rw [resumeAttempts, noteResumeAttempt]
  simp only [hstem, Std.ExtTreeMap.getElem?_insert_self, Option.bind_some, hsame, hread _ hfew,
    hvalue _ hfew]

theorem RecoveryDisk.resumeAttempts_note_other {chatId : String}
    (hstem : sanitizeId chatId ≠ sanitizeId chat) :
    (disk.noteResumeAttempt chatId).resumeAttempts chat = disk.resumeAttempts chat := by
  rw [resumeAttempts, noteResumeAttempt, Std.ExtTreeMap.getElem?_insert,
    if_neg (by simpa using hstem), ← resumeAttempts]

theorem RecoveryDisk.applyAll_quiet {writes : List RecoveryWrite}
    (hquiet : ∀ write ∈ writes, write.Quiet) :
    (disk.applyAll codec writes).attempts = disk.attempts := by
  induction writes generalizing disk with
  | nil => rfl
  | cons write rest ih =>
    rw [forall_mem_cons] at hquiet
    rw [applyAll, foldl_cons, ← applyAll, ih hquiet.2]
    cases write <;> first | rfl | exact hquiet.1.elim

end Disk

namespace BootRun

variable {codec : JournalCodec} {env : BootEnv} {run : BootRun} {chat : String}

theorem perform_append (run : BootRun) (first second : List RecoveryWrite) :
    run.perform codec (first ++ second) = (run.perform codec first).perform codec second := by
  simp [perform, RecoveryDisk.applyAll]

/-- The resumes of a chat are covered by its attempts. -/
def Budgeted (chat : String) (run : BootRun) : Prop :=
  run.resumed.count chat = 0 ∨ run.resumed.count chat ≤ run.disk.resumeAttempts chat ∧
    run.disk.resumeAttempts chat ≤ maxAutoResume

theorem Budgeted.congr {next : BootRun} (hbudgeted : Budgeted chat run)
    (hresumed : next.resumed.count chat = run.resumed.count chat)
    (hattempts : next.disk.resumeAttempts chat = run.disk.resumeAttempts chat) :
    Budgeted chat next := by
  rw [Budgeted, hresumed, hattempts]
  exact hbudgeted

theorem Budgeted.quiet (hbudgeted : Budgeted chat run) {writes : List RecoveryWrite}
    (hquiet : ∀ write ∈ writes, write.Quiet) : Budgeted chat (run.perform codec writes) := by
  refine hbudgeted.congr ?_
    (RecoveryDisk.resumeAttempts_congr (RecoveryDisk.applyAll_quiet hquiet))
  have hnone : writes.filterMap RecoveryWrite.resumedChat = [] := by
    refine filterMap_eq_nil_iff.mpr fun write hwrite => ?_
    have := hquiet write hwrite
    cases write <;> first | rfl | exact this.elim
  rw [perform, hnone, append_nil]

theorem Budgeted.note (hbudgeted : Budgeted chat run) {chatId : String}
    (hfew : run.disk.resumeAttempts chatId < maxAutoResume) :
    Budgeted chat (run.perform codec [.noteAttempt chatId]) ∧
      (chatId = chat → (run.perform codec [.noteAttempt chatId]).resumed.count chat <
        (run.perform codec [.noteAttempt chatId]).disk.resumeAttempts chat ∧
        (run.perform codec [.noteAttempt chatId]).disk.resumeAttempts chat ≤ maxAutoResume) := by
  have hresumed : (run.perform codec [.noteAttempt chatId]).resumed = run.resumed :=
    append_nil _
  have hdisk : (run.perform codec [.noteAttempt chatId]).disk =
      run.disk.noteResumeAttempt chatId := rfl
  rw [Budgeted, hresumed, hdisk]
  by_cases hstem : sanitizeId chatId = sanitizeId chat
  · have hsame : run.disk.resumeAttempts chatId = run.disk.resumeAttempts chat := by
      rw [RecoveryDisk.resumeAttempts, RecoveryDisk.resumeAttempts, hstem]
    rw [RecoveryDisk.resumeAttempts_note hstem hfew]
    rcases hbudgeted with hzero | ⟨hle, -⟩ <;> omega
  · rw [RecoveryDisk.resumeAttempts_note_other hstem]
    exact ⟨hbudgeted, fun hsame => absurd (congrArg sanitizeId hsame) hstem⟩

theorem recoverChat_writes (codec : JournalCodec) (env : BootEnv) (disk : RecoveryDisk)
    (chatId : String) :
    ∃ quiet : List RecoveryWrite, (∀ write ∈ quiet, write.Quiet) ∧
      ((recoverChat codec env disk chatId).1 = quiet ∨
        disk.resumeAttempts chatId < maxAutoResume ∧ ∃ userId prompt,
          (recoverChat codec env disk chatId).1 =
            quiet ++ [.noteAttempt chatId, .resume chatId userId prompt]) := by
  unfold recoverChat
  split
  · exact ⟨[], by simp, .inl rfl⟩
  · split
    · exact ⟨[], by simp, .inl rfl⟩
    next doc _ =>
      extract_lets remembered entries prompt fresh willResume note published
      have hremembered : ∀ write ∈ remembered, write.Quiet := by
        unfold remembered
        split <;> simp [RecoveryWrite.Quiet]
      have hpublished : ∀ write ∈ published, write.Quiet := by
        simpa [published, RecoveryWrite.Quiet, or_imp, forall_and] using hremembered
      split
      · exact ⟨published, hpublished, .inl rfl⟩
      next stamped _ =>
        extract_lets closed
        have hclosed : ∀ write ∈ closed, write.Quiet := by
          simpa [closed, RecoveryWrite.Quiet, or_imp, forall_and] using hpublished
        have hfew : willResume = true → disk.resumeAttempts chatId < maxAutoResume := by
          simp only [willResume, Bool.and_eq_true, decide_eq_true_eq]
          exact And.right
        refine ⟨closed, hclosed, ?_⟩
        clear_value willResume prompt
        split
        next userId text => exact .inr ⟨hfew rfl, userId, text, rfl⟩
        · exact .inl rfl

/-- Wherever a crash cuts the recovery of a chat, its resumes stay covered. -/
theorem Budgeted.recoverChat (hbudgeted : Budgeted chat run) (env : BootEnv) (chatId : String)
    (cut : Nat) :
    Budgeted chat (run.perform codec ((recoverChat codec env run.disk chatId).1.take cut)) := by
  obtain ⟨quiet, hquiet, hwrites⟩ := recoverChat_writes codec env run.disk chatId
  have hstart : Budgeted chat (run.perform codec (quiet.take cut)) :=
    hbudgeted.quiet fun write hwrite => hquiet write (mem_of_mem_take hwrite)
  rcases hwrites with heq | ⟨hfew, userId, prompt, heq⟩
  · rw [heq]
    exact hstart
  · rw [heq, take_append, perform_append]
    have hwhole : Budgeted chat (run.perform codec quiet) := hbudgeted.quiet hquiet
    match hrest : cut - quiet.length with
    | 0 => exact hstart.quiet (by simp)
    | rest + 1 =>
      rw [take_of_length_le (by omega)]
      have hfew' : (run.perform codec quiet).disk.resumeAttempts chatId < maxAutoResume := by
        have hsame : (run.perform codec quiet).disk.resumeAttempts chatId =
            run.disk.resumeAttempts chatId :=
          RecoveryDisk.resumeAttempts_congr (RecoveryDisk.applyAll_quiet hquiet)
        rwa [hsame]
      obtain ⟨hnoted, hroom⟩ := @Budgeted.note codec _ _ hwhole _ hfew'
      cases rest with
      | zero => exact hnoted
      | succ rest =>
        have hboth : [RecoveryWrite.noteAttempt chatId, .resume chatId userId prompt].take
            (rest + 2) = [.noteAttempt chatId] ++ [.resume chatId userId prompt] := by simp
        rw [hboth, perform_append]
        generalize (run.perform codec quiet).perform codec [.noteAttempt chatId] = noted
          at hnoted hroom
        by_cases hsame : chatId = chat
        · obtain ⟨hlt, hle⟩ := hroom hsame
          refine .inr ⟨?_, hle⟩
          show (noted.resumed ++ [chatId]).count chat ≤ noted.disk.resumeAttempts chat
          rw [hsame, count_append, count_singleton_self]
          exact hlt
        · refine hnoted.congr ?_ rfl
          show (noted.resumed ++ [chatId]).count chat = noted.resumed.count chat
          rw [count_append, count_singleton, if_neg (by simpa using hsame)]
          rfl

theorem Budgeted.recoverChats (hbudgeted : Budgeted chat run) (env : BootEnv) (ids : List String)
    (cut : Nat) :
    Budgeted chat (run.perform codec ((recoverChats codec env run.disk ids).1.take cut)) := by
  induction ids generalizing run cut with
  | nil =>
    rw [Keel.recoverChats, take_nil]
    exact hbudgeted.quiet (by simp)
  | cons chatId rest ih =>
    rw [Keel.recoverChats]
    have hone := @Budgeted.recoverChat codec _ _ hbudgeted env chatId
    generalize Keel.recoverChat codec env run.disk chatId = outcome at hone ⊢
    obtain ⟨writes, result⟩ := outcome
    cases result with
    | error => exact hone cut
    | ok recovered =>
      show Budgeted chat (run.perform codec ((writes ++
        (Keel.recoverChats codec env (run.disk.applyAll codec writes) rest).1).take cut))
      rw [take_append, perform_append]
      by_cases hlate : cut ≤ writes.length
      · rw [Nat.sub_eq_zero_of_le hlate, take_zero]
        exact (hone cut).quiet (by simp)
      · have hall := hone writes.length
        rw [take_length] at hall
        rw [take_of_length_le (by omega)]
        exact ih hall (cut - writes.length)

/-- A turn of the chat completes, or of another one with the same file. -/
def Completes (chat : String) : BootAction → Prop
  | .event chatId (.done .completed _ _ _) => sanitizeId chatId = sanitizeId chat
  | _ => False

theorem Budgeted.step (hbudgeted : Budgeted chat run) {action : BootAction}
    (hcompletes : ¬ Completes chat action) {next : BootRun}
    (hstep : run.step codec action = some next) : Budgeted chat next := by
  cases action with
  | boot env cut =>
    cases hstep
    have hopened : Budgeted chat { run with disk := reopened run.disk } := hbudgeted.congr rfl rfl
    rw [recoverStale]
    split
    · refine hopened.quiet ?_
      cases cut <;> simp [performed]
    next stale _ =>
      cases cut with
      | some cut => exact hopened.recoverChats env stale cut
      | none =>
        have hall := @Budgeted.recoverChats codec _ _ hopened env stale
          (Keel.recoverChats codec env (reopened run.disk) stale).1.length
        rwa [take_length] at hall
  | event chatId event =>
    have hpublished : Budgeted chat (run.perform codec [.publish chatId event]) :=
      hbudgeted.quiet (by simp [RecoveryWrite.Quiet])
    simp only [BootRun.step] at hstep
    split at hstep
    · cases hstep
      refine hpublished.congr rfl ?_
      rw [RecoveryDisk.resumeAttempts, RecoveryDisk.clearResumeAttempts,
        Std.ExtTreeMap.getElem?_erase, if_neg (by simpa [Completes] using hcompletes),
        ← RecoveryDisk.resumeAttempts]
    · cases hstep
      exact hpublished

/-- Without a completed turn a chat is resumed at most three times, however often the engine
crashes, and wherever. -/
theorem resumed_le (codec : JournalCodec) (disk : RecoveryDisk) (chat : String)
    (trace : List BootAction) (hcompletes : ∀ action ∈ trace, ¬ Completes chat action)
    {final : BootRun}
    (hrun : Trace.run (step codec) { disk, resumed := [] } trace = some final) :
    final.resumed.count chat ≤ maxAutoResume := by
  have hbudgeted : Budgeted chat final :=
    Trace.guarded_invariant (fun _ _ _ hstate hguard hstep => hstate.step hguard hstep)
      (.inl count_nil)
      (Trace.Guarded.of_forall_mem fun action haction _ => hcompletes action haction) hrun
  rcases hbudgeted with hzero | ⟨hle, hmost⟩ <;> omega

end BootRun

end Keel
