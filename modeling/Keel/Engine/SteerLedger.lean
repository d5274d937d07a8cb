import Keel.Engine.SteerRun

/-! # What becomes of an accepted steer

An accepted message is in its sender's hands, in the ledger, claimed by the exit
drain, or at its end: confirmed, re-dispatched or reclaimed. The ledger keeps it
only while somebody is still going to look there. Entries are retired by
position, so the ledger says who was delivered only while it is aligned with the
mailbox.
-/

namespace Keel

open List Function

namespace SteerRun

variable {M : Type} [DecidableEq M]

attribute [local simp] SenderPhase.isSent SteerRun.setSender SenderPhase.undecided RunPhase.past
  SenderPhase.before

/-- Every entry of the ledger belongs to a sender that has yet to check the
run. -/
def allUndecided (state : SteerRun M) : Bool :=
  state.ledger.all fun message => (state.senders message).undecided

/-- The steps that drop a ledger entry drop none that is still needed: the run
leaves the table only over entries whose senders are going to look again, an
interrupted run has claimed nothing, a boundary retires an entry that has been
confirmed, a failed write finds the run in the table or the entry claimed, and
re-dispatches succeed. -/
def keepsAccepted (state : SteerRun M) : SteerAction M → Bool
  | .spawnFail | .startupRetry | .replace => state.allUndecided
  | .removeRun => state.allUndecided && (!state.interrupted || state.orphans.isEmpty)
  | .steered =>
    match state.received, state.ledger with
    | message :: _, entry :: _ =>
      !state.inTable || decide (entry = message) || decide (entry ∈ state.confirmed)
    | _, _ => true
  | .writeDoc message false => state.inTable || decide (message ∉ state.ledger)
  | .redispatch ok => ok
  | _ => true

/-- Somebody is still going to look at the message's ledger entry. -/
def Watched (state : SteerRun M) (message : M) : Prop :=
  message ∈ state.ledger ∧
    (state.inTable = true ∨ (state.senders message).undecided = true)

/-- The message has reached one of its three ends. -/
def Settled (state : SteerRun M) (message : M) : Prop :=
  message ∈ state.confirmed ∨ message ∈ state.redispatched ∨ message ∈ state.reclaimed

def Accounted (state : SteerRun M) (message : M) : Prop :=
  state.Settled message ∨ message ∈ state.orphans ∨
    (state.senders message).isSent = true ∨ state.Watched message

namespace Accounted

variable {state : SteerRun M} {message other : M}

/-- A sender moves on. It was not about to push, and if it stops watching its
entry the run is in the table or the entry is gone. -/
theorem setSender {phase : SenderPhase} (hother : Accounted state other)
    (hunsent : (state.senders message).isSent = false)
    (hwatch : phase.undecided = true ∨ state.inTable = true ∨ message ∉ state.ledger ∨
      (state.senders message).undecided = false) :
    Accounted (state.setSender message phase) other := by
  -- Only the moved sender's own message can lose its watcher.
  by_cases heq : other = message
  · subst heq
    rcases hother with hsettled | hclaimed | hsent | ⟨hmem, hwatched⟩
    · exact .inl hsettled
    · exact .inr (.inl hclaimed)
    · rw [hunsent] at hsent
      cases hsent
    · refine .inr (.inr (.inr ⟨hmem, ?_⟩))
      rcases hwatch with hphase | htable | habsent | hdecided
      · exact .inr (by simpa [SteerRun.setSender] using hphase)
      · exact .inl htable
      · exact absurd hmem habsent
      · refine .inl (hwatched.resolve_right ?_)
        simp [-SenderPhase.undecided, hdecided]
  · have hsame : (state.setSender message phase).senders other = state.senders other :=
      update_of_ne heq _ _
    rcases hother with hsettled | hclaimed | hsent | ⟨hmem, hwatched⟩
    · exact .inl hsettled
    · exact .inr (.inl hclaimed)
    · exact .inr (.inr (.inl (hsame ▸ hsent)))
    · exact .inr (.inr (.inr ⟨hmem, hsame ▸ hwatched⟩))

omit [DecidableEq M] in
theorem leaveTable (hother : Accounted state other) (hundecided : state.allUndecided = true) :
    Accounted { state with inTable := false } other := by
  rcases hother with hsettled | hclaimed | hsent | ⟨hmem, -⟩
  · exact .inl hsettled
  · exact .inr (.inl hclaimed)
  · exact .inr (.inr (.inl hsent))
  · exact .inr (.inr (.inr ⟨hmem, .inr (all_eq_true.mp hundecided other hmem)⟩))

theorem push {kind : SenderKind} (hother : Accounted state other) :
    Accounted { state.setSender message (.pushed kind) with
      ledger := state.ledger ++ [message] } other := by
  by_cases heq : other = message
  · subst heq
    refine .inr (.inr (.inr ⟨mem_append_right _ (mem_singleton_self _), .inr ?_⟩))
    simp
  · rcases hother with hsettled | hclaimed | hsent | ⟨hmem, hwatched⟩
    · exact .inl hsettled
    · exact .inr (.inl hclaimed)
    · refine .inr (.inr (.inl ?_))
      simpa [SteerRun.setSender, heq] using hsent
    · refine .inr (.inr (.inr ⟨mem_append_left _ hmem, ?_⟩))
      simpa [SteerRun.setSender, heq] using hwatched

theorem reclaim {kind : SenderKind} (hother : Accounted state other) :
    Accounted { state.setSender message (.returned .reclaimed) with
      ledger := state.ledger.filter fun entry => entry ≠ message
      reclaimed := message :: state.reclaimed
      cancelled := state.cancelFor kind } other := by
  by_cases heq : other = message
  · subst heq
    exact .inl (.inr (.inr mem_cons_self))
  · rcases hother with (hend | hend | hend) | hclaimed | hsent | ⟨hmem, hwatched⟩
    · exact .inl (.inl hend)
    · exact .inl (.inr (.inl hend))
    · exact .inl (.inr (.inr (mem_cons_of_mem _ hend)))
    · exact .inr (.inl hclaimed)
    · refine .inr (.inr (.inl ?_))
      simpa [SteerRun.setSender, heq] using hsent
    · refine .inr (.inr (.inr ⟨mem_filter.mpr ⟨hmem, by simpa using heq⟩, ?_⟩))
      simpa [SteerRun.setSender, heq] using hwatched

section
omit [DecidableEq M]

theorem boundary (hother : Accounted state other)
    (hretired : ∀ entry, state.ledger.head? = some entry → state.inTable = true →
      entry = message ∨ entry ∈ state.confirmed) :
    Accounted (state.boundary message) other := by
  have hconfirm : ∀ known, known = message ∨ known ∈ state.confirmed →
      Accounted (state.boundary message) known := by
    rintro known (rfl | hknown)
    · exact .inl (.inl (mem_append_right _ (mem_singleton_self _)))
    · exact .inl (.inl (mem_append_left _ hknown))
  rcases hother with (hend | hend | hend) | hclaimed | hsent | ⟨hmem, hwatched⟩
  · exact hconfirm other (.inr hend)
  · exact .inl (.inr (.inl hend))
  · exact .inl (.inr (.inr hend))
  · exact .inr (.inl hclaimed)
  · exact .inr (.inr (.inl hsent))
  -- Out of the table a boundary pops nothing; in it only the front entry goes.
  · cases htable : state.inTable with
    | false => exact .inr (.inr (.inr ⟨by simpa [SteerRun.boundary, htable] using hmem, hwatched⟩))
    | true =>
      cases hledger : state.ledger with
      | nil => simp [hledger] at hmem
      | cons entry rest =>
        rw [hledger, mem_cons] at hmem
        rcases hmem with rfl | hmem
        · exact hconfirm other (hretired other (by simp [hledger]) htable)
        · exact .inr (.inr (.inr
            ⟨by simpa [SteerRun.boundary, htable, hledger] using hmem, hwatched⟩))

theorem take (hother : Accounted state other) (hunclaimed : state.orphans = []) :
    Accounted { state with phase := .taken, orphans := state.ledger, ledger := [] } other := by
  rcases hother with hsettled | hclaimed | hsent | ⟨hmem, -⟩
  · exact .inl hsettled
  · simp [hunclaimed] at hclaimed
  · exact .inr (.inr (.inl hsent))
  · exact .inr (.inl hmem)

theorem redispatch {rest : List M} (hother : Accounted state other)
    (horphans : state.orphans = message :: rest) :
    Accounted { state with
      orphans := rest, redispatched := state.redispatched ++ [message] } other := by
  rcases hother with (hend | hend | hend) | hclaimed | hlater
  · exact .inl (.inl hend)
  · exact .inl (.inr (.inl (mem_append_left _ hend)))
  · exact .inl (.inr (.inr hend))
  · rw [horphans, mem_cons] at hclaimed
    rcases hclaimed with rfl | hclaimed
    · exact .inl (.inr (.inl (mem_append_right _ (mem_singleton_self _))))
    · exact .inr (.inl hclaimed)
  · exact .inr (.inr hlater)

end

theorem accept {kind : SenderKind} (hsent : ∀ message ∈ state.sent, Accounted state message)
    (hlooked : state.senders message = .looked kind) (hother : other ∈ state.sent ++ [message]) :
    Accounted { state.setSender message (.sent kind) with
      mailbox := state.mailbox ++ [message], sent := state.sent ++ [message] } other := by
  rcases mem_append.mp hother with hother | hother
  · refine (hsent other hother).setSender ?_ ?_
    · simp [hlooked]
    · simp [hlooked]
  · obtain rfl := mem_singleton.mp hother
    refine .inr (.inr (.inl ?_))
    simp

end Accounted

/-- Facts of every run: nothing is claimed before the exit drain claims it, an
exited run is out of the table, and senders give up or take back only after the
run left the table. -/
structure Orderly (state : SteerRun M) : Prop where
  unclaimed : state.phase.past = false → state.orphans = [] ∧ state.redispatched = []
  exited_gone : state.phase = .exited → state.inTable = false
  dead_gone : ∀ message kind, state.senders message = .dead kind → state.inTable = false
  reclaimed_gone : state.reclaimed ≠ [] → state.inTable = false

omit [DecidableEq M] in
theorem orderly_init (retryable : Bool) : Orderly (init retryable : SteerRun M) :=
  ⟨fun _ => ⟨rfl, rfl⟩, nofun, nofun, fun hreclaimed => absurd rfl hreclaimed⟩

theorem Orderly.setSender {state : SteerRun M} (hstate : Orderly state) (message : M)
    (phase : SenderPhase) (hphase : ∀ kind, phase = .dead kind → state.inTable = false) :
    Orderly (state.setSender message phase) := by
  refine ⟨hstate.unclaimed, hstate.exited_gone, ?_, hstate.reclaimed_gone⟩
  intro other kind hdead
  by_cases heq : other = message
  · subst heq
    simp only [SteerRun.setSender, update_self] at hdead
    exact hphase kind hdead
  · simp only [SteerRun.setSender, update_of_ne heq] at hdead
    exact hstate.dead_gone other kind hdead

theorem Orderly.step {state next : SteerRun M} {action : SteerAction M}
    (hstate : Orderly state) (hstep : state.step action = some next) : Orderly next := by
  cases moves_of_step hstep with
  | @look message kind => exact hstate.setSender message (.looked kind) nofun
  | @accept message kind =>
    have hmoved := hstate.setSender message (.sent kind) nofun
    exact ⟨hmoved.unclaimed, hmoved.exited_gone, hmoved.dead_gone, hmoved.reclaimed_gone⟩
  | @refuse message kind =>
    have hmoved := hstate.setSender message (.returned .refused) nofun
    exact ⟨hmoved.unclaimed, hmoved.exited_gone, hmoved.dead_gone, hmoved.reclaimed_gone⟩
  | @push message kind =>
    have hmoved := hstate.setSender message (.pushed kind) nofun
    exact ⟨hmoved.unclaimed, hmoved.exited_gone, hmoved.dead_gone, hmoved.reclaimed_gone⟩
  | @writeDoc message kind written hpushed =>
    apply hstate.setSender message _
    cases written with
    | true | false => nofun
  | @checkLive message kind =>
    apply hstate.setSender message _
    cases htable : state.inTable with
    | true => nofun
    | false => exact fun _ _ => rfl
  | reclaim hdead =>
    have hgone := hstate.dead_gone _ _ hdead
    exact ⟨hstate.unclaimed, hstate.exited_gone, fun _ _ _ => hgone, fun _ => hgone⟩
  | @letGo message kind => exact hstate.setSender message (.returned .accepted) nofun
  | replace => exact ⟨hstate.unclaimed, fun _ => rfl, fun _ _ _ => rfl, fun _ => rfl⟩
  | startStream hstarting =>
    refine ⟨fun _ => hstate.unclaimed ?_, nofun, hstate.dead_gone, hstate.reclaimed_gone⟩
    simp [hstarting]
  | leave hstreaming =>
    refine ⟨fun _ => hstate.unclaimed ?_, nofun, hstate.dead_gone, hstate.reclaimed_gone⟩
    simp [hstreaming]
  | spawnFail | startupRetry => exact ⟨nofun, fun _ => rfl, fun _ _ _ => rfl, fun _ => rfl⟩
  | take | takeNothing => exact ⟨nofun, nofun, hstate.dead_gone, hstate.reclaimed_gone⟩
  | removeRun => exact ⟨nofun, fun _ => rfl, fun _ _ _ => rfl, fun _ => rfl⟩
  | redispatch hexited =>
    refine ⟨?_, hstate.exited_gone, hstate.dead_gone, hstate.reclaimed_gone⟩
    intro hpast
    simp [hexited] at hpast
  | _ => exact ⟨hstate.unclaimed, hstate.exited_gone, hstate.dead_gone, hstate.reclaimed_gone⟩

/-- Every accepted message is accounted for. -/
structure Kept (state : SteerRun M) : Prop where
  accounted : ∀ message ∈ state.sent, Accounted state message
  orderly : Orderly state

theorem Kept.step {state next : SteerRun M} {action : SteerAction M}
    (hstate : Kept state) (hkeeps : state.keepsAccepted action = true)
    (hstep : state.step action = some next) : Kept next := by
  refine ⟨?_, hstate.orderly.step hstep⟩
  intro other hother
  cases moves_of_step hstep with
  | look hidle =>
    refine (hstate.accounted other hother).setSender ?_ ?_
    · simp [hidle]
    · simp [hidle]
  | accept hlooked => exact Accounted.accept hstate.accounted hlooked hother
  | refuse hlooked =>
    refine (hstate.accounted other hother).setSender ?_ ?_
    · simp [hlooked]
    · simp [hlooked]
  | push => exact (hstate.accounted other hother).push
  | @writeDoc message kind written hpushed =>
    refine (hstate.accounted other hother).setSender ?_ ?_
    · simp [hpushed]
    · cases written with
      | true => simp
      | false =>
        simp only [keepsAccepted, Bool.or_eq_true, decide_eq_true_eq] at hkeeps
        exact .inr (hkeeps.imp_right .inl)
  | checkLive hwritten =>
    refine (hstate.accounted other hother).setSender ?_ ?_
    · simp [hwritten]
    · cases htable : state.inTable with
      | true => simp
      | false => simp
  | reclaim => exact (hstate.accounted other hother).reclaim
  | letGo hdead habsent =>
    refine (hstate.accounted other hother).setSender ?_ (.inr (.inr (.inl habsent)))
    simp [hdead]
  | replace | spawnFail | startupRetry => exact (hstate.accounted other hother).leaveTable hkeeps
  | @steered message rest hphase hreceived =>
    apply (hstate.accounted other hother).boundary
    intro entry hentry htable
    cases hledger : state.ledger with
    | nil => simp [hledger] at hentry
    | cons front tail =>
      rw [hledger, List.head?_cons, Option.some.injEq] at hentry
      subst hentry
      simpa [keepsAccepted, hreceived, hledger, htable] using hkeeps
  | take hphase =>
    exact (hstate.accounted other hother).take
      (hstate.orderly.unclaimed (by simp [hphase])).1
  | removeRun =>
    simp only [keepsAccepted, Bool.and_eq_true, Bool.or_eq_true, Bool.not_eq_true',
      List.isEmpty_iff] at hkeeps
    have hleft := (hstate.accounted other hother).leaveTable hkeeps.1
    have horphans : (if state.interrupted then [] else state.orphans) = state.orphans := by
      rcases hkeeps.2 with hrunning | hempty
      · simp [hrunning]
      · simp [hempty]
    unfold SteerRun.removeRun
    rw [horphans]
    exact hleft
  | redispatch hphase horphans =>
    obtain rfl : _ = true := hkeeps
    exact (hstate.accounted other hother).redispatch horphans
  | _ => exact hstate.accounted other hother

/-- Every accepted steer of a finished run was confirmed by its boundary,
re-dispatched by the exit drain or reclaimed by its sender, provided the run's
steps drop no ledger entry that is still needed. -/
theorem accepted_settles (retryable : Bool) (trace : List (SteerAction M)) (final : SteerRun M)
    (hkeeps : Trace.Guarded SteerRun.step
      (fun state action => state.keepsAccepted action = true) (init retryable) trace)
    (hrun : Trace.run SteerRun.step (init retryable) trace = some final)
    (hquiescent : final.Quiescent) : ∀ message ∈ final.sent, final.Settled message := by
  have hkept : Kept final := by
    refine Trace.guarded_invariant (fun _ _ _ hstate hguard hstep => Kept.step hstate hguard hstep)
      ?_ hkeeps hrun
    exact ⟨by simp [init], orderly_init retryable⟩
  intro message hsent
  obtain ⟨result, hreturned⟩ := hquiescent.returned message hsent
  rcases hkept.accounted message hsent with hsettled | hclaimed | hsending | ⟨-, hwatched⟩
  · exact hsettled
  · simp [hquiescent.drained] at hclaimed
  · simp [hreturned] at hsending
  · rcases hwatched with htable | hundecided
    · rw [hkept.orderly.exited_gone hquiescent.exited] at htable
      cases htable
    · simp [hreturned] at hundecided

/-- One sender's steps up to its return. -/
def sendAll (message : String) : List (SteerAction String) :=
  [.look message .steer, .trySend message, .push message, .writeDoc message true,
    .checkLive message]

/-- The first steer is confirmed; the second is still unconfirmed when the
stream ends, and the exit drain re-dispatches it. -/
def secondOrphaned : List (SteerAction String) :=
  [.startStream, .sessionStarted] ++ sendAll "m1" ++ sendAll "m2" ++
    [.receive, .receive, .steered, .leave, .take, .removeRun, .redispatch true]

theorem accepted_settles_secondOrphaned :
    ∃ final : SteerRun String,
      Trace.run SteerRun.step (init true) secondOrphaned = some final ∧
      final.sent = ["m1", "m2"] ∧ ∀ message ∈ final.sent, final.Settled message := by
  have hfinal : (Trace.run SteerRun.step (init true) secondOrphaned).map (fun state =>
      (state.sent, state.phase, state.orphans, state.senders "m1", state.senders "m2")) =
      some (["m1", "m2"], .exited, [], .returned .accepted, .returned .accepted) := by decide
  obtain ⟨final, hrun, hfields⟩ := Option.map_eq_some_iff.mp hfinal
  simp only [Prod.mk.injEq] at hfields
  obtain ⟨hsent, hphase, horphans, hfirst, hsecond⟩ := hfields
  refine ⟨final, hrun, hsent, accepted_settles true secondOrphaned final (by decide) hrun
    ⟨hphase, horphans, ?_⟩⟩
  simp [hsent, hfirst, hsecond]

/-- A steer is accepted while the child starts; the child dies before its
session starts, and the retry abandons the ledger. -/
def acceptedBeforeRetry : List (SteerAction String) :=
  sendAll "m1" ++ [.startStream, .startupRetry]

theorem startupRetry_losesAccepted :
    ¬ ∀ (retryable : Bool) (trace : List (SteerAction String)) (final : SteerRun String),
      .interrupt ∉ trace → Trace.run SteerRun.step (init retryable) trace = some final →
      final.Quiescent → ∀ message ∈ final.sent, final.Settled message := by
  intro hsettles
  have hfinal : (Trace.run SteerRun.step (init true) acceptedBeforeRetry).map (fun state =>
      (state.sent, state.phase, state.orphans, state.senders "m1",
        state.confirmed ++ state.redispatched ++ state.reclaimed)) =
      some (["m1"], .exited, [], .returned .accepted, []) := by decide
  obtain ⟨final, hrun, hfields⟩ := Option.map_eq_some_iff.mp hfinal
  simp only [Prod.mk.injEq, append_eq_nil_iff] at hfields
  obtain ⟨hsent, hphase, horphans, hsender, ⟨hconfirmed, hredispatched⟩, hreclaimed⟩ := hfields
  have hquiescent : final.Quiescent := ⟨hphase, horphans, by simp [hsent, hsender]⟩
  have hsettled := hsettles true acceptedBeforeRetry final (by decide) hrun hquiescent "m1"
    (by simp [hsent])
  simp [Settled, hconfirmed, hredispatched, hreclaimed] at hsettled

/-- Senders append to the ledger in mailbox order, and a boundary finds its run
in the table and its message appended. -/
def pushesInOrder (state : SteerRun M) : SteerAction M → Bool
  | .push message =>
    (state.sent.takeWhile fun earlier => earlier ≠ message).all fun earlier =>
      !(state.senders earlier).isSent
  | .steered =>
    match state.received with
    | message :: _ => state.inTable && !(state.senders message).isSent
    | [] => true
  | _ => true

/-- The ledger followed by the messages still to be appended is what the mailbox
has yet to deliver. -/
def LedgerAligned (state : SteerRun M) : Prop :=
  ∃ waiting, state.ledger ++ waiting = state.received ++ state.mailbox ∧
    (∀ message ∈ state.ledger, (state.senders message).isSent = false) ∧
    ∀ message ∈ waiting, (state.senders message).isSent = true

/-- Nobody is going to run a delivered message again. -/
def NotAgain (state : SteerRun M) (message : M) : Prop :=
  message ∉ state.ledger ∧ message ∉ state.orphans ∧ message ∉ state.redispatched ∧
    message ∉ state.reclaimed ∧ (state.senders message).isSent = false

structure Aligned (state : SteerRun M) : Prop where
  orderly : Orderly state
  order : state.confirmed ++ (state.received ++ state.mailbox) = state.sent
  nodup : state.sent.Nodup
  fresh : ∀ message, (state.senders message).before = true → message ∉ state.sent
  sending : ∀ message, (state.senders message).isSent = true → message ∈ state.sent
  ledger : state.inTable = true → state.phase.past = false → LedgerAligned state
  notAgain : ∀ message ∈ state.confirmed, NotAgain state message
  retired : ∀ entry ∈ state.retired, entry.2 = some entry.1

namespace Aligned

variable {state : SteerRun M} {message : M}

theorem setSender (hstate : Aligned state) {phase : SenderPhase}
    (hold : (state.senders message).isSent = false) (hnew : phase.isSent = false)
    (hbefore : phase.before = true → (state.senders message).before = true)
    (hdead : ∀ kind, phase = .dead kind → state.inTable = false) :
    Aligned (state.setSender message phase) := by
  have hsame : ∀ other, ((state.setSender message phase).senders other).isSent =
      (state.senders other).isSent := by
    intro other
    by_cases heq : other = message
    · subst heq
      simp [-SenderPhase.isSent, hold, hnew]
    · simp [heq]
  refine ⟨hstate.orderly.setSender message phase hdead, hstate.order, hstate.nodup, ?_, ?_, ?_,
    ?_, hstate.retired⟩
  · intro other hother
    by_cases heq : other = message
    · subst heq
      refine hstate.fresh other (hbefore ?_)
      simpa [SteerRun.setSender] using hother
    · apply hstate.fresh other
      simpa [SteerRun.setSender, heq] using hother
  · intro other hother
    exact hstate.sending other (hsame other ▸ hother)
  · intro htable hphase
    obtain ⟨waiting, hwaiting, hledger, hunpushed⟩ := hstate.ledger htable hphase
    exact ⟨waiting, hwaiting, fun other hother => (hsame other).trans (hledger other hother),
      fun other hother => (hsame other).trans (hunpushed other hother)⟩
  · intro other hother
    obtain ⟨hledger, horphans, hredispatched, hreclaimed, hsent⟩ := hstate.notAgain other hother
    exact ⟨hledger, horphans, hredispatched, hreclaimed, (hsame other).trans hsent⟩

theorem accept {kind : SenderKind} (hstate : Aligned state)
    (hlooked : state.senders message = .looked kind)
    (horderly : Orderly { state.setSender message (.sent kind) with
      mailbox := state.mailbox ++ [message], sent := state.sent ++ [message] }) :
    Aligned { state.setSender message (.sent kind) with
      mailbox := state.mailbox ++ [message], sent := state.sent ++ [message] } := by
  have habsent : message ∉ state.sent := hstate.fresh message (by simp [hlooked])
  have hne : ∀ other ∈ state.sent, other ≠ message := by
    rintro other hother rfl
    exact habsent hother
  have hconfirmed : ∀ other ∈ state.confirmed, other ∈ state.sent := by
    intro other hother
    rw [← hstate.order]
    exact mem_append_left _ hother
  have hundelivered : ∀ other ∈ state.received ++ state.mailbox, other ∈ state.sent := by
    intro other hother
    rw [← hstate.order]
    exact mem_append_right _ hother
  refine ⟨horderly, ?_, ?_, ?_, ?_, ?_, ?_, hstate.retired⟩
  · simp only [SteerRun.setSender, ← hstate.order, append_assoc]
  · exact nodup_append.mpr ⟨hstate.nodup, nodup_singleton _, by
      rintro other hother moved hmoved rfl
      exact hne other hother (mem_singleton.mp hmoved)⟩
  · intro other hother hmem
    by_cases heq : other = message
    · subst heq
      simp at hother
    · rw [mem_append, mem_singleton] at hmem
      refine hstate.fresh other ?_ (hmem.resolve_right heq)
      simpa [SteerRun.setSender, heq] using hother
  · intro other hother
    by_cases heq : other = message
    · subst heq
      exact mem_append_right _ (mem_singleton_self _)
    · refine mem_append_left _ (hstate.sending other ?_)
      simpa [SteerRun.setSender, heq] using hother
  · intro htable hphase
    obtain ⟨waiting, hwaiting, hledger, hunpushed⟩ := hstate.ledger htable hphase
    have hold : ∀ other ∈ state.ledger ++ waiting, other ≠ message :=
      fun other hother => hne other (hundelivered other (hwaiting ▸ hother))
    refine ⟨waiting ++ [message], ?_, ?_, ?_⟩
    · simp only [SteerRun.setSender, ← append_assoc, hwaiting]
    · intro other hother
      have hother' := hold other (mem_append_left _ hother)
      simpa [SteerRun.setSender, hother'] using hledger other hother
    · intro other hother
      rcases mem_append.mp hother with hother | hother
      · have hother' := hold other (mem_append_right _ hother)
        simpa [SteerRun.setSender, hother'] using hunpushed other hother
      · obtain rfl := mem_singleton.mp hother
        simp
  · intro other hother
    have hother' := hne other (hconfirmed other hother)
    simpa [NotAgain, SteerRun.setSender, hother'] using hstate.notAgain other hother

/-- An append in mailbox order moves the next waiting message to the ledger. -/
theorem pushed (hstate : Aligned state) (hsent : (state.senders message).isSent = true)
    (hordered : ∀ earlier ∈ state.sent.takeWhile (fun earlier => earlier ≠ message),
      (state.senders earlier).isSent = false) {waiting : List M}
    (hwaiting : state.ledger ++ waiting = state.received ++ state.mailbox)
    (hledger : ∀ message ∈ state.ledger, (state.senders message).isSent = false)
    (hunpushed : ∀ message ∈ waiting, (state.senders message).isSent = true) :
    ∃ rest, waiting = message :: rest := by
  have hmem : message ∈ state.sent := hstate.sending message hsent
  rw [← hstate.order, ← hwaiting] at hmem
  rcases mem_append.mp hmem with hmem | hmem
  · rw [(hstate.notAgain message hmem).2.2.2.2] at hsent
    cases hsent
  · rcases mem_append.mp hmem with hmem | hmem
    · rw [hledger message hmem] at hsent
      cases hsent
    · cases waiting with
      | nil => cases hmem
      | cons first rest =>
        refine ⟨rest, ?_⟩
        by_contra hne
        have hfirst : first ≠ message := fun heq => hne (by rw [heq])
        -- The first waiting message was sent before this one and is not appended yet.
        have hprefix : ∀ earlier ∈ state.confirmed ++ state.ledger ++ [first],
            earlier ≠ message := by
          intro earlier hearlier heq
          subst heq
          simp only [append_assoc, mem_append, mem_singleton] at hearlier
          rcases hearlier with hearlier | hearlier | hearlier
          · rw [(hstate.notAgain earlier hearlier).2.2.2.2] at hsent
            cases hsent
          · rw [hledger earlier hearlier] at hsent
            cases hsent
          · exact hfirst hearlier.symm
        have hmember : first ∈ state.sent.takeWhile (fun earlier => earlier ≠ message) := by
          rw [← hstate.order, ← hwaiting,
            show state.confirmed ++ (state.ledger ++ first :: rest) =
              (state.confirmed ++ state.ledger ++ [first]) ++ rest by simp,
            takeWhile_append_of_pos (by simpa using hprefix)]
          simp
        have hunsent := hordered first hmember
        rw [hunpushed first mem_cons_self] at hunsent
        cases hunsent

theorem push {kind : SenderKind} (hstate : Aligned state)
    (hsent : state.senders message = .sent kind)
    (hordered : state.pushesInOrder (.push message) = true)
    (horderly : Orderly { state.setSender message (.pushed kind) with
      ledger := state.ledger ++ [message] }) :
    Aligned { state.setSender message (.pushed kind) with ledger := state.ledger ++ [message] } := by
  have hsending : (state.senders message).isSent = true := by simp [hsent]
  have hmoved : ∀ other, other ≠ message → (state.setSender message (.pushed kind)).senders other =
      state.senders other := fun other hother => update_of_ne hother _ _
  have hpushed : (((state.setSender message (.pushed kind)).senders message).isSent) = false := by
    simp
  refine ⟨horderly, hstate.order, hstate.nodup, ?_, ?_, ?_, ?_, hstate.retired⟩
  · intro other hother
    by_cases heq : other = message
    · subst heq
      simp at hother
    · exact hstate.fresh other (hmoved other heq ▸ hother)
  · intro other hother
    by_cases heq : other = message
    · subst heq
      exact hstate.sending other hsending
    · exact hstate.sending other (hmoved other heq ▸ hother)
  · intro htable hphase
    obtain ⟨waiting, hwaiting, hledger, hunpushed⟩ := hstate.ledger htable hphase
    have hearlier : ∀ earlier ∈ state.sent.takeWhile (fun earlier => earlier ≠ message),
        (state.senders earlier).isSent = false := by
      simpa [pushesInOrder] using hordered
    -- Mailbox order makes the appended message the head of the waiting ones.
    obtain ⟨rest, rfl⟩ := hstate.pushed hsending hearlier hwaiting hledger hunpushed
    have hnodup : (message :: rest).Nodup := by
      have hsent := hstate.nodup
      rw [← hstate.order, ← hwaiting] at hsent
      exact (hsent.of_append_right).of_append_right
    refine ⟨rest, ?_, ?_, ?_⟩
    · change state.ledger ++ [message] ++ rest = state.received ++ state.mailbox
      rw [← hwaiting, append_assoc, singleton_append]
    · intro other hother
      by_cases heq : other = message
      · subst heq
        exact hpushed
      · rw [mem_append, mem_singleton] at hother
        rw [hmoved other heq]
        exact hledger other (hother.resolve_right heq)
    · intro other hother
      have hne : other ≠ message := by
        rintro rfl
        exact (nodup_cons.mp hnodup).1 hother
      rw [hmoved other hne]
      exact hunpushed other (mem_cons_of_mem _ hother)
  · intro other hother
    obtain ⟨hledger, horphans, hredispatched, hreclaimed, hunsent⟩ := hstate.notAgain other hother
    have hne : other ≠ message := by
      rintro rfl
      rw [hunsent] at hsending
      cases hsending
    refine ⟨?_, horphans, hredispatched, hreclaimed, ?_⟩
    · simp [hledger, hne]
    · rw [hmoved other hne]
      exact hunsent

theorem reclaim {kind : SenderKind} (hstate : Aligned state)
    (hdead : state.senders message = .dead kind) (hpresent : message ∈ state.ledger)
    (horderly : Orderly { state.setSender message (.returned .reclaimed) with
      ledger := state.ledger.filter fun entry => entry ≠ message
      reclaimed := message :: state.reclaimed
      cancelled := state.cancelFor kind }) :
    Aligned { state.setSender message (.returned .reclaimed) with
      ledger := state.ledger.filter fun entry => entry ≠ message
      reclaimed := message :: state.reclaimed
      cancelled := state.cancelFor kind } := by
  have hgone := hstate.orderly.dead_gone message kind hdead
  have hmoved : Aligned (state.setSender message (.returned .reclaimed)) :=
    hstate.setSender (by simp [hdead]) rfl nofun nofun
  refine ⟨horderly, hmoved.order, hmoved.nodup, hmoved.fresh, hmoved.sending, ?_, ?_,
    hmoved.retired⟩
  · intro htable
    rw [show state.inTable = true from htable] at hgone
    cases hgone
  · intro other hother
    obtain ⟨hledger, horphans, hredispatched, hreclaimed, hunsent⟩ := hmoved.notAgain other hother
    refine ⟨fun hmem => hledger (mem_filter.mp hmem).1, horphans, hredispatched, ?_, hunsent⟩
    intro hmem
    rcases mem_cons.mp hmem with rfl | hmem
    · exact hledger hpresent
    · exact hreclaimed hmem

/-- A boundary of an appended message of a run in the table retires the
message's own entry. -/
theorem boundary {rest : List M} (hstate : Aligned state) (hphase : state.phase = .streaming)
    (hreceived : state.received = message :: rest)
    (hordered : state.pushesInOrder .steered = true) (horderly : Orderly (state.boundary message)) :
    Aligned (state.boundary message) := by
  simp only [pushesInOrder, hreceived, Bool.and_eq_true, Bool.not_eq_true'] at hordered
  obtain ⟨htable, hunsent⟩ := hordered
  have hpast : state.phase.past = false := by simp [hphase]
  obtain ⟨waiting, hwaiting, hledger, hunpushed⟩ := hstate.ledger htable hpast
  rw [hreceived] at hwaiting
  -- The delivered message has been appended, so the ledger starts with it.
  obtain ⟨entries, hentries⟩ : ∃ entries, state.ledger = message :: entries := by
    cases hlist : state.ledger with
    | nil =>
      rw [hlist, nil_append] at hwaiting
      have hsent := hunpushed message (by simp [hwaiting])
      rw [hunsent] at hsent
      cases hsent
    | cons front entries =>
      rw [hlist, cons_append, cons_append, List.cons.injEq] at hwaiting
      exact ⟨entries, by rw [hwaiting.1]⟩
  rw [hentries, cons_append, cons_append, List.cons.injEq] at hwaiting
  have hnodup : (message :: (rest ++ state.mailbox)).Nodup := by
    have hsent := hstate.nodup
    rw [← hstate.order, hreceived] at hsent
    exact hsent.of_append_right
  have hgone : message ∉ entries := by
    intro hmem
    apply (nodup_cons.mp hnodup).1
    rw [← hwaiting.2]
    exact mem_append_left _ hmem
  obtain ⟨horphans, hredispatched⟩ := hstate.orderly.unclaimed hpast
  -- Senders take messages back only after the run has left the table.
  have hreclaimed : state.reclaimed = [] := by
    by_contra hne
    rw [hstate.orderly.reclaimed_gone hne] at htable
    cases htable
  refine ⟨horderly, ?_, hstate.nodup, hstate.fresh, hstate.sending, ?_, ?_, ?_⟩
  · change state.confirmed ++ [message] ++ (state.received.tail ++ state.mailbox) = state.sent
    rw [← hstate.order, hreceived]
    simp
  · intro _ _
    refine ⟨waiting, ?_, ?_, hunpushed⟩
    · simpa [SteerRun.boundary, htable, hentries, hreceived] using hwaiting.2
    · intro other hother
      apply hledger other
      rw [hentries]
      exact mem_cons_of_mem _ (by simpa [SteerRun.boundary, htable, hentries] using hother)
  · intro other hother
    rcases mem_append.mp hother with hother | hother
    · obtain ⟨hkept, hrest⟩ := hstate.notAgain other hother
      refine ⟨?_, hrest⟩
      rw [hentries, mem_cons, not_or] at hkept
      simpa [SteerRun.boundary, htable, hentries] using hkept.2
    · obtain rfl := mem_singleton.mp hother
      refine ⟨?_, ?_, ?_, ?_, hunsent⟩
      · simpa [SteerRun.boundary, htable, hentries] using hgone
      · simp [SteerRun.boundary, horphans]
      · simp [SteerRun.boundary, hredispatched]
      · simp [SteerRun.boundary, hreclaimed]
  · intro entry hentry
    rcases mem_append.mp hentry with hentry | hentry
    · exact hstate.retired entry hentry
    · obtain rfl := mem_singleton.mp hentry
      simp [htable, hentries]

omit [DecidableEq M] in
/-- Once the run is out of the table or past its exit drain, the ledger only
needs to avoid the delivered messages. -/
theorem unwatched {next : SteerRun M} (hstate : Aligned state) (horderly : Orderly next)
    (hlists : next.sent = state.sent ∧ next.confirmed = state.confirmed ∧
      next.received = state.received ∧ next.mailbox = state.mailbox ∧
      next.senders = state.senders ∧ next.retired = state.retired)
    (hgone : next.inTable = true → next.phase.past = true)
    (hagain : ∀ message, NotAgain state message → NotAgain next message) : Aligned next := by
  obtain ⟨hsent, hconfirmed, hreceived, hmailbox, hsenders, hretired⟩ := hlists
  refine ⟨horderly, ?_, hsent ▸ hstate.nodup, ?_, ?_, ?_, ?_, hretired ▸ hstate.retired⟩
  · rw [hsent, hconfirmed, hreceived, hmailbox]
    exact hstate.order
  · rw [hsenders, hsent]
    exact hstate.fresh
  · rw [hsenders, hsent]
    exact hstate.sending
  · intro htable hpast
    rw [hgone htable] at hpast
    cases hpast
  · intro message hmessage
    exact hagain message (hstate.notAgain message (hconfirmed ▸ hmessage))

theorem step {next : SteerRun M} {action : SteerAction M} (hstate : Aligned state)
    (hordered : state.pushesInOrder action = true) (hstep : state.step action = some next) :
    Aligned next := by
  have horderly := hstate.orderly.step hstep
  cases moves_of_step hstep with
  | look hidle =>
    refine hstate.setSender ?_ rfl (fun _ => ?_) nofun
    · simp [hidle]
    · simp [hidle]
  | accept hlooked => exact hstate.accept hlooked horderly
  | @refuse message kind hlooked =>
    have hmoved : Aligned (state.setSender message (.returned .refused)) :=
      hstate.setSender (by simp [hlooked]) rfl nofun nofun
    exact ⟨horderly, hmoved.order, hmoved.nodup, hmoved.fresh, hmoved.sending, hmoved.ledger,
      hmoved.notAgain, hmoved.retired⟩
  | push hsent => exact hstate.push hsent hordered horderly
  | @writeDoc message kind written hpushed =>
    have hold : (state.senders message).isSent = false := by simp [hpushed]
    cases written with
    | true | false => exact hstate.setSender hold rfl nofun nofun
  | @checkLive message kind hwritten =>
    have hold : (state.senders message).isSent = false := by simp [hwritten]
    cases htable : state.inTable with
    | true => exact hstate.setSender hold rfl nofun nofun
    | false => exact hstate.setSender hold rfl nofun fun _ _ => htable
  | reclaim hdead hpresent => exact hstate.reclaim hdead hpresent horderly
  | @letGo message kind hdead =>
    exact hstate.setSender (by simp [hdead]) rfl nofun nofun
  | replace | spawnFail | startupRetry =>
    exact hstate.unwatched horderly ⟨rfl, rfl, rfl, rfl, rfl, rfl⟩ nofun fun _ hagain => hagain
  | startStream hphase | leave hphase =>
    refine ⟨horderly, hstate.order, hstate.nodup, hstate.fresh, hstate.sending, ?_,
      hstate.notAgain, hstate.retired⟩
    exact fun htable _ => hstate.ledger htable (by simp [hphase])
  | @receive message rest hmailbox =>
    have hsame : state.received ++ [message] ++ rest = state.received ++ state.mailbox := by
      simp [hmailbox]
    refine ⟨horderly, ?_, hstate.nodup, hstate.fresh, hstate.sending, ?_, hstate.notAgain,
      hstate.retired⟩
    · rw [← hstate.order, ← hsame]
    · intro htable hphase
      obtain ⟨waiting, hwaiting, hrest⟩ := hstate.ledger htable hphase
      exact ⟨waiting, hwaiting.trans hsame.symm, hrest⟩
  | steered hphase hreceived => exact hstate.boundary hphase hreceived hordered horderly
  | take =>
    refine hstate.unwatched horderly ⟨rfl, rfl, rfl, rfl, rfl, rfl⟩ (fun _ => rfl) ?_
    rintro message ⟨hledger, -, hrest⟩
    exact ⟨not_mem_nil, hledger, hrest⟩
  | takeNothing =>
    exact hstate.unwatched horderly ⟨rfl, rfl, rfl, rfl, rfl, rfl⟩ (fun _ => rfl)
      fun _ hagain => hagain
  | removeRun =>
    refine hstate.unwatched horderly ⟨rfl, rfl, rfl, rfl, rfl, rfl⟩ nofun ?_
    rintro message ⟨hledger, horphans, hrest⟩
    refine ⟨hledger, ?_, hrest⟩
    intro hmem
    simp only [SteerRun.removeRun] at hmem
    split at hmem
    · cases hmem
    · exact horphans hmem
  | @redispatch message rest ok hphase horphans =>
    refine hstate.unwatched horderly ⟨rfl, rfl, rfl, rfl, rfl, rfl⟩ ?_ ?_
    · intro _
      change state.phase.past = true
      simp [hphase]
    · rintro other ⟨hledger, hclaimed, hredispatched, hrest⟩
      rw [horphans, mem_cons, not_or] at hclaimed
      cases ok with
      | true => exact ⟨hledger, hclaimed.2, by simp [hredispatched, hclaimed.1], hrest⟩
      | false => exact ⟨hledger, not_mem_nil, hredispatched, hrest⟩
  | _ =>
    exact ⟨horderly, hstate.order, hstate.nodup, hstate.fresh, hstate.sending, hstate.ledger,
      hstate.notAgain, hstate.retired⟩

end Aligned

/-- A delivered message is neither re-dispatched by the exit drain nor taken
back by its sender, and each boundary retired its own message's entry. -/
def DeliveredOnce (state : SteerRun M) : Prop :=
  (∀ message ∈ state.confirmed,
    message ∉ state.redispatched ∧ message ∉ state.reclaimed) ∧
  ∀ entry ∈ state.retired, entry.2 = some entry.1

/-- No delivered steer runs twice, provided senders append to the ledger in
mailbox order and every boundary finds its run in the table and its message
appended. -/
theorem delivered_once (retryable : Bool) (trace : List (SteerAction M)) (final : SteerRun M)
    (hordered : Trace.Guarded SteerRun.step
      (fun state action => state.pushesInOrder action = true) (init retryable) trace)
    (hrun : Trace.run SteerRun.step (init retryable) trace = some final) :
    final.DeliveredOnce := by
  have haligned : Aligned final := by
    refine Trace.guarded_invariant (fun _ _ _ hstate hguard hstep => Aligned.step hstate hguard hstep)
      ?_ hordered hrun
    refine ⟨orderly_init retryable, rfl, .nil, by simp [init], nofun, ?_, by simp [init],
      by simp [init]⟩
    exact fun _ _ => ⟨[], rfl, nofun, nofun⟩
  refine ⟨?_, haligned.retired⟩
  intro message hmessage
  obtain ⟨-, -, hredispatched, hreclaimed, -⟩ := haligned.notAgain message hmessage
  exact ⟨hredispatched, hreclaimed⟩

theorem delivered_once_secondOrphaned :
    ∃ final : SteerRun String,
      Trace.run SteerRun.step (init true) secondOrphaned = some final ∧
      final.confirmed = ["m1"] ∧ final.redispatched = ["m2"] ∧ final.DeliveredOnce := by
  have hfinal : (Trace.run SteerRun.step (init true) secondOrphaned).map (fun state =>
      (state.confirmed, state.redispatched)) = some (["m1"], ["m2"]) := by decide
  obtain ⟨final, hrun, hfields⟩ := Option.map_eq_some_iff.mp hfinal
  simp only [Prod.mk.injEq] at hfields
  exact ⟨final, hrun, hfields.1, hfields.2,
    delivered_once true secondOrphaned final (by decide) hrun⟩

/-- The boundary comes between the sender's two updates; the entry it should
have retired is appended afterwards and re-dispatched at the exit. -/
def boundaryBeforePush : List (SteerAction String) :=
  [.startStream, .sessionStarted, .look "m1" .steer, .trySend "m1", .receive, .steered,
    .push "m1", .writeDoc "m1" true, .checkLive "m1", .leave, .take, .removeRun,
    .redispatch true]

theorem boundaryBeforePush_runsTwice :
    ¬ ∀ (retryable : Bool) (trace : List (SteerAction String)) (final : SteerRun String),
      Trace.run SteerRun.step (init retryable) trace = some final → final.DeliveredOnce := by
  intro honce
  have hfinal : (Trace.run SteerRun.step (init true) boundaryBeforePush).map (fun state =>
      (state.confirmed, state.redispatched)) = some (["m1"], ["m1"]) := by decide
  obtain ⟨final, hrun, hfields⟩ := Option.map_eq_some_iff.mp hfinal
  simp only [Prod.mk.injEq] at hfields
  obtain ⟨hconfirmed, hredispatched⟩ := hfields
  have hdelivered := (honce true boundaryBeforePush final hrun).1 "m1" (by simp [hconfirmed])
  simp [hredispatched] at hdelivered

end SteerRun

end Keel
