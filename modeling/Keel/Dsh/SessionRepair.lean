import Keel.Dsh.Session
import Mathlib.Data.List.Induction

/-! # Repairing an interrupted turn

What is open at the end of a log is read off its last marks: the last mark of a turn, the
last mark of a step, and the calls requested since a turn last began or ended or a step last
ended. The repair answers those calls, ends the step and ends the turn, and what it writes
is accepted behind the log by the same checks as a live append.
-/

namespace Keel.Session

open List

section Marks

/-- A turn that begins, or `none` when one ends. -/
def turnMark (event : Event) : Option (Option Nat) :=
  match event.data with
  | .turnStart turn => some (some turn)
  | .turnEnd .. => some none
  | _ => none

/-- A step that begins, or `none` when one is over. -/
def stepMark (event : Event) : Option (Option Nat) :=
  match event.data with
  | .turnStart _ | .turnEnd .. | .stepEnd .. => some none
  | .stepStart _ step => some (some step)
  | _ => none

def currentTurn (log : List Event) : Option Nat := (log.filterMap turnMark).getLast?.join

def currentStep (log : List Event) : Option Nat := (log.filterMap stepMark).getLast?.join

/-- The events behind the last one that is accepted. -/
def since (last : Event → Bool) (log : List Event) : List Event :=
  (log.reverse.takeWhile fun event => !last event).reverse

/-- The events since a turn last began or ended or a step last ended. -/
def stretch (log : List Event) : List Event :=
  since (fun event => decide (stepMark event = some none)) log

/-- The events of the step that is open. -/
def openStepEvents (log : List Event) : List Event :=
  if (currentStep log).isSome then since (fun event => (stepMark event).isSome) log else []

/-- The calls an event asks for, each with the step it names. -/
def requests (event : Event) : List (String × Nat) :=
  match event.data with
  | .assistantMessage _ step message _ =>
    message.content.filterMap fun block =>
      match block with
      | .toolCall id _ _ => some (id, step)
      | _ => none
  | _ => []

/-- The call that a result answers, with the step the result names. -/
def answer (event : Event) : Option (String × Nat) :=
  match event.data with
  | .toolResult _ step message _ _ =>
    match message.source with
    | .tool callId => some (callId, step)
    | _ => none
  | _ => none

/-- The calls that are asked for and not answered later. -/
def unanswered : List Event → List (String × Nat)
  | [] => []
  | event :: rest =>
    (requests event).filter (fun call => call.1 ∉ (rest.filterMap answer).map Prod.fst) ++
      unanswered rest

end Marks

section Snoc

variable (log : List Event) (event : Event)

theorem currentTurn_concat : currentTurn (log ++ [event]) = (turnMark event).getD (currentTurn log) := by
  rw [currentTurn, currentTurn, filterMap_append]
  cases hmark : turnMark event with
  | none | some mark => simp [hmark]

theorem currentStep_concat : currentStep (log ++ [event]) = (stepMark event).getD (currentStep log) := by
  rw [currentStep, currentStep, filterMap_append]
  cases hmark : stepMark event with
  | none | some mark => simp [hmark]

theorem since_concat (last : Event → Bool) :
    since last (log ++ [event]) = if last event then [] else since last log ++ [event] := by
  rw [since, since, reverse_append, reverse_singleton, singleton_append,
    takeWhile_cons]
  cases last event <;> simp

theorem unanswered_concat : unanswered (log ++ [event]) =
    (unanswered log).filter (fun call => (answer event).map Prod.fst ≠ some call.1) ++
      requests event := by
  induction log with
  | nil => simp [unanswered]
  | cons head rest ih =>
    rw [cons_append, unanswered, unanswered, ih, filter_append, filter_filter,
      append_assoc]
    congr 1
    refine filter_congr fun call _ => ?_
    rw [Bool.eq_iff_iff]
    cases hanswer : answer event with
    | none => simp [hanswer]
    | some answered =>
      simp only [Option.map_some, ne_eq, Option.some.injEq, Bool.and_eq_true, decide_eq_true_eq,
        filterMap_append, map_append,
        mem_append, filterMap_cons, hanswer, filterMap_nil, map_cons,
        map_nil, mem_singleton, not_or]
      exact ⟨fun h => ⟨fun heq => h.2 heq.symm, h.1⟩, fun h => ⟨h.2, fun heq => h.1 heq.symm⟩⟩

variable {log event} in
theorem unanswered_concat_of_none (hanswer : answer event = none) :
    unanswered (log ++ [event]) = unanswered log ++ requests event := by
  rw [unanswered_concat, hanswer, filter_eq_self.mpr (by simp)]

end Snoc

section Tail
attribute [local simp] OpenTail.scan turnMark stepMark requests


def PendingCall.request (entry : PendingCall) : String × Nat := (entry.callId, entry.step)

theorem map_request_requestedCalls (step : Nat) (content : List ContentBlock) :
    (requestedCalls step content).map PendingCall.request = content.filterMap fun block =>
      match block with
      | .toolCall id _ _ => some (id, step)
      | _ => none := by
  rw [requestedCalls, map_filterMap]
  congr 1
  funext block
  cases block <;> rfl

theorem map_request_noteCallStart (pending : List PendingCall) (callId : String) (seq : Nat) :
    (noteCallStart pending callId seq).map PendingCall.request =
      pending.map PendingCall.request := by
  induction pending with
  | nil => rfl
  | cons entry rest ih =>
    rw [noteCallStart]
    split
    · rfl
    · rw [map_cons, map_cons, ih]

theorem callSeq_noteCallStart {pending : List PendingCall} {callId : String} {seq : Nat}
    {entry : PendingCall} (hentry : entry ∈ noteCallStart pending callId seq) :
    entry ∈ pending ∨ entry.callSeq = some seq := by
  induction pending with
  | nil => cases hentry
  | cons head rest ih =>
    rw [noteCallStart] at hentry
    split at hentry
    · rcases mem_cons.mp hentry with rfl | hrest
      · exact .inr rfl
      · exact .inl (mem_cons_of_mem _ hrest)
    · rcases mem_cons.mp hentry with rfl | hrest
      · exact .inl mem_cons_self
      · exact (ih hrest).imp_left (mem_cons_of_mem _)

/-- The scan finds the open turn, the open step and the unanswered calls of the stretch. -/
theorem openTail_spec (log : List Event) :
    (openTail log).turn = currentTurn log ∧ (openTail log).step = currentStep log ∧
      (openTail log).pending.map PendingCall.request = unanswered (stretch log) := by
  induction log using List.reverseRecOn with
  | nil => exact ⟨rfl, rfl, rfl⟩
  | append_singleton log event ih =>
    obtain ⟨hturn, hstep, hpending⟩ := ih
    have hscan : openTail (log ++ [event]) = (openTail log).scan event := by
      rw [openTail, foldl_append]
      rfl
    rw [hscan, currentTurn_concat, currentStep_concat, stretch, since_concat]
    rw [stretch] at hpending
    generalize since _ log = events at hpending ⊢
    cases hdata : event.data with
    | turnStart turn | turnEnd turn reason =>
      simp [hdata, unanswered]
    | stepEnd turn step => simp [hdata, unanswered, hturn]
    | assistantMessage turn step message usage =>
      have hanswer : answer event = none := by simp [answer, hdata]
      simp [hdata, unanswered_concat_of_none hanswer, hturn, hstep, hpending,
        map_request_requestedCalls]
    | toolCall turn step callId name arguments =>
      have hanswer : answer event = none := by simp [answer, hdata]
      simp [hdata, unanswered_concat_of_none hanswer, hturn, hstep, hpending,
        map_request_noteCallStart]
    | toolResult turn step message error toolMeta =>
      cases hsource : message.source with
      | tool callId =>
        have hkept : ((openTail log).pending.filter fun entry =>
            decide (entry.callId ≠ callId)).map PendingCall.request =
            ((openTail log).pending.map PendingCall.request).filter fun call =>
              decide ((answer event).map Prod.fst ≠ some call.1) := by
          rw [filter_map]
          refine congrArg _ (filter_congr fun entry _ => decide_eq_decide.mpr ?_)
          simp [answer, hdata, hsource, PendingCall.request, eq_comm]
        rw [hpending] at hkept
        simpa [OpenTail.scan, turnMark, stepMark, hdata, hsource, unanswered_concat, hturn,
          hstep, requests] using hkept
      | _ =>
        have hanswer : answer event = none := by simp [answer, hdata, hsource]
        simp [hdata, hsource, unanswered_concat_of_none hanswer, hturn, hstep, hpending]
    | _ =>
      have hanswer : answer event = none := by simp [answer, hdata]
      simp [hdata, unanswered_concat_of_none hanswer, hturn, hstep, hpending]

theorem openTail_callSeq {log : List Event} (hlog : Contiguous 0 log) :
    ∀ entry ∈ (openTail log).pending, ∀ seq, entry.callSeq = some seq → seq < log.length := by
  induction log using List.reverseRecOn with
  | nil => exact nofun
  | append_singleton log event ih =>
    obtain ⟨hlog, hseq, -⟩ := contiguous_append.1 hlog
    rw [Nat.zero_add] at hseq
    have hscan : openTail (log ++ [event]) = (openTail log).scan event := by
      rw [openTail, foldl_append]
      rfl
    have hlater : ∀ entry ∈ (openTail log).pending, ∀ seq, entry.callSeq = some seq →
        seq < log.length + 1 := fun entry hentry seq hcall =>
      Nat.lt_succ_of_lt (ih hlog entry hentry seq hcall)
    rw [hscan, length_append, length_singleton]
    intro entry hentry seq hcall
    simp only [OpenTail.scan] at hentry
    split at hentry
    · cases hentry
    · cases hentry
    · exact hlater entry hentry seq hcall
    · cases hentry
    · rcases mem_append.mp hentry with hold | hnew
      · exact hlater entry hold seq hcall
      · obtain ⟨block, -, hblock⟩ := mem_filterMap.mp hnew
        split at hblock
        · cases hblock
          cases hcall
        · cases hblock
    · rcases callSeq_noteCallStart hentry with hold | hnew
      · exact hlater entry hold seq hcall
      · rw [hnew] at hcall
        cases hcall
        omega
    · split at hentry
      · exact hlater entry (mem_filter.mp hentry).1 seq hcall
      · exact hlater entry hentry seq hcall
    · exact hlater entry hentry seq hcall

end Tail

section Closers

/-- An event that every surface takes in. -/
def Joins (event : Event) : Prop :=
  surfaceOpOf event = .ok none ∨
    (surfaceOpOf event = .ok (some .append) ∧ assertProvenance event [] = .ok ())

theorem seedEvents_of_joins {session : SurfaceLog} {replacements : List SurfaceFoldReplacement}
    (hsession : session.Replayed replacements) {events : List Event}
    (hevents : Contiguous session.log.length events) (hjoins : ∀ event ∈ events, Joins event) :
    ∃ final, Session.seedEvents session events = .ok final := by
  induction events generalizing session replacements with
  | nil => exact ⟨session, rfl⟩
  | cons event rest ih =>
    have haccepted : ∃ next found, Session.accept session event = .ok next ∧
        next.log = session.log ++ [event] ∧ next.Replayed found := by
      rcases hjoins event mem_cons_self with hplain | ⟨happended, hsources⟩
      · exact Session.accept_plain hsession hevents.1 hplain
      · exact Session.accept_appended hsession hevents.1 happended hsources
    obtain ⟨next, found, haccept, hlog, hnext⟩ := haccepted
    have hrest : Contiguous next.log.length rest := by
      rw [hlog, length_append, length_singleton]
      exact hevents.2
    obtain ⟨final, hfinal⟩ := ih hnext hrest fun other hother =>
      hjoins other (mem_cons_of_mem _ hother)
    exact ⟨final, (Session.seedEvents_cons session).mpr ⟨hevents.1, next, haccept, hfinal⟩⟩

def resultClosers (log : List Event) (turn : Nat) (last : Event) : List Event :=
  (openTail log).pending.mapIdx fun index entry =>
    callCloser turn last.time (last.seq + 1 + index) entry

/-- The results answer the unanswered calls, each of them once and in their order. -/
theorem answer_resultClosers (log : List Event) (turn : Nat) (last : Event) :
    (resultClosers log turn last).map answer = (unanswered (stretch log)).map some := by
  rw [resultClosers, ← (openTail_spec log).2.2]
  refine ext_getElem? fun index => ?_
  rw [getElem?_map, getElem?_mapIdx, getElem?_map, getElem?_map,
    Option.map_map, Option.map_map]
  rfl

theorem joins_callCloser {turn time seq : Nat} {entry : PendingCall}
    (hcall : ∀ callSeq, entry.callSeq = some callSeq → callSeq < seq) :
    Joins (callCloser turn time seq entry) := by
  refine .inr ⟨rfl, ?_⟩
  cases hstart : entry.callSeq with
  | none => simp [assertProvenance, callCloser, hstart, collectSources]
  | some callSeq =>
    have hlt := hcall callSeq hstart
    simp [assertProvenance, callCloser, hstart, collectSources, Nat.not_le.mpr hlt]

/-- What a repair writes: the results, the end of the open step, the end of the turn. -/
structure Closes (log : List Event) (turn : Nat) (last : Event) (steps : List Event)
    (finish : Event) : Prop where
  closers : interruptedTurnClosers log = resultClosers log turn last ++ steps ++ [finish]
  last : log.getLast? = some last
  stepEnds : steps.map Event.data = (currentStep log).toList.map fun step => .stepEnd turn step
  turnEnds : finish.data = .turnEnd turn .interrupted
  plain : ∀ event ∈ steps ++ [finish], surfaceOpOf event = .ok none

theorem closes_of_currentTurn {log : List Event} {turn : Nat} (hturn : currentTurn log = some turn) :
    ∃ last steps finish, Closes log turn last steps finish := by
  obtain ⟨hspec, hstep, -⟩ := openTail_spec log
  cases hlast : log.getLast? with
  | none =>
    rw [getLast?_eq_none_iff] at hlast
    subst hlast
    cases hturn
  | some last =>
    cases hopen : currentStep log with
    | none =>
      refine ⟨last, [],
        { seq := last.seq + 1 + (openTail log).pending.length, time := last.time
          data := .turnEnd turn .interrupted }, ?_, hlast, ?_, rfl, ?_⟩
      · simp only [interruptedTurnClosers, hspec, hstep, hturn, hopen, hlast, resultClosers,
          append_nil]
      · rw [hopen]
        rfl
      · intro event hevent
        obtain rfl := mem_singleton.mp hevent
        rfl
    | some step =>
      refine ⟨last,
        [{ seq := last.seq + 1 + (openTail log).pending.length, time := last.time
           data := .stepEnd turn step }],
        { seq := last.seq + 1 + (openTail log).pending.length + 1, time := last.time
          data := .turnEnd turn .interrupted }, ?_, hlast, ?_, rfl, ?_⟩
      · simp only [interruptedTurnClosers, hspec, hstep, hturn, hopen, hlast, resultClosers,
          append_assoc, singleton_append]
      · rw [hopen]
        rfl
      · intro event hevent
        rcases mem_cons.mp hevent with rfl | hfinish
        · rfl
        · obtain rfl := mem_singleton.mp hfinish
          rfl

theorem interruptedTurnClosers_of_none {log : List Event} (hturn : currentTurn log = none) :
    interruptedTurnClosers log = [] := by
  rw [interruptedTurnClosers, (openTail_spec log).1, hturn]

theorem joins_of_mem_closers {log : List Event} (hlog : Contiguous 0 log) :
    ∀ event ∈ interruptedTurnClosers log, Joins event := by
  intro event hevent
  cases hturn : currentTurn log with
  | none =>
    rw [interruptedTurnClosers_of_none hturn] at hevent
    cases hevent
  | some turn =>
    obtain ⟨last, steps, finish, hcloses⟩ := closes_of_currentTurn hturn
    rw [hcloses.closers, append_assoc] at hevent
    rcases mem_append.mp hevent with hresult | hend
    · obtain ⟨index, hindex, rfl⟩ := mem_mapIdx.mp hresult
      refine joins_callCloser fun callSeq hcall => ?_
      have hlt := openTail_callSeq hlog _ (getElem_mem hindex) callSeq hcall
      have hlast := hlog.getLast hcloses.last
      omega
    · exact .inl (hcloses.plain event hend)

theorem currentTurn_repaired (log : List Event) :
    currentTurn (log ++ interruptedTurnClosers log) = none := by
  cases hturn : currentTurn log with
  | none => rw [interruptedTurnClosers_of_none hturn, append_nil, hturn]
  | some turn =>
    obtain ⟨last, steps, finish, hcloses⟩ := closes_of_currentTurn hturn
    rw [hcloses.closers, ← append_assoc, currentTurn_concat, turnMark, hcloses.turnEnds]
    rfl

end Closers

/-- The repair of a log that a session can be created from: the log with it creates a session
again and needs no repair, the closers continue its numbers, and an open turn is closed by
one result for each unanswered call of the stretch and no others, then the end of the open
step, then the end of the turn. -/
theorem repair_restores (now later : Nat) (id : String) (log : List Event)
    (header : Option Header) (session : Session)
    (hlog : Session.create now id log header = .ok session) :
    (∃ next, Session.create later id (log ++ interruptedTurnClosers log) header = .ok next) ∧
      interruptedTurnClosers (log ++ interruptedTurnClosers log) = [] ∧
      Contiguous log.length (interruptedTurnClosers log) ∧
      (currentTurn log = none → interruptedTurnClosers log = []) ∧
      ∀ turn, currentTurn log = some turn → ∃ results steps finish,
        interruptedTurnClosers log = results ++ steps ++ [finish] ∧
        results.map answer = (unanswered (stretch log)).map some ∧
        steps.map Event.data = (currentStep log).toList.map (fun step => .stepEnd turn step) ∧
        finish.data = .turnEnd turn .interrupted := by
  obtain ⟨surface, given, -, hseed, hgiven, -⟩ := Session.create_spec hlog
  obtain ⟨hsurface, hcontiguous, found, hreplayed⟩ := Session.seedEvents_spec replayed_start hseed
  have hclosers := contiguous_interruptedTurnClosers hcontiguous
  refine ⟨?_, interruptedTurnClosers_of_none (currentTurn_repaired log), hclosers,
    interruptedTurnClosers_of_none, fun turn hturn => ?_⟩
  · have hlength : surface.log.length = log.length := by rw [hsurface]; rfl
    obtain ⟨final, hfinal⟩ := seedEvents_of_joins hreplayed (hlength.symm ▸ hclosers)
      (joins_of_mem_closers hcontiguous)
    have hgiven' : ∃ given', Session.headerFor later id header = .ok given' := by
      cases header with
      | none => exact ⟨_, rfl⟩
      | some header => exact ⟨given, hgiven⟩
    obtain ⟨given', hgiven'⟩ := hgiven'
    exact Session.create_of_seed (Session.seedEvents_append.2 ⟨surface, hseed, hfinal⟩) hgiven'
  · obtain ⟨last, steps, finish, hcloses⟩ := closes_of_currentTurn hturn
    exact ⟨_, steps, finish, hcloses.closers, answer_resultClosers log turn last,
      hcloses.stepEnds, hcloses.turnEnds⟩

/-- A turn that stopped in its first step, with one of two calls answered. -/
def halfAnswered : List Event :=
  let event (seq : Nat) (data : EventData) (surfaceOp : Option SurfaceOp) : Event :=
    { seq, time := 0, data, surfaceOp }
  [event 0 (.turnStart 1) none, event 1 (.stepStart 1 1) none,
    event 2 (.assistantMessage 1 1 ⟨"m", .assistant,
      [.toolCall "first" "read" "\x7b\x7d", .toolCall "second" "read" "\x7b\x7d"], .user⟩ none)
      (some .append),
    event 3 (.toolCall 1 1 "first" "read" "\x7b\x7d") none,
    event 4 (.toolResult 1 1 ⟨"r", .user, [.toolResult "first" [] none], .tool "first"⟩ none none)
      (some .append)]

theorem repair_restores_halfAnswered :
    interruptedTurnClosers (halfAnswered ++ interruptedTurnClosers halfAnswered) = [] ∧
      Contiguous 5 (interruptedTurnClosers halfAnswered) :=
  let h := repair_restores 0 0 "session" halfAnswered none _ rfl
  ⟨h.2.1, h.2.2.1⟩

/-- A call that is asked for outside any step. -/
def steplessCall : List Event :=
  [{ seq := 0, time := 0, data := .turnStart 1 },
    { seq := 1, time := 0, surfaceOp := some .append
      data := .assistantMessage 1 1 ⟨"m", .assistant, [.toolCall "call" "read" "\x7b\x7d"], .user⟩
        none }]

/-- The calls answered are not those of the open step: a call may be answered while no step
is open. -/
theorem stepless_call_answered : ¬ ∀ (now : Nat) (id : String) (log : List Event)
    (header : Option Header) (session : Session),
    Session.create now id log header = .ok session →
      ((interruptedTurnClosers log).filterMap answer).Perm (unanswered (openStepEvents log)) := by
  intro hclaim
  have hperm := hclaim 0 "session" steplessCall none _ rfl
  exact absurd hperm.length_eq (by decide)

end Keel.Session
