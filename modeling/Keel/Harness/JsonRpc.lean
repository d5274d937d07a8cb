import Keel.Foundation.Text
import Keel.Foundation.Trace
import Keel.Proto.JsonFields
import Mathlib.Logic.Function.Basic

/-! # JSON-RPC over the stdio of a child agent

Callers register their requests and send their lines through one channel; a write loop
carries the lines to the child's stdin, and a read loop resolves the callers by id and
forwards everything else to the session loop. The write loop ends with its first failed
write. The read loop ends with the child's stdout, after it has failed whatever is pending,
or when nobody takes its messages any more.
-/

namespace Keel

open List Function

namespace JsonRpc

/-- A line of the child that is not a response, in stdout order. -/
inductive Incoming where
  | notification (method : String) (params : Json)
  | request (id : Json) (method : String) (params : Json)
  | eof

section Messages

def i64Min : Int := -2 ^ 63

def i64Max : Int := 2 ^ 63 - 1

/-- `str::parse::<i64>`. -/
def parseI64 (text : List Char) : Option Int :=
  let negative := text.head? = some '-'
  let digits := if negative then text.tail else Text.stripChar '+' text
  if digits ≠ [] ∧ digits.all Char.isDigit then
    let magnitude : Int :=
      digits.foldl (fun value digit => value * 10 + (digit.toNat - '0'.toNat)) 0
    let value := if negative then -magnitude else magnitude
    if i64Min ≤ value ∧ value ≤ i64Max then some value else none
  else none

/-- The id of a response, tolerantly. An integer beyond `i64` is read as a double, and
doubles saturate. -/
def responseId : Json → Option Int
  | .int value => some (max i64Min (min i64Max value))
  | .string text => parseI64 text.toList
  | .float (.finite value) =>
    if value.den = 1 then some (max i64Min (min i64Max value.num)) else none
  | _ => none

def outcomeOf (print : Json → String) (message : Json) : Except String Json :=
  match message.field? "error" with
  | some err => .error (((err.field? "message").bind Json.str?).getD (print err))
  | none => .ok ((message.field? "result").getD .null)

def paramsOf (message : Json) : Json := (message.field? "params").getD .null

def requestLine (id : Int) (method : String) (params : Json) : Json :=
  .object [("jsonrpc", .string "2.0"), ("id", .int id), ("method", .string method),
    ("params", params)]

end Messages

/-- Where the read loop is. -/
inductive Reader where
  | reading
  /-- Waiting for room for a message. -/
  | delivering (message : Incoming)
  /-- The pending requests are failed, the session loop is not told yet. -/
  | closing
  | stopped

/-- The reader resolves no request any more. -/
def Reader.isDone : Reader → Bool
  | .reading | .delivering _ => false
  | .closing | .stopped => true

/-- The depth of the channel to the session loop. -/
def incomingDepth : Nat := 256

structure State where
  nextId : Nat := 0
  /-- The method of each request. -/
  requests : Int → Option String := fun _ => none
  /-- The lines of requests that are registered and not sent. -/
  unsent : Int → Option Json := fun _ => none
  pending : Int → Bool := fun _ => false
  /-- What callers have been given. -/
  results : List (Int × Except String Json) := []
  writer : List Json := []
  writerOpen : Bool := true
  /-- What the child has printed; a line that cannot be read is `none`. -/
  stdout : List (Option String) := []
  stdoutOpen : Bool := true
  reader : Reader := .reading
  incoming : List Incoming := []
  incomingOpen : Bool := true

inductive Action where
  | request (method : String) (params : Json)
  | send (id : Int)
  /-- `notify`, `respond` and `respond_error`. -/
  | post (line : Json)
  | write
  | writeFails
  | print (line : Option String)
  | closeStdout
  | read
  | deliver
  /-- The reader finds the receiver dropped. -/
  | abandon
  /-- End of stdout, or a line that cannot be read. -/
  | finish
  | deliverEof
  | take
  | dropReceiver

section Callers

def State.register (state : State) (method : String) (params : Json) : State :=
  let id : Int := state.nextId + 1
  { state with
    nextId := state.nextId + 1
    requests := update state.requests id (some method)
    unsent := update state.unsent id (some (requestLine id method params))
    pending := update state.pending id true }

/-- The error of a request, under its method. -/
def State.failure (state : State) (id : Int) (message : String) : Except String Json :=
  .error ((state.requests id).getD "" ++ ": " ++ message)

/-- The writer is gone: the entry is removed and the request fails. -/
def State.refuse (state : State) (id : Int) : State :=
  { state with
    unsent := update state.unsent id none
    pending := update state.pending id false
    results := state.results ++ [(id, state.failure id "app-server stdin closed")] }

end Callers

section Reading

/-- A response resolves the request that waits for it, if one does. -/
def State.resolve (state : State) (id : Int) (outcome : Except String Json) : State :=
  if state.pending id then
    { state with
      pending := update state.pending id false
      results := state.results ++ [(id, match outcome with
        | .ok value => .ok value
        | .error message => state.failure id message)] }
  else state

variable (parse : String → Option Json) (printJson : Json → String)

/-- One JSON line in `read_loop`. -/
def State.readMessage (state : State) (message : Json) : State :=
  match (message.field? "method").bind Json.str?, message.field? "id" with
  | none, some id =>
    match responseId id with
    | some id => state.resolve id (outcomeOf printJson message)
    | none => state
  | some method, some id =>
    { state with reader := .delivering (.request id method (paramsOf message)) }
  | some method, none =>
    { state with reader := .delivering (.notification method (paramsOf message)) }
  | none, none => state

/-- One line; blank ones and those that are not JSON are skipped. -/
def State.readLine (state : State) (line : String) : State :=
  let line := Text.trim line.toList
  if line = [] then state
  else match parse (String.ofList line) with
    | some message => state.readMessage printJson message
    | none => state

/-- `pending.clear()`: the senders drop and the callers fail. -/
def State.clear (state : State) : State :=
  { state with
    pending := fun _ => false
    results := state.results ++ (((List.range state.nextId).map fun n : Nat => (n : Int) + 1).filter
      state.pending).map fun id =>
        (id, state.failure id "app-server exited before responding") }

def step (state : State) : Action → Option State
  | .request method params => some (state.register method params)
  | .send id =>
    match state.unsent id with
    | some line =>
      if state.writerOpen then
        some { state with
          unsent := update state.unsent id none
          writer := state.writer ++ [line] }
      else some (state.refuse id)
    | none => none
  | .post line =>
    some (if state.writerOpen then { state with writer := state.writer ++ [line] } else state)
  | .write =>
    match state.writer with
    | _ :: rest => some { state with writer := rest }
    | [] => none
  | .writeFails =>
    if state.writer ≠ [] then some { state with writerOpen := false, writer := [] } else none
  | .print line =>
    if state.stdoutOpen then some { state with stdout := state.stdout ++ [line] } else none
  | .closeStdout => some { state with stdoutOpen := false }
  | .read =>
    match state.reader, state.stdout with
    | .reading, some line :: rest =>
      some ({ state with stdout := rest }.readLine parse printJson line)
    | _, _ => none
  | .deliver =>
    match state.reader with
    | .delivering message =>
      if state.incomingOpen ∧ state.incoming.length < incomingDepth then
        some { state with reader := .reading, incoming := state.incoming ++ [message] }
      else none
    | _ => none
  | .abandon =>
    match state.reader with
    | .delivering _ => if state.incomingOpen then none else some { state with reader := .stopped }
    | _ => none
  | .finish =>
    match state.reader with
    | .reading =>
      if (state.stdout = [] ∧ ¬ state.stdoutOpen) ∨ state.stdout.head? = some none then
        some { state.clear with reader := .closing }
      else none
    | _ => none
  | .deliverEof =>
    match state.reader with
    | .closing =>
      if ¬ state.incomingOpen then some { state with reader := .stopped }
      else if state.incoming.length < incomingDepth then
        some { state with reader := .stopped, incoming := state.incoming ++ [.eof] }
      else none
    | _ => none
  | .take =>
    match state.incoming with
    | _ :: rest => if state.incomingOpen then some { state with incoming := rest } else none
    | [] => none
  | .dropReceiver => some { state with incomingOpen := false }

end Reading

section Claims

/-- The read loop has stopped and every request has done its send. -/
structure Ended (state : State) : Prop where
  stopped : state.reader = .stopped
  sent : ∀ id, state.unsent id = none

/-- No entry is left and every request has a result. -/
structure Settled (state : State) : Prop where
  pending : ∀ id, state.pending id = false
  results : ∀ id method, state.requests id = some method →
    ∃ result, (id, result) ∈ state.results

/-- The reader does not leave sent requests behind when the receiver is dropped, and no request
that it did not live to see is sent while the writer is alive. -/
def InTime (state : State) : Action → Prop
  | .send id => state.reader.isDone = true → state.writerOpen = true → state.pending id = false
  | .abandon => ∀ id, state.pending id = true → state.unsent id ≠ none
  | _ => True

end Claims

section Books

variable {parse : String → Option Json} {printJson : Json → String}
variable {state next : State} {action : Action}

/-- Entries are of requests, and a request without an entry has a result. -/
structure Booked (state : State) : Prop where
  issued : ∀ id method, state.requests id = some method → ∃ n < state.nextId, id = (n : Int) + 1
  pending : ∀ id, state.pending id = true → ∃ method, state.requests id = some method
  answered : ∀ id method, state.requests id = some method →
    state.pending id = true ∨ ∃ result, (id, result) ∈ state.results

/-- A step that touches neither the requests nor their entries. -/
structure Untouched (state next : State) : Prop where
  nextId : next.nextId = state.nextId
  requests : next.requests = state.requests
  unsent : next.unsent = state.unsent
  pending : next.pending = state.pending
  results : next.results = state.results

/-- The entry of one request goes, and its caller gets a result. -/
structure Answers (state next : State) (id : Int) : Prop where
  nextId : next.nextId = state.nextId
  requests : next.requests = state.requests
  pending : next.pending = update state.pending id false
  results : ∀ entry ∈ state.results, entry ∈ next.results
  answer : ∃ result, (id, result) ∈ next.results

section
variable (hbooked : Booked state)
include hbooked

theorem Booked.untouched (hsame : Untouched state next) : Booked next := by
  refine ⟨?_, ?_, ?_⟩
  · rw [hsame.requests, hsame.nextId]
    exact hbooked.issued
  · rw [hsame.requests, hsame.pending]
    exact hbooked.pending
  · rw [hsame.requests, hsame.pending, hsame.results]
    exact hbooked.answered

theorem Booked.answers {id : Int} (hanswers : Answers state next id) : Booked next := by
  refine ⟨?_, fun other hpending => ?_, fun other method hmethod => ?_⟩
  · rw [hanswers.requests, hanswers.nextId]
    exact hbooked.issued
  · rw [hanswers.requests]
    rw [hanswers.pending] at hpending
    by_cases hid : other = id
    · simp [hid] at hpending
    · exact hbooked.pending other (by rwa [update_of_ne hid] at hpending)
  · rw [hanswers.requests] at hmethod
    by_cases hid : other = id
    · exact .inr (hid ▸ hanswers.answer)
    · rw [hanswers.pending, update_of_ne hid]
      exact (hbooked.answered other method hmethod).imp (fun hheld => hheld) fun ⟨result, hresult⟩ =>
        ⟨result, hanswers.results _ hresult⟩

theorem Booked.register (method : String) (params : Json) :
    Booked (state.register method params) := by
  refine ⟨fun id other hother => ?_, fun id hpending => ?_, fun id other hother => ?_⟩
  all_goals by_cases hid : id = (state.nextId : Int) + 1
  · exact ⟨state.nextId, Nat.lt_succ_self _, hid⟩
  · simp only [State.register, update_of_ne hid] at hother
    obtain ⟨n, hn, rfl⟩ := hbooked.issued id other hother
    exact ⟨n, Nat.lt_succ_of_lt hn, rfl⟩
  · exact ⟨method, by simp [State.register, hid]⟩
  · simp only [State.register, update_of_ne hid] at hpending ⊢
    exact hbooked.pending id hpending
  · exact .inl (by simp [State.register, hid])
  · simp only [State.register, update_of_ne hid] at hother ⊢
    exact hbooked.answered id other hother

theorem Booked.clear : Booked state.clear := by
  refine ⟨hbooked.issued, fun id hpending => (by cases hpending), fun id method hmethod => .inr ?_⟩
  rcases hbooked.answered id method hmethod with hpending | ⟨result, hresult⟩
  · obtain ⟨n, hn, rfl⟩ := hbooked.issued id method hmethod
    refine ⟨state.failure (n + 1) "app-server exited before responding",
      mem_append_right _ (mem_map.mpr ⟨n + 1, ?_, rfl⟩)⟩
    exact mem_filter.mpr ⟨mem_map.mpr ⟨n, mem_range.mpr hn, rfl⟩, hpending⟩
  · exact ⟨result, mem_append_left _ hresult⟩

end

theorem answers_refuse (id : Int) : Answers state (state.refuse id) id :=
  ⟨rfl, rfl, rfl, fun _ hentry => mem_append_left _ hentry,
    _, mem_append_right _ (mem_singleton.mpr rfl)⟩

theorem readLine_cases (line : String) :
    Untouched state (state.readLine parse printJson line) ∨
      ∃ id, Answers state (state.readLine parse printJson line) id := by
  unfold State.readLine
  dsimp only
  split
  · exact .inl ⟨rfl, rfl, rfl, rfl, rfl⟩
  · split
    next message _ =>
      unfold State.readMessage
      split
      · split
        next id _ =>
          unfold State.resolve
          split
          · exact .inr ⟨id, rfl, rfl, rfl, fun _ hentry => mem_append_left _ hentry,
              _, mem_append_right _ (mem_singleton.mpr rfl)⟩
          · exact .inl ⟨rfl, rfl, rfl, rfl, rfl⟩
        · exact .inl ⟨rfl, rfl, rfl, rfl, rfl⟩
      all_goals exact .inl ⟨rfl, rfl, rfl, rfl, rfl⟩
    · exact .inl ⟨rfl, rfl, rfl, rfl, rfl⟩

theorem isDone_readLine {line : String} (hreading : state.reader.isDone = false) :
    (state.readLine parse printJson line).reader.isDone = false := by
  unfold State.readLine
  dsimp only
  split
  · exact hreading
  · split
    next message _ =>
      unfold State.readMessage
      split
      · split
        next id _ =>
          unfold State.resolve
          split <;> exact hreading
        · exact hreading
      · rfl
      · rfl
      · exact hreading
    · exact hreading

/-- What a step can do to the requests and their entries. -/
inductive Effect (state : State) : Action → State → Prop where
  | request (method : String) (params : Json) :
      Effect state (.request method params) (state.register method params)
  | sent {id : Int} {line : Json} (hline : state.unsent id = some line)
      (hopen : state.writerOpen = true) : Effect state (.send id) { state with
        unsent := update state.unsent id none, writer := state.writer ++ [line] }
  | refused {id : Int} {line : Json} (hline : state.unsent id = some line)
      (hclosed : state.writerOpen = false) : Effect state (.send id) (state.refuse id)
  | read {line : String} {rest : List (Option String)} (hreader : state.reader = .reading)
      (hstdout : state.stdout = some line :: rest) :
      Effect state .read ({ state with stdout := rest }.readLine parse printJson line)
  | abandon (hreader : state.reader.isDone = false) :
      Effect state .abandon { state with reader := .stopped }
  | finish (hreader : state.reader = .reading) :
      Effect state .finish { state.clear with reader := .closing }
  | other {action : Action} {next : State} (hother : ∀ id, action ≠ .send id)
      (habandon : action ≠ .abandon) (hsame : Untouched state next)
      (hreader : next.reader.isDone = state.reader.isDone) : Effect state action next

theorem effect_of_step (hstep : step parse printJson state action = some next) :
    @Effect parse printJson state action next := by
  cases action with
  | request method params => cases hstep; exact .request method params
  | send id =>
    simp only [step] at hstep
    split at hstep
    next line hline =>
      split at hstep
      next hopen => cases hstep; exact .sent hline hopen
      next hclosed =>
        cases hstep
        exact .refused hline (Bool.eq_false_of_not_eq_true hclosed)
    · cases hstep
  | post line =>
    cases hstep
    refine .other (by simp) (by simp) ?_ ?_
    · split <;> exact ⟨rfl, rfl, rfl, rfl, rfl⟩
    · split <;> rfl
  | write | writeFails | print line =>
    simp only [step] at hstep
    split at hstep
    · cases hstep; exact .other (by simp) (by simp) ⟨rfl, rfl, rfl, rfl, rfl⟩ rfl
    · cases hstep
  | closeStdout | dropReceiver =>
    cases hstep
    exact .other (by simp) (by simp) ⟨rfl, rfl, rfl, rfl, rfl⟩ rfl
  | read =>
    simp only [step] at hstep
    split at hstep
    next line rest hreader hstdout => cases hstep; exact .read hreader hstdout
    · cases hstep
  | deliver =>
    simp only [step] at hstep
    split at hstep
    next message hreader =>
      split at hstep
      · cases hstep
        exact .other (by simp) (by simp) ⟨rfl, rfl, rfl, rfl, rfl⟩ (by rw [hreader]; rfl)
      · cases hstep
    · cases hstep
  | abandon =>
    simp only [step] at hstep
    split at hstep
    next message hreader =>
      split at hstep
      · cases hstep
      · cases hstep; exact .abandon (by rw [hreader]; rfl)
    · cases hstep
  | finish =>
    simp only [step] at hstep
    split at hstep
    next hreader =>
      split at hstep
      · cases hstep; exact .finish hreader
      · cases hstep
    · cases hstep
  | deliverEof =>
    simp only [step] at hstep
    split at hstep
    next hreader =>
      split at hstep
      · cases hstep
        exact .other (by simp) (by simp) ⟨rfl, rfl, rfl, rfl, rfl⟩ (by rw [hreader]; rfl)
      · split at hstep
        · cases hstep
          exact .other (by simp) (by simp) ⟨rfl, rfl, rfl, rfl, rfl⟩ (by rw [hreader]; rfl)
        · cases hstep
    · cases hstep
  | take =>
    simp only [step] at hstep
    split at hstep
    · split at hstep
      · cases hstep; exact .other (by simp) (by simp) ⟨rfl, rfl, rfl, rfl, rfl⟩ rfl
      · cases hstep
    · cases hstep

theorem Booked.step (hbooked : Booked state)
    (hstep : step parse printJson state action = some next) : Booked next := by
  cases effect_of_step hstep with
  | request method params => exact hbooked.register method params
  | sent _ _ => exact ⟨hbooked.issued, hbooked.pending, hbooked.answered⟩
  | refused _ _ => exact hbooked.answers (answers_refuse _)
  | @read line rest _ _ =>
    have hbooked : Booked { state with stdout := rest } :=
      hbooked.untouched ⟨rfl, rfl, rfl, rfl, rfl⟩
    rcases readLine_cases line with hsame | ⟨id, hanswers⟩
    · exact hbooked.untouched hsame
    · exact hbooked.answers hanswers
  | abandon _ => exact hbooked.untouched ⟨rfl, rfl, rfl, rfl, rfl⟩
  | finish _ => exact hbooked.clear.untouched ⟨rfl, rfl, rfl, rfl, rfl⟩
  | other _ _ hsame _ => exact hbooked.untouched hsame

end Books

section Heard

variable {parse : String → Option Json} {printJson : Json → String}
variable {state next : State} {action : Action}

/-- Once the reader resolves nothing more, whoever is still pending has its send before it. -/
def Heard (state : State) : Prop :=
  state.reader.isDone = true → ∀ id, state.pending id = true → state.unsent id ≠ none

theorem heard_of_reading (hreader : state.reader.isDone = false) : Heard state :=
  fun hdone => by simp [hreader] at hdone

theorem heard_register (hbooked : Booked state) (method : String) (params : Json) :
    Heard (state.register method params) ↔ Heard state := by
  simp only [Heard, State.register]
  refine forall_congr' fun _ => forall_congr' fun id => ?_
  by_cases hid : id = (state.nextId : Int) + 1
  · subst hid
    have hfresh : state.pending ((state.nextId : Int) + 1) ≠ true := fun hpending => by
      obtain ⟨method, hmethod⟩ := hbooked.pending _ hpending
      obtain ⟨n, hn, hid⟩ := hbooked.issued _ _ hmethod
      omega
    simp [hfresh]
  · simp only [update_of_ne hid]

/-- A line that finds the writer alive leaves its caller with nothing but the reader to wait for. -/
theorem heard_sent {id : Int} {lines : List Json} :
    Heard { state with unsent := update state.unsent id none, writer := lines } ↔
      Heard state ∧ (state.reader.isDone = true → state.pending id = false) := by
  constructor
  · intro hheard
    refine ⟨fun hdone other hpending => ?_, fun hdone => Bool.eq_false_of_not_eq_true fun hheld => ?_⟩
    · have hother := hheard hdone other hpending
      by_cases hid : other = id
      · simp [hid] at hother
      · simpa [update_of_ne hid] using hother
    · exact hheard hdone id hheld (by simp)
  · intro ⟨hheard, hresolved⟩ hdone other hpending
    by_cases hid : other = id
    · subst hid
      cases (hresolved hdone).symm.trans hpending
    · simpa [update_of_ne hid] using hheard hdone other hpending

theorem heard_refuse {id : Int} {line : Json} (hline : state.unsent id = some line) :
    Heard (state.refuse id) ↔ Heard state := by
  simp only [Heard, State.refuse]
  refine forall_congr' fun _ => forall_congr' fun other => ?_
  by_cases hid : other = id
  · subst hid
    simp [hline]
  · simp only [update_of_ne hid]

theorem heard_step (hbooked : Booked state)
    (hstep : step parse printJson state action = some next) :
    Heard next ↔ Heard state ∧ InTime state action := by
  cases effect_of_step hstep with
  | request method params => simp only [heard_register hbooked, InTime, and_true]
  | sent _ hopen =>
    rw [heard_sent]
    simp only [InTime, hopen, true_imp_iff]
  | refused hline hclosed =>
    simp only [heard_refuse hline, InTime, hclosed, Bool.false_eq_true, false_imp_iff, imp_true_iff,
      and_true]
  | read hreader _ =>
    have hreading : state.reader.isDone = false := by rw [hreader]; rfl
    exact iff_of_true (heard_of_reading (isDone_readLine hreading))
      ⟨heard_of_reading hreading, trivial⟩
  | abandon hreader =>
    simp only [heard_of_reading hreader, true_and]
    exact ⟨fun hheard => hheard rfl, fun hleft _ => hleft⟩
  | finish hreader =>
    have hheard : Heard state := heard_of_reading (by rw [hreader]; rfl)
    exact iff_of_true (fun _ id hpending => by cases hpending) ⟨hheard, trivial⟩
  | other hsend habandon hsame hreader =>
    have hguard : InTime state action := by
      cases action with
      | send id => exact absurd rfl (hsend id)
      | abandon => exact absurd rfl habandon
      | _ => trivial
    simp only [Heard, hsame.pending, hsame.unsent, hreader, hguard, and_true]

/-- However a session ends, every request has its result exactly when the reader left no sent
request behind and none that was registered after its last pass was sent to a live writer. -/
theorem settled_iff_inTime {trace : List Action}
    (hrun : Trace.run (step parse printJson) {} trace = some state) (hended : Ended state) :
    Settled state ↔ Trace.Guarded (step parse printJson) InTime {} trace := by
  have hbooked : Booked {} :=
    ⟨fun _ _ h => (by cases h), fun _ h => (by cases h), fun _ _ h => (by cases h)⟩
  have hheard : Heard {} := heard_of_reading rfl
  have hguarded := Trace.final_iff_guarded_of_invariant
    (fun _ _ _ (hbooked : Booked _) hstep => hbooked.step hstep)
    (fun _ _ _ hbooked hstep => heard_step hbooked hstep) hbooked hrun
  simp only [hheard, true_and] at hguarded
  rw [← hguarded]
  have hbooked := Trace.run_invariant (fun _ _ _ (hbooked : Booked _) hstep => hbooked.step hstep)
    hbooked hrun
  constructor
  · exact fun hsettled _ id hpending => by simp [hsettled.pending id] at hpending
  · intro hheard
    have hpending : ∀ id, state.pending id = false := fun id =>
      Bool.eq_false_of_not_eq_true fun hpending =>
        hheard (by rw [hended.stopped]; rfl) id hpending (hended.sent id)
    refine ⟨hpending, fun id method hmethod => ?_⟩
    rcases hbooked.answered id method hmethod with hheld | hanswered
    · cases (hpending id).symm.trans hheld
    · exact hanswered

/-- The child exits with a request pending. -/
theorem settled_iff_inTime_of_exit :
    ∃ state, Trace.run (step (fun _ => none) fun _ => "") {} [.request "initialize" .null, .send 1,
        .closeStdout, .finish, .deliverEof] = some state ∧
      (Settled state ↔ Trace.Guarded (step (fun _ => none) fun _ => "") InTime {}
        [.request "initialize" .null, .send 1, .closeStdout, .finish, .deliverEof]) := by
  refine ⟨_, rfl, settled_iff_inTime rfl ⟨rfl, fun id => ?_⟩⟩
  by_cases hid : id = 1
  · subst hid
    rfl
  · simp [State.register, State.clear]

/-- A request that comes after the end of stdout while the write loop still lives. -/
theorem request_outlives_reader :
    ¬ ∀ (parse : String → Option Json) (printJson : Json → String) (trace : List Action)
      (state : State), Trace.run (step parse printJson) {} trace = some state → Ended state →
        Settled state := by
  intro hall
  have hsettled := hall (fun _ => none) (fun _ => "") [.closeStdout, .finish, .deliverEof,
    .request "session/prompt" .null, .send 1] _ rfl ⟨rfl, fun id => ?_⟩
  · cases hsettled.pending 1
  · by_cases hid : id = 1
    · subst hid
      rfl
    · simp [State.register, State.clear, hid]

end Heard

end JsonRpc

end Keel
