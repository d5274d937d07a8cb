import Keel.Dsh.Surface

/-! # The session and its caches

A session appends to its log and answers three questions about it: the message history, the
request header in force, and the request context. Each answer is kept together with how far
it has read, and is brought up to date when it is asked for.
-/

set_option linter.dupNamespace false

namespace Keel.Session

open List

/-- The call was refused, or ran into an `expect` or an index out of range. -/
inductive Fault where
  | refused (reason : String)
  | panicked

section Derived

def canonicalHeader (header : EpochHeader) : EpochHeader where
  config := header.config
  adapterDefaults := header.adapterDefaults.filter fun defaults =>
    defaults.reasoningEffort = some true ∨ defaults.maxTokens = some true
  system := header.system.filter fun system => !system.isEmpty
  tools := header.tools.filter fun tools => !tools.isEmpty

def foldRequestHeader (events : List Event) (start : Option EpochHeader) : Option EpochHeader :=
  events.foldl (fun state event =>
    match event.data with
    | .requestHeader header _ => some (canonicalHeader header)
    | _ => state) start

/-- The loop of `request_context`. -/
def foldRequestContext (events : List Event) (start : Option RequestContext) :
    Option RequestContext :=
  events.foldl (fun state event =>
    match event.data with
    | .requestContext context => some context
    | _ => state) start

/-- The message of an event; an empty assistant message only carries its usage. -/
def deriveEventMessage (event : Event) : Option Message :=
  match event.data with
  | .userMessage message => some message
  | .assistantMessage _ _ message _ => if message.content.isEmpty then none else some message
  | .toolResult _ _ message _ _ => some message
  | _ => none

end Derived

/-- Where an event joins the surface, and what it cites. -/
structure SurfaceIntent where
  surfaceOp : Option SurfaceOp := none
  sourceEventSeqs : Option (List Nat) := none

structure Session where
  log : List Event
  surface : SurfaceManager
  header : Header
  firstLiveSeq : Nat
  /-- Set while an append publishes. -/
  appending : Bool := false
  derived : List Message := []
  derivedNodes : Nat := 0
  derivedGeneration : Nat := 0
  headerFold : Option EpochHeader := none
  headerFoldSeq : Nat := 0
  contextFold : Option RequestContext := none
  contextFoldSeq : Nat := 0

namespace Session

/-- Validate, append and commit one event. -/
def accept (session : SurfaceLog) (event : Event) : Except Fault SurfaceLog :=
  match session.manager.validateNext session.log event with
  | .error reason => .error (.refused reason)
  | .ok () =>
    match session.manager.commit (session.log ++ [event]) with
    | none => .error .panicked
    | some manager => .ok { log := session.log ++ [event], manager }

/-- `append` up to its publication, which stays open. -/
def append (session : Session) (now : Nat) (data : EventData) (intent : SurfaceIntent) :
    Except Fault Event × Session :=
  if session.appending then
    (.error (.refused "session append cannot reenter while another append is being published"),
      session)
  else
    let event : Event :=
      { seq := session.log.length, time := now, data
        sourceEventSeqs := intent.sourceEventSeqs, surfaceOp := intent.surfaceOp }
    match accept ⟨session.log, session.surface⟩ event with
    | .error fault => (.error fault, session)
    | .ok next =>
      (.ok event, { session with log := next.log, surface := next.manager, appending := true })

def published (session : Session) : Session := { session with appending := false }

/-- The events of a seed, one after the other. -/
def seedEvents : SurfaceLog → List Event → Except Fault SurfaceLog
  | session, [] => .ok session
  | session, event :: rest =>
    let index := session.log.length
    if event.seq ≠ index then
      .error (.refused ("seed event at index " ++ toString index ++ " has seq " ++
        toString event.seq ++ " (expected " ++ toString index ++
        "); seed must be contiguous from 0"))
    else match accept session event with
      | .error (.refused reason) =>
        .error (.refused ("invalid seed event at index " ++ toString index ++ ": " ++ reason))
      | .error .panicked => .error .panicked
      | .ok next => seedEvents next rest

def validateHeader (id : String) (header : Header) : Except Fault Unit :=
  if header.version ≠ sessionFormatVersion then
    .error (.refused ("session header version must be " ++ toString sessionFormatVersion ++
      ", got " ++ toString header.version))
  else if header.id ≠ id then
    .error (.refused ("session header id \"" ++ header.id ++ "\" does not match session id \"" ++
      id ++ "\""))
  else match header.cwd with
    | none => .ok ()
    | some cwd =>
      if cwd.toList.head? = some '/' then .ok ()
      else .error (.refused ("session header cwd must be an absolute path, got \"" ++ cwd ++
        "\""))

def endsWithMarker (log : List Event) : Bool :=
  match log.getLast? with
  | some event =>
    match event.data with
    | .sessionEndSeed => true
    | _ => false
  | none => false

/-- The header given, if it is valid, or a new one. -/
def headerFor (now : Nat) (id : String) : Option Header → Except Fault Header
  | some header => do
      validateHeader id header
      pure header
  | none => pure { version := sessionFormatVersion, id, createdAt := now }

/-- The session over a validated seed, with nothing derived. -/
def seeded (surface : SurfaceLog) (header : Header) : Session :=
  { log := surface.log, surface := surface.manager, header, firstLiveSeq := surface.log.length }

/-- A detached session over a seed, which ends in a marker. -/
def create (now : Nat) (id : String) (seed : List Event) (header : Option Header) :
    Except Fault Session := do
  let surface ← seedEvents {} seed
  let header ← headerFor now id header
  let session := seeded surface header
  if seed ≠ [] ∧ !endsWithMarker session.log then
    match session.append now .sessionEndSeed {} with
    | (.error fault, _) => .error fault
    | (.ok _, session) => pure session.published
  else pure session

def requestHeader (session : Session) : Option EpochHeader × Session :=
  let session :=
    if session.headerFoldSeq < session.log.length then
      { session with
        headerFold :=
          foldRequestHeader (session.log.drop session.headerFoldSeq) session.headerFold
        headerFoldSeq := session.log.length }
    else session
  (session.headerFold, session)

def requestContext (session : Session) : Option RequestContext × Session :=
  let session :=
    if session.contextFoldSeq < session.log.length then
      { session with
        contextFold :=
          foldRequestContext (session.log.drop session.contextFoldSeq) session.contextFold
        contextFoldSeq := session.log.length }
    else session
  (session.contextFold, session)

/-- The messages of some nodes; `none` when one is not in the log. -/
def deriveNodes (log : List Event) (nodes : List Nat) : Option (List Message) :=
  (nodes.mapM fun seq => log[seq]?).map fun events => events.filterMap deriveEventMessage

/-- `none` is a slice or an index out of range. -/
def deriveMessages (session : Session) : Option (List Message × Session) :=
  let session :=
    if session.surface.replaceGeneration ≠ session.derivedGeneration then
      { session with
        derived := []
        derivedNodes := 0
        derivedGeneration := session.surface.replaceGeneration }
    else session
  let nodes := session.surface.nodes
  if nodes.length < session.derivedNodes then none
  else
    (deriveNodes session.log (nodes.drop session.derivedNodes)).map fun messages =>
      let derived := session.derived ++ messages
      (derived, { session with derived, derivedNodes := nodes.length })

section Acceptance

variable {session : SurfaceLog} {event : Event}

theorem accept_spec {replacements : List SurfaceFoldReplacement}
    (hsession : session.Replayed replacements) (event : Event) :
    (∃ reason, accept session event = .error (.refused reason)) ∨
      ∃ next found, accept session event = .ok next ∧ next.log = session.log ++ [event] ∧
        next.Replayed found := by
  rcases hsession.offer event with ⟨reason, hvalidate, -⟩ | ⟨next, found, hvalidate, hoffer, hnext⟩
  · exact .inl ⟨reason, by simp only [accept, hvalidate]⟩
  · simp only [offer, hvalidate] at hoffer
    obtain ⟨manager, hcommit, rfl⟩ := Option.map_eq_some_iff.mp hoffer
    exact .inr ⟨_, found, by simp only [accept, hvalidate, hcommit], hnext⟩

/-- An accepted event is behind the log, and the surface is as its plan left it. -/
theorem accept_ok {replacements : List SurfaceFoldReplacement}
    (hsession : session.Replayed replacements) {next : SurfaceLog}
    (haccept : accept session event = .ok next) :
    next.log = session.log ++ [event] ∧ (∃ found, next.Replayed found) ∧
      ∃ plan, Planned session.manager.state event session.log plan ∧
        next.manager.state = (applySurfacePlan session.manager.state plan).1 := by
  rcases accept_spec hsession event with ⟨reason, hrefused⟩ | ⟨other, found, htaken, hlog, hnext⟩
  · rw [hrefused] at haccept
    cases haccept
  · rw [htaken] at haccept
    cases haccept
    refine ⟨hlog, ⟨found, hnext⟩, ?_⟩
    simp only [accept, SurfaceManager.validateNext] at htaken
    cases hplan : planSurfaceEvent session.manager.state event session.log.length session.log 0 with
    | error reason => simp [hplan, bind, Except.bind] at htaken
    | ok plan =>
      simp only [hplan, bind, Except.bind, pure, Except.pure, hsession.commit hplan] at htaken
      cases htaken
      exact ⟨plan, (planned_of_planSurfaceEvent hplan).2, rfl⟩

theorem accept_of_plan {replacements : List SurfaceFoldReplacement}
    (hsession : session.Replayed replacements) {plan : Option SurfacePlan}
    (hplan : planSurfaceEvent session.manager.state event session.log.length session.log 0 =
      .ok plan) :
    ∃ next found, accept session event = .ok next ∧ next.log = session.log ++ [event] ∧
      next.Replayed found := by
  rcases accept_spec hsession event with ⟨reason, hrefused⟩ | haccepted
  · have hvalidate : session.manager.validateNext session.log event = .ok () := by
      simp only [SurfaceManager.validateNext, hplan, bind, Except.bind, pure, Except.pure]
    simp only [accept, hvalidate] at hrefused
    split at hrefused <;> cases hrefused
  · exact haccepted

theorem accept_plain {replacements : List SurfaceFoldReplacement}
    (hsession : session.Replayed replacements) (hseq : event.seq = session.log.length)
    (hop : surfaceOpOf event = .ok none) :
    ∃ next found, accept session event = .ok next ∧ next.log = session.log ++ [event] ∧
      next.Replayed found := by
  have hplan : planSurfaceEvent session.manager.state event session.log.length session.log 0 =
      .ok none := by
    simp only [planSurfaceEvent, hseq, ne_eq, not_true_eq_false, if_false, hop]
  exact accept_of_plan hsession hplan

/-- An event that joins the surface at its tail is accepted when its sources are. -/
theorem accept_appended {replacements : List SurfaceFoldReplacement}
    (hsession : session.Replayed replacements) (hseq : event.seq = session.log.length)
    (hop : surfaceOpOf event = .ok (some .append))
    (hsources : assertProvenance event [] = .ok ()) :
    ∃ next found, accept session event = .ok next ∧ next.log = session.log ++ [event] ∧
      next.Replayed found := by
  have hplan : planSurfaceEvent session.manager.state event session.log.length session.log 0 =
      .ok (some (.append event.seq)) := by
    simp only [planSurfaceEvent, hseq, ne_eq, not_true_eq_false, if_false, hop, hsources, bind,
      Except.bind, pure, Except.pure]
  exact accept_of_plan hsession hplan

theorem seedEvents_cons (session : SurfaceLog) {event : Event} {rest : List Event}
    {final : SurfaceLog} :
    seedEvents session (event :: rest) = .ok final ↔ event.seq = session.log.length ∧
      ∃ next, accept session event = .ok next ∧ seedEvents next rest = .ok final := by
  simp only [seedEvents]
  split
  next hseq => simp [hseq]
  next hseq =>
    rw [not_not.mp hseq]
    cases haccept : accept session event with
    | error fault => cases fault <;> simp
    | ok next => simp

theorem seedEvents_append {first second : List Event} {final : SurfaceLog} :
    seedEvents session (first ++ second) = .ok final ↔
      ∃ middle, seedEvents session first = .ok middle ∧ seedEvents middle second = .ok final := by
  induction first generalizing session with
  | nil => simp [seedEvents]
  | cons event rest ih =>
    simp only [cons_append, seedEvents_cons, ih]
    constructor
    · rintro ⟨hseq, next, haccept, middle, hrest, hsecond⟩
      exact ⟨middle, ⟨hseq, next, haccept, hrest⟩, hsecond⟩
    · rintro ⟨middle, ⟨hseq, next, haccept, hrest⟩, hsecond⟩
      exact ⟨hseq, next, haccept, middle, hrest, hsecond⟩

theorem seedEvents_spec {replacements : List SurfaceFoldReplacement} {seed : List Event}
    {final : SurfaceLog} (hsession : session.Replayed replacements)
    (hseed : seedEvents session seed = .ok final) :
    final.log = session.log ++ seed ∧ Contiguous session.log.length seed ∧
      ∃ found, final.Replayed found := by
  induction seed generalizing session replacements with
  | nil =>
    cases hseed
    exact ⟨(append_nil _).symm, trivial, replacements, hsession⟩
  | cons event rest ih =>
    obtain ⟨hseq, next, haccept, hrest⟩ := (seedEvents_cons session).mp hseed
    obtain ⟨hlog, ⟨found, hnext⟩, -⟩ := accept_ok hsession haccept
    obtain ⟨hfinal, hcontiguous, hreplayed⟩ := ih hnext hrest
    rw [hlog] at hfinal hcontiguous
    refine ⟨by rw [hfinal, append_assoc, singleton_append], ⟨hseq, ?_⟩, hreplayed⟩
    rwa [length_append, length_singleton] at hcontiguous

end Acceptance

section Creation

/-- The log of a session with its manager. -/
def surfaceLog (session : Session) : SurfaceLog := ⟨session.log, session.surface⟩

variable {session : Session} {replacements : List SurfaceFoldReplacement}

/-- An append is refused, or it commits its event and opens the publication. -/
theorem append_spec (hsession : session.surfaceLog.Replayed replacements) (now : Nat)
    (data : EventData) (intent : SurfaceIntent) :
    (∃ reason, session.append now data intent = (.error (.refused reason), session)) ∨
      ∃ event surface, session.append now data intent =
          (.ok event, { session with log := session.log ++ [event], surface, appending := true }) ∧
        event.seq = session.log.length ∧ event.data = data ∧ session.appending = false ∧
        accept session.surfaceLog event = .ok ⟨session.log ++ [event], surface⟩ := by
  rw [append]
  split
  · exact .inl ⟨_, rfl⟩
  next hidle =>
    dsimp only
    rcases accept_spec hsession { seq := session.log.length, time := now, data
                                  sourceEventSeqs := intent.sourceEventSeqs
                                  surfaceOp := intent.surfaceOp } with
      ⟨reason, hrefused⟩ | ⟨⟨log, manager⟩, found, haccept, rfl, hnext⟩
    · rw [surfaceLog] at hrefused
      rw [hrefused]
      exact .inl ⟨reason, rfl⟩
    · refine .inr ⟨_, manager, ?_, rfl, rfl, Bool.eq_false_of_not_eq_true hidle, haccept⟩
      rw [surfaceLog] at haccept
      rw [haccept]

theorem append_plain (hsession : session.surfaceLog.Replayed replacements)
    (hidle : session.appending = false) (now : Nat) (data : EventData)
    (hop : surfaceOpOf { seq := session.log.length, time := now, data } = .ok none) :
    ∃ event next, session.append now data {} = (.ok event, next) := by
  obtain ⟨next, found, haccept, -⟩ := accept_plain hsession rfl hop
  rw [surfaceLog] at haccept
  rw [append, hidle, if_neg (by decide)]
  dsimp only
  rw [haccept]
  exact ⟨_, _, rfl⟩

/-- What every read of a session starts from. -/
structure Fresh (session : Session) : Prop where
  idle : session.appending = false
  derived : session.derived = [] ∧ session.derivedNodes = 0 ∧ session.derivedGeneration = 0
  headerFold : session.headerFold = none ∧ session.headerFoldSeq = 0
  contextFold : session.contextFold = none ∧ session.contextFoldSeq = 0

theorem create_spec {now : Nat} {id : String} {seed : List Event} {header : Option Header}
    (hcreate : create now id seed header = .ok session) :
    ∃ surface given found, seedEvents {} seed = .ok surface ∧ headerFor now id header = .ok given ∧
      session.header = given ∧ session.Fresh ∧ session.surfaceLog.Replayed found ∧
      (session.log = seed ∨ ∃ marker, marker.data = .sessionEndSeed ∧ session.log = seed ++ [marker])
      := by
  obtain ⟨surface, hseed, hcreate⟩ := bind_eq_ok.1 hcreate
  obtain ⟨given, hgiven, hcreate⟩ := bind_eq_ok.1 hcreate
  obtain ⟨hlog, -, found, hreplayed⟩ := seedEvents_spec replayed_start hseed
  refine ⟨surface, given, ?_⟩
  dsimp only at hcreate
  split at hcreate
  · rcases @append_spec (seeded surface given) _ hreplayed now .sessionEndSeed {} with
      ⟨reason, hrefused⟩ | ⟨event, manager, happend, -, hdata, -, haccept⟩
    · rw [hrefused] at hcreate
      cases hcreate
    · rw [happend] at hcreate
      cases hcreate
      obtain ⟨-, ⟨later, hnext⟩, -⟩ := accept_ok hreplayed haccept
      exact ⟨later, hseed, hgiven, rfl, ⟨rfl, ⟨rfl, rfl, rfl⟩, ⟨rfl, rfl⟩, rfl, rfl⟩, hnext,
        .inr ⟨event, hdata, congrArg (· ++ [event]) hlog⟩⟩
  · cases hcreate
    exact ⟨found, hseed, hgiven, rfl, ⟨rfl, ⟨rfl, rfl, rfl⟩, ⟨rfl, rfl⟩, rfl, rfl⟩, hreplayed,
      .inl hlog⟩

theorem create_of_seed {now : Nat} {id : String} {seed : List Event} {header : Option Header}
    {surface : SurfaceLog} {given : Header} (hseed : seedEvents {} seed = .ok surface)
    (hgiven : headerFor now id header = .ok given) :
    ∃ session, create now id seed header = .ok session := by
  obtain ⟨-, -, found, hreplayed⟩ := seedEvents_spec replayed_start hseed
  simp only [create, hseed, hgiven, bind, Except.bind]
  split
  · obtain ⟨marker, next, hmarker⟩ :=
      @append_plain (seeded surface given) _ hreplayed rfl now .sessionEndSeed rfl
    rw [hmarker]
    exact ⟨_, rfl⟩
  · exact ⟨_, rfl⟩

end Creation

end Session

end Keel.Session
