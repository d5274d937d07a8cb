import Keel.Dsh.SessionLog
import Keel.Foundation.Trace

/-! # The ordered surface over the session log

The surface is the model-visible view of the message-producing events: an appended event
joins at the tail, a replacement shadows a range of the surface. The log stays the source of
truth: replaying it gives the surface that the manager keeps incrementally.
-/

namespace Keel.Session

open List

def isSurfaceEligibleType (eventType : String) : Bool :=
  eventType == "user/message" || eventType == "assistant/message" || eventType == "tool/result"

structure SurfaceFoldReplacement where
  seq : Nat
  first : Nat
  last : Nat
  shadowedSeqs : List Nat

structure SurfaceFoldResult where
  nodes : List Nat
  replacements : List SurfaceFoldReplacement

structure FoldState where
  nodes : List Nat := []
  replaceGeneration : Nat := 0

inductive SurfacePlan where
  | append (seq : Nat)
  | replace (seq first last startIdx endIdx : Nat) (shadowed : List Nat)

def surfaceOpOf (event : Event) : Except String (Option SurfaceOp) :=
  let eventType := event.data.eventType
  if !isSurfaceEligibleType eventType then
    if event.surfaceOp.isSome then
      .error ("session event \"" ++ eventType ++
        "\" is not surface-eligible and cannot carry surfaceOp")
    else if event.sourceEventSeqs.isSome then
      .error ("session event \"" ++ eventType ++
        "\" is not surface-eligible and cannot carry sourceEventSeqs")
    else .ok none
  else match event.surfaceOp with
    | none => .error ("session event \"" ++ eventType ++
        "\" is surface-eligible and requires a surfaceOp marker")
    | some op => .ok (some op)

/-- The declared sources, each earlier than the event and named once. -/
def collectSources (seq : Nat) : List Nat → List Nat → Except String (List Nat)
  | sources, [] => .ok sources
  | sources, source :: rest =>
    if source ∈ sources then .error "sourceEventSeqs must not contain duplicates"
    else if seq ≤ source then
      .error ("sourceEventSeqs must reference earlier events: " ++ toString source ++
        " >= current seq " ++ toString seq)
    else collectSources seq (sources ++ [source]) rest

def assertProvenance (event : Event) (shadowed : List Nat) : Except String Unit := do
  let raw := event.sourceEventSeqs.getD []
  if event.sourceEventSeqs = some [] ∧ event.data.eventType ≠ "assistant/message" then
    .error "sourceEventSeqs must not be empty except on assistant/message"
  let sources ← collectSources event.seq [] raw
  let missing := shadowed.filter fun seq => seq ∉ sources
  if missing ≠ [] then
    .error ("surface replace: sourceEventSeqs must include every shadowed surface node; missing "
      ++ ", ".intercalate (missing.map toString))

/-- A message with the inner content of its leading tool result removed. -/
def stripContent (message : Message) : Message :=
  { message with
    content := match message.content with
      | .toolResult toolCallId _ isError :: rest => .toolResult toolCallId [] isError :: rest
      | content => content }

def assertToolResultRewrite (event : Event) (shadowed : List Nat) (events : List Event)
    (baseSeq : Nat) : Except String Unit :=
  match event.data with
  | .toolResult turn step message error toolMeta =>
    match shadowed with
    | [originalSeq] =>
      match events[originalSeq - baseSeq]? with
      | none => .error "tool/result surface replacement must target a current tool/result"
      | some original =>
        match original.data with
        | .toolResult originalTurn originalStep originalMessage originalError originalMeta =>
          if turn ≠ originalTurn ∨ step ≠ originalStep ∨ error ≠ originalError ∨
              toolMeta ≠ originalMeta ∨ stripContent message ≠ stripContent originalMessage then
            .error "tool/result surface replacement may change only content"
          else .ok ()
        | _ => .error "tool/result surface replacement must target a current tool/result"
    | _ => .error "tool/result surface replacement must rewrite exactly one current node"
  | _ => .ok ()

/-- The index of a sequence number in the surface. -/
def position (nodes : List Nat) (seq : Nat) (bound : String) : Except String Nat :=
  match nodes.findIdx? fun node => node = seq with
  | some index => .ok index
  | none => .error ("surface replace: " ++ bound ++ " seq " ++ toString seq ++
      " not found in surface")

def planReplace (state : FoldState) (event : Event) (first last : Nat) (events : List Event)
    (baseSeq : Nat) : Except String (Option SurfacePlan) := do
  let startIdx ← position state.nodes first "start"
  let endIdx ← position state.nodes last "end"
  if endIdx < startIdx then
    .error ("surface replace: start seq " ++ toString first ++ " (index " ++ toString startIdx ++
      ") is after end seq " ++ toString last ++ " (index " ++ toString endIdx ++ ")")
  else
    let shadowed := (state.nodes.take (endIdx + 1)).drop startIdx
    assertProvenance event shadowed
    assertToolResultRewrite event shadowed events baseSeq
    pure (some (.replace event.seq first last startIdx endIdx shadowed))

def planSurfaceEvent (state : FoldState) (event : Event) (expectedSeq : Nat)
    (events : List Event) (baseSeq : Nat) : Except String (Option SurfacePlan) :=
  if event.seq ≠ expectedSeq then
    .error ("session event seq " ++ toString event.seq ++ " is not contiguous; expected " ++
      toString expectedSeq)
  else match surfaceOpOf event with
    | .error reason => .error reason
    | .ok none => .ok none
    | .ok (some .append) => do
        assertProvenance event []
        pure (some (.append event.seq))
    | .ok (some (.replace first last)) => planReplace state event first last events baseSeq

def applySurfacePlan (state : FoldState) :
    Option SurfacePlan → FoldState × Option SurfaceFoldReplacement
  | none => (state, none)
  | some (.append seq) => ({ state with nodes := state.nodes ++ [seq] }, none)
  | some (.replace seq first last startIdx endIdx shadowed) =>
    ({ nodes := state.nodes.take startIdx ++ seq :: state.nodes.drop (endIdx + 1)
       replaceGeneration := state.replaceGeneration + 1 },
      some { seq, first, last, shadowedSeqs := shadowed })

/-- Plan and apply the events from an index on, over the whole log. -/
def foldEvents (log : List Event) : List Event → Nat → FoldState → List SurfaceFoldReplacement →
    Except String (FoldState × List SurfaceFoldReplacement)
  | [], _, state, replacements => .ok (state, replacements)
  | event :: rest, index, state, replacements => do
      let plan ← planSurfaceEvent state event index log 0
      let (next, replacement) := applySurfacePlan state plan
      foldEvents log rest (index + 1) next (replacements ++ replacement.toList)

def foldSurface (events : List Event) : Except String SurfaceFoldResult := do
  let (state, replacements) ← foldEvents events events 0 {} []
  pure { nodes := state.nodes, replacements }

structure SurfaceManager where
  state : FoldState := {}
  processed : Nat := 0

namespace SurfaceManager

def nodes (manager : SurfaceManager) : List Nat := manager.state.nodes

def replaceGeneration (manager : SurfaceManager) : Nat := manager.state.replaceGeneration

/-- Validate a candidate against the log without touching the committed surface. -/
def validateNext (manager : SurfaceManager) (log : List Event) (event : Event) :
    Except String Unit := do
  let _ ← planSurfaceEvent manager.state event log.length log 0
  pure ()

/-- Fold the events the manager has not processed; `none` when one of them does not plan. -/
def commitEvents (log : List Event) : List Event → SurfaceManager → Option SurfaceManager
  | [], manager => some manager
  | event :: rest, manager =>
    match planSurfaceEvent manager.state event manager.processed log 0 with
    | .error _ => none
    | .ok plan =>
      commitEvents log rest
        { state := (applySurfacePlan manager.state plan).1
          processed := manager.processed + 1 }

def commit (manager : SurfaceManager) (log : List Event) : Option SurfaceManager :=
  commitEvents log (log.drop manager.processed) manager

end SurfaceManager

/-- A log and its manager. -/
structure SurfaceLog where
  log : List Event := []
  manager : SurfaceManager := {}

/-- Offer a candidate: an accepted one is appended and committed, a refused one is dropped.
`none` is the panic of `commit`. -/
def offer (session : SurfaceLog) (candidate : Event) : Option SurfaceLog :=
  match session.manager.validateNext session.log candidate with
  | .error _ => some session
  | .ok () =>
    (session.manager.commit (session.log ++ [candidate])).map fun manager =>
      { log := session.log ++ [candidate], manager }

theorem bind_eq_ok {ε α β : Type} {first : Except ε α} {second : α → Except ε β} {value : β} :
    first >>= second = .ok value ↔ ∃ middle, first = .ok middle ∧ second middle = .ok value := by
  cases first with
  | error e | ok middle => simp [bind, Except.bind]

section Locality

variable {log later : List Event} {state : FoldState} {event : Event}

theorem assertToolResultRewrite_append {shadowed : List Nat}
    (hshadowed : ∀ seq ∈ shadowed, seq < log.length) :
    assertToolResultRewrite event shadowed (log ++ later) 0 =
      assertToolResultRewrite event shadowed log 0 := by
  unfold assertToolResultRewrite
  cases event.data with
  | toolResult turn step message error toolMeta =>
    match shadowed with
    | [] => rfl
    | [originalSeq] =>
      have horiginal : originalSeq < log.length := hshadowed originalSeq (mem_singleton_self _)
      simp only [Nat.sub_zero, getElem?_append_left horiginal]
    | _ :: _ :: _ => rfl
  | _ => rfl

theorem planSurfaceEvent_append (hnodes : ∀ seq ∈ state.nodes, seq < log.length)
    (expectedSeq : Nat) :
    planSurfaceEvent state event expectedSeq (log ++ later) 0 =
      planSurfaceEvent state event expectedSeq log 0 := by
  have hrewrite : ∀ startIdx endIdx,
      assertToolResultRewrite event ((state.nodes.take (endIdx + 1)).drop startIdx) (log ++ later) 0 =
        assertToolResultRewrite event ((state.nodes.take (endIdx + 1)).drop startIdx) log 0 := by
    intro startIdx endIdx
    apply assertToolResultRewrite_append
    intro seq hseq
    exact hnodes seq (mem_of_mem_take (mem_of_mem_drop hseq))
  simp only [planSurfaceEvent, planReplace, hrewrite]

/-- The ways an event plans, each with what the planner has checked. -/
inductive Planned (state : FoldState) (event : Event) (log : List Event) :
    Option SurfacePlan → Prop where
  | skip (hop : surfaceOpOf event = .ok none) : Planned state event log none
  | append (hop : surfaceOpOf event = .ok (some .append))
      (hsources : assertProvenance event [] = .ok ()) :
      Planned state event log (some (.append event.seq))
  | replace {first last startIdx endIdx : Nat}
      (hop : surfaceOpOf event = .ok (some (.replace first last)))
      (hstart : position state.nodes first "start" = .ok startIdx)
      (hend : position state.nodes last "end" = .ok endIdx) (horder : startIdx ≤ endIdx)
      (hsources :
        assertProvenance event ((state.nodes.take (endIdx + 1)).drop startIdx) = .ok ())
      (hrewrite : assertToolResultRewrite event ((state.nodes.take (endIdx + 1)).drop startIdx)
        log 0 = .ok ()) :
      Planned state event log (some (.replace event.seq first last startIdx endIdx
        ((state.nodes.take (endIdx + 1)).drop startIdx)))

variable {plan : Option SurfacePlan}

theorem planned_of_planSurfaceEvent {expectedSeq : Nat}
    (hplan : planSurfaceEvent state event expectedSeq log 0 = .ok plan) :
    event.seq = expectedSeq ∧ Planned state event log plan := by
  unfold planSurfaceEvent at hplan
  split at hplan
  · cases hplan
  next hseq =>
    refine ⟨not_not.mp hseq, ?_⟩
    split at hplan
    · cases hplan
    next hop =>
      cases hplan
      exact .skip hop
    next hop =>
      obtain ⟨⟨⟩, hsources, hplan⟩ := bind_eq_ok.1 hplan
      cases hplan
      exact .append hop hsources
    next first last hop =>
      obtain ⟨startIdx, hstart, hplan⟩ := bind_eq_ok.1 hplan
      obtain ⟨endIdx, hend, hplan⟩ := bind_eq_ok.1 hplan
      split at hplan
      · cases hplan
      next horder =>
        obtain ⟨⟨⟩, hsources, hplan⟩ := bind_eq_ok.1 hplan
        obtain ⟨⟨⟩, hrewrite, hplan⟩ := bind_eq_ok.1 hplan
        cases hplan
        exact .replace hop hstart hend (Nat.le_of_not_lt horder) hsources hrewrite

/-- A plan puts the event's own number on the surface, if anything. -/
inductive PlansAt (seq : Nat) : Option SurfacePlan → Prop where
  | none : PlansAt seq none
  | append : PlansAt seq (some (.append seq))
  | replace (first last startIdx endIdx : Nat) (shadowed : List Nat) :
      PlansAt seq (some (.replace seq first last startIdx endIdx shadowed))

theorem plansAt_of_planSurfaceEvent {expectedSeq : Nat}
    (hplan : planSurfaceEvent state event expectedSeq log 0 = .ok plan) :
    PlansAt expectedSeq plan := by
  obtain ⟨rfl, hplanned⟩ := planned_of_planSurfaceEvent hplan
  cases hplanned with
  | skip => exact .none
  | append => exact .append
  | replace => exact .replace _ _ _ _ _

theorem PlansAt.nodes_lt {seq : Nat} (hplan : PlansAt seq plan)
    (hnodes : ∀ node ∈ state.nodes, node < seq) :
    ∀ node ∈ (applySurfacePlan state plan).1.nodes, node < seq + 1 := by
  intro node hnode
  have hlater : ∀ node ∈ state.nodes, node < seq + 1 := fun node hmem =>
    (hnodes node hmem).trans (Nat.lt_succ_self seq)
  cases hplan with
  | none => exact hlater node hnode
  | append =>
    rcases mem_append.mp hnode with hold | hnew
    · exact hlater node hold
    · obtain rfl := mem_singleton.mp hnew
      exact Nat.lt_succ_self node
  | replace first last startIdx endIdx shadowed =>
    rcases mem_append.mp hnode with hbefore | hafter
    · exact hlater node (mem_of_mem_take hbefore)
    · rcases mem_cons.mp hafter with rfl | hrest
      · exact Nat.lt_succ_self node
      · exact hlater node (mem_of_mem_drop hrest)

theorem applySurfacePlan_generation (plan : Option SurfacePlan) :
    (applySurfacePlan state plan).1.replaceGeneration =
      state.replaceGeneration + (applySurfacePlan state plan).2.toList.length := by
  cases plan with
  | none => rfl
  | some plan => cases plan <;> rfl

end Locality

section Fold

variable {log later rest : List Event} {index : Nat} {state : FoldState}
  {replacements : List SurfaceFoldReplacement}

/-- A fold over a part of the log does not see what is appended behind the log. -/
theorem foldEvents_append_log (hbound : index + rest.length ≤ log.length)
    (hnodes : ∀ node ∈ state.nodes, node < index) :
    foldEvents (log ++ later) rest index state replacements =
      foldEvents log rest index state replacements := by
  induction rest generalizing index state replacements with
  | nil => rfl
  | cons event rest ih =>
    rw [length_cons] at hbound
    have hheld : ∀ node ∈ state.nodes, node < log.length := fun node hmem =>
      (hnodes node hmem).trans_le (by omega)
    simp only [foldEvents, planSurfaceEvent_append hheld]
    cases hplan : planSurfaceEvent state event index log 0 with
    | error reason => rfl
    | ok plan =>
      exact ih (by omega) ((plansAt_of_planSurfaceEvent hplan).nodes_lt hnodes)

theorem foldEvents_append (first second : List Event) :
    foldEvents log (first ++ second) index state replacements =
      (foldEvents log first index state replacements).bind fun (next, found) =>
        foldEvents log second (index + first.length) next found := by
  induction first generalizing index state replacements with
  | nil => rfl
  | cons event rest ih =>
    simp only [cons_append, foldEvents, length_cons]
    cases planSurfaceEvent state event index log 0 with
    | error reason => rfl
    | ok plan =>
      have hindex : index + (rest.length + 1) = index + 1 + rest.length := by omega
      rw [hindex]
      exact ih

end Fold

/-- The manager has folded its whole log: replaying the log gives its state. -/
structure SurfaceLog.Replayed (session : SurfaceLog)
    (replacements : List SurfaceFoldReplacement) : Prop where
  processed : session.manager.processed = session.log.length
  fold : foldEvents session.log session.log 0 {} [] = .ok (session.manager.state, replacements)
  generation : session.manager.state.replaceGeneration = replacements.length
  nodes : ∀ node ∈ session.manager.state.nodes, node < session.log.length

theorem replayed_start : ({} : SurfaceLog).Replayed [] where
  processed := rfl
  fold := rfl
  generation := rfl
  nodes := nofun

theorem SurfaceLog.Replayed.commit {session : SurfaceLog}
    {replacements : List SurfaceFoldReplacement} (hsession : session.Replayed replacements)
    {candidate : Event} {plan : Option SurfacePlan}
    (hplan : planSurfaceEvent session.manager.state candidate session.log.length session.log 0 =
      .ok plan) :
    session.manager.commit (session.log ++ [candidate]) = some
      { state := (applySurfacePlan session.manager.state plan).1
        processed := session.manager.processed + 1 } := by
  have happended : planSurfaceEvent session.manager.state candidate session.log.length
      (session.log ++ [candidate]) 0 = .ok plan := by
    rw [planSurfaceEvent_append hsession.nodes, hplan]
  simp only [SurfaceManager.commit, hsession.processed, drop_left,
    SurfaceManager.commitEvents, happended]

/-- A refused candidate changes nothing; an accepted one is committed, and the longer log
replays to the manager's state. -/
theorem SurfaceLog.Replayed.offer {session : SurfaceLog}
    {replacements : List SurfaceFoldReplacement} (hsession : session.Replayed replacements)
    (candidate : Event) :
    (∃ reason, session.manager.validateNext session.log candidate = .error reason ∧
        Session.offer session candidate = some session) ∨
      ∃ next found, session.manager.validateNext session.log candidate = .ok () ∧
        Session.offer session candidate = some next ∧
        next.log = session.log ++ [candidate] ∧ next.Replayed found := by
  cases hplan : planSurfaceEvent session.manager.state candidate session.log.length session.log 0 with
  | error reason =>
    have hvalidate : session.manager.validateNext session.log candidate = .error reason := by
      simp only [SurfaceManager.validateNext, hplan, bind, Except.bind]
    refine .inl ⟨reason, hvalidate, ?_⟩
    simp only [Session.offer, hvalidate]
  | ok plan =>
    have hvalidate : session.manager.validateNext session.log candidate = .ok () := by
      simp only [SurfaceManager.validateNext, hplan, bind, Except.bind, pure, Except.pure]
    have happended : planSurfaceEvent session.manager.state candidate session.log.length
        (session.log ++ [candidate]) 0 = .ok plan := by
      rw [planSurfaceEvent_append hsession.nodes, hplan]
    have hcommit := hsession.commit hplan
    have hoffer : Session.offer session candidate = some
        { log := session.log ++ [candidate]
          manager :=
            { state := (applySurfacePlan session.manager.state plan).1
              processed := session.manager.processed + 1 } } := by
      simp only [Session.offer, hvalidate, hcommit, Option.map_some]
    refine .inr ⟨_, replacements ++ (applySurfacePlan session.manager.state plan).2.toList,
      hvalidate, hoffer, rfl, ?_⟩
    refine
      { processed := by simp [hsession.processed]
        fold := ?_
        generation := ?_
        nodes := ?_ }
    · have hprior : foldEvents (session.log ++ [candidate]) session.log 0 {} [] =
          .ok (session.manager.state, replacements) := by
        rw [foldEvents_append_log (Nat.zero_add _).le, hsession.fold]
        intro node hnode
        cases hnode
      rw [foldEvents_append, hprior]
      simp only [Except.bind, Nat.zero_add, foldEvents, happended, bind]
    · rw [applySurfacePlan_generation, hsession.generation, length_append]
    · rw [length_append]
      exact (plansAt_of_planSurfaceEvent hplan).nodes_lt hsession.nodes

/-- Offering any candidates never panics, and afterwards, so after each of them, replaying
the log gives the manager's nodes and as many replacements as its generation. A refused
candidate changes neither. -/
theorem surface_eq_replay (candidates : List Event) :
    ∃ session result, Trace.run offer {} candidates = some session ∧
      foldSurface session.log = .ok result ∧
      result.nodes = session.manager.nodes ∧
      result.replacements.length = session.manager.replaceGeneration ∧
      ∀ candidate reason, session.manager.validateNext session.log candidate = .error reason →
        ∃ next, offer session candidate = some next ∧
          next.manager.nodes = session.manager.nodes ∧
          next.manager.replaceGeneration = session.manager.replaceGeneration := by
  have hrun : ∀ (candidates : List Event) (session : SurfaceLog) replacements,
      session.Replayed replacements →
      ∃ final found, Trace.run offer session candidates = some final ∧ final.Replayed found := by
    intro candidates
    induction candidates with
    | nil => exact fun session replacements hsession => ⟨session, replacements, rfl, hsession⟩
    | cons candidate rest ih =>
      intro session replacements hsession
      rcases hsession.offer candidate with ⟨_, -, hrefused⟩ | ⟨next, found, -, hnext, -, hreplayed⟩
      · simp only [Trace.run, hrefused]
        exact ih session replacements hsession
      · simp only [Trace.run, hnext]
        exact ih next found hreplayed
  obtain ⟨session, replacements, hfinal, hsession⟩ := hrun candidates {} [] replayed_start
  refine ⟨session, ⟨session.manager.nodes, replacements⟩, hfinal, ?_, rfl,
    hsession.generation.symm, ?_⟩
  · simp only [foldSurface, hsession.fold, bind, Except.bind, pure, Except.pure,
      SurfaceManager.nodes]
  · intro candidate reason hreason
    refine ⟨session, ?_, rfl, rfl⟩
    simp only [offer, hreason]

end Keel.Session
