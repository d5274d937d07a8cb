import Keel.Dsh.SurfacePartition
import Keel.Dsh.Session
import Mathlib.Data.List.Induction

/-! # The caches of a session agree with recomputation

Each cache holds what a prefix gives: a prefix of the log for the header and the context, a
prefix of the surface for the messages as long as no replacement has been committed. Appends
extend these prefixes or change the generation, and a read brings its cache up to the whole.
-/

namespace Keel.Session

open List Option

section Recomputation

/-- The context of the last event that carries one. -/
def lastRequestContext (log : List Event) : Option RequestContext :=
  (log.filterMap fun event =>
    match event.data with
    | .requestContext context => some context
    | _ => none).getLast?

/-- The messages of the events at some nodes. -/
def messagesOf (log : List Event) (nodes : List Nat) : List Message :=
  nodes.filterMap fun seq => log[seq]?.bind deriveEventMessage

theorem foldRequestHeader_append (first second : List Event) (start : Option EpochHeader) :
    foldRequestHeader (first ++ second) start =
      foldRequestHeader second (foldRequestHeader first start) :=
  foldl_append

theorem foldRequestContext_append (first second : List Event) (start : Option RequestContext) :
    foldRequestContext (first ++ second) start =
      foldRequestContext second (foldRequestContext first start) :=
  foldl_append

theorem foldRequestContext_eq (log : List Event) :
    foldRequestContext log none = lastRequestContext log := by
  induction log using List.reverseRecOn with
  | nil => rfl
  | append_singleton log event ih =>
    rw [foldRequestContext_append, ih, lastRequestContext, lastRequestContext,
      filterMap_append]
    cases hdata : event.data <;> simp [foldRequestContext, hdata]

theorem deriveNodes_eq {log : List Event} {nodes : List Nat}
    (hnodes : ∀ node ∈ nodes, node < log.length) :
    Session.deriveNodes log nodes = some (messagesOf log nodes) := by
  have hevents : nodes.mapM (fun seq => log[seq]?) =
      some (nodes.filterMap fun seq => log[seq]?) := by
    induction nodes with
    | nil => rfl
    | cons node rest ih =>
      have hnode := getElem?_eq_getElem (hnodes node mem_cons_self)
      rw [mapM_cons, ih fun other hother => hnodes other (mem_cons_of_mem _ hother),
        filterMap_cons, hnode]
      rfl
  rw [Session.deriveNodes, hevents, map_some, filterMap_filterMap]
  rfl

theorem messagesOf_concat {log : List Event} {nodes : List Nat}
    (hnodes : ∀ node ∈ nodes, node < log.length) (event : Event) :
    messagesOf (log ++ [event]) nodes = messagesOf log nodes := by
  refine filterMap_congr fun node hnode => ?_
  rw [getElem?_append_left (hnodes node hnode)]

theorem messagesOf_append (log : List Event) (first second : List Nat) :
    messagesOf log (first ++ second) = messagesOf log first ++ messagesOf log second :=
  filterMap_append

end Recomputation

/-- What may happen to a session: an append, with its publication open until `published`,
and the three reads. -/
inductive CacheAction where
  | append (now : Nat) (data : EventData) (intent : SurfaceIntent)
  | published
  | deriveMessages
  | requestHeader
  | requestContext

/-- `none` is a panic; a refused append is a step that is enabled. -/
def cacheStep (session : Session) : CacheAction → Option Session
  | .append now data intent =>
    match session.append now data intent with
    | (.error .panicked, _) => none
    | (_, next) => some next
  | .published => some session.published
  | .deriveMessages => session.deriveMessages.map Prod.snd
  | .requestHeader => some session.requestHeader.2
  | .requestContext => some session.requestContext.2

/-- Every cache holds what a prefix gives. -/
structure Cached (session : Session) : Prop where
  replayed : ∃ replacements, session.surfaceLog.Replayed replacements
  headerSeq : session.headerFoldSeq ≤ session.log.length
  header : session.headerFold = foldRequestHeader (session.log.take session.headerFoldSeq) none
  contextSeq : session.contextFoldSeq ≤ session.log.length
  context : session.contextFold =
    foldRequestContext (session.log.take session.contextFoldSeq) none
  generation : session.derivedGeneration ≤ session.surface.replaceGeneration
  derived : session.derivedGeneration = session.surface.replaceGeneration →
    session.derivedNodes ≤ session.surface.nodes.length ∧
      session.derived =
        messagesOf session.log (session.surface.nodes.take session.derivedNodes)

namespace Cached

variable {session : Session}

theorem of_fresh {replacements : List SurfaceFoldReplacement} (hfresh : session.Fresh)
    (hreplayed : session.surfaceLog.Replayed replacements) : Cached session where
  replayed := ⟨replacements, hreplayed⟩
  headerSeq := by rw [hfresh.headerFold.2]; exact Nat.zero_le _
  header := by rw [hfresh.headerFold.1, hfresh.headerFold.2]; rfl
  contextSeq := by rw [hfresh.contextFold.2]; exact Nat.zero_le _
  context := by rw [hfresh.contextFold.1, hfresh.contextFold.2]; rfl
  generation := by rw [hfresh.derived.2.2]; exact Nat.zero_le _
  derived := by
    intro _
    rw [hfresh.derived.1, hfresh.derived.2.1]
    exact ⟨Nat.zero_le _, rfl⟩

section
variable (hcached : Cached session)
include hcached

theorem nodes_lt : ∀ node ∈ session.surface.nodes, node < session.log.length := by
  obtain ⟨replacements, hreplayed⟩ := hcached.replayed
  exact hreplayed.nodes

theorem requestHeader : session.requestHeader.1 = foldRequestHeader session.log none ∧
      Cached session.requestHeader.2 := by
  simp only [Session.requestHeader]
  split
  next hbehind =>
    have hfold : foldRequestHeader (session.log.drop session.headerFoldSeq) session.headerFold =
        foldRequestHeader session.log none := by
      rw [hcached.header, ← foldRequestHeader_append, take_append_drop]
    refine ⟨hfold, { hcached with headerSeq := Nat.le_refl _, header := ?_ }⟩
    rw [take_length]
    exact hfold
  next hread =>
    refine ⟨?_, hcached⟩
    rw [hcached.header, take_of_length_le (Nat.le_of_not_lt hread)]

theorem requestContext : session.requestContext.1 = lastRequestContext session.log ∧
      Cached session.requestContext.2 := by
  rw [← foldRequestContext_eq]
  simp only [Session.requestContext]
  split
  next hbehind =>
    have hfold : foldRequestContext (session.log.drop session.contextFoldSeq)
        session.contextFold = foldRequestContext session.log none := by
      rw [hcached.context, ← foldRequestContext_append, take_append_drop]
    refine ⟨hfold, { hcached with contextSeq := Nat.le_refl _, context := ?_ }⟩
    rw [take_length]
    exact hfold
  next hread =>
    refine ⟨?_, hcached⟩
    rw [hcached.context, take_of_length_le (Nat.le_of_not_lt hread)]

theorem reset : Cached { session with
    derived := []
    derivedNodes := 0
    derivedGeneration := session.surface.replaceGeneration } :=
  { hcached with
    generation := Nat.le_refl _
    derived := fun _ => ⟨Nat.zero_le _, rfl⟩ }

/-- A memo of the current generation is extended by the messages of the nodes behind it. -/
theorem catchUp (hgeneration : session.derivedGeneration = session.surface.replaceGeneration) :
    ¬ session.surface.nodes.length < session.derivedNodes ∧
      ∃ messages, Session.deriveNodes session.log
          (session.surface.nodes.drop session.derivedNodes) = some messages ∧
        session.derived ++ messages = messagesOf session.log session.surface.nodes := by
  obtain ⟨hnodes, hderived⟩ := hcached.derived hgeneration
  refine ⟨Nat.not_lt.mpr hnodes, _, deriveNodes_eq fun node hnode =>
    hcached.nodes_lt node (mem_of_mem_drop hnode), ?_⟩
  rw [hderived, ← messagesOf_append, take_append_drop]

end

theorem read (hcached : Cached session) :
    Cached { session with
      derived := messagesOf session.log session.surface.nodes
      derivedNodes := session.surface.nodes.length } :=
  { hcached with
    derived := fun _ => ⟨Nat.le_refl _, by rw [take_length]⟩ }

/-- Reading the messages never panics, and gives those of the whole surface. -/
theorem deriveMessages (hcached : Cached session) :
    ∃ next, session.deriveMessages = some (messagesOf session.log session.surface.nodes, next) ∧
      Cached next := by
  simp only [Session.deriveMessages]
  split
  · obtain ⟨hnodes, messages, hmessages, hall⟩ := hcached.reset.catchUp rfl
    rw [if_neg hnodes, hmessages, map_some, hall]
    exact ⟨_, rfl, hcached.reset.read⟩
  next hsame =>
    have hgeneration := (not_not.mp hsame).symm
    obtain ⟨hnodes, messages, hmessages, hall⟩ := hcached.catchUp hgeneration
    rw [if_neg hnodes, hmessages, map_some, hall]
    exact ⟨_, rfl, hcached.read⟩

theorem appending (hcached : Cached session) (appending : Bool) :
    Cached { session with appending } :=
  { hcached with }

theorem committed (hcached : Cached session) {event : Event} {surface : SurfaceManager}
    (haccept : Session.accept session.surfaceLog event = .ok ⟨session.log ++ [event], surface⟩) :
    Cached { session with log := session.log ++ [event], surface } := by
  obtain ⟨replacements, hreplayed⟩ := hcached.replayed
  obtain ⟨-, hnext, plan, hplanned, hstate⟩ := Session.accept_ok hreplayed haccept
  have htake : ∀ count ≤ session.log.length,
      (session.log ++ [event]).take count = session.log.take count := fun count hcount =>
    take_append_of_le_length hcount
  have hlater : ∀ count ≤ session.log.length, count ≤ (session.log ++ [event]).length :=
    fun count hcount => by rw [length_append]; omega
  refine
    { replayed := hnext
      headerSeq := hlater _ hcached.headerSeq
      header := by rw [htake _ hcached.headerSeq]; exact hcached.header
      contextSeq := hlater _ hcached.contextSeq
      context := by rw [htake _ hcached.contextSeq]; exact hcached.context
      generation := ?_
      derived := ?_ }
  · have hgrown : surface.replaceGeneration = session.surface.replaceGeneration +
        (applySurfacePlan session.surface.state plan).2.toList.length := by
      rw [SurfaceManager.replaceGeneration, hstate]
      exact applySurfacePlan_generation plan
    exact hcached.generation.trans (hgrown ▸ Nat.le_add_right _ _)
  · intro hgeneration
    have hkept : ∀ tail, surface.state = { session.surface.state with
        nodes := session.surface.nodes ++ tail } →
        session.derivedNodes ≤ surface.nodes.length ∧ session.derived =
          messagesOf (session.log ++ [event]) (surface.nodes.take session.derivedNodes) := by
      intro tail hsurface
      have hnodes : surface.nodes = session.surface.nodes ++ tail := by
        rw [SurfaceManager.nodes, hsurface]
      have hsame : session.derivedGeneration = session.surface.replaceGeneration := by
        rw [hgeneration, SurfaceManager.replaceGeneration, hsurface]
        rfl
      obtain ⟨hlength, hderived⟩ := hcached.derived hsame
      rw [hnodes, take_append_of_le_length hlength, messagesOf_concat fun node hnode =>
        hcached.nodes_lt node (mem_of_mem_take hnode)]
      exact ⟨by rw [length_append]; omega, hderived⟩
    cases hplanned with
    | skip => exact hkept [] (by rw [append_nil]; exact hstate)
    | append => exact hkept [event.seq] hstate
    | replace =>
      have hgrown : surface.replaceGeneration = session.surface.replaceGeneration + 1 := by
        rw [SurfaceManager.replaceGeneration, hstate]
        rfl
      have hbefore := hcached.generation
      have hsame : session.derivedGeneration = session.surface.replaceGeneration + 1 :=
        hgeneration.trans hgrown
      omega

theorem step (hcached : Cached session) (action : CacheAction) :
    ∃ next, cacheStep session action = some next ∧ Cached next := by
  cases action with
  | append now data intent =>
    obtain ⟨replacements, hreplayed⟩ := hcached.replayed
    rcases Session.append_spec hreplayed now data intent with
      ⟨reason, hrefused⟩ | ⟨event, surface, happend, -, -, -, haccept⟩
    · exact ⟨session, by simp only [cacheStep, hrefused], hcached⟩
    · exact ⟨_, by simp only [cacheStep, happend], (hcached.committed haccept).appending true⟩
  | published => exact ⟨_, rfl, hcached.appending false⟩
  | deriveMessages =>
    obtain ⟨next, hread, hnext⟩ := hcached.deriveMessages
    exact ⟨next, by rw [cacheStep, hread, map_some], hnext⟩
  | requestHeader => exact ⟨_, rfl, hcached.requestHeader.2⟩
  | requestContext => exact ⟨_, rfl, hcached.requestContext.2⟩

theorem run (hcached : Cached session) (actions : List CacheAction) :
    ∃ final, Trace.run cacheStep session actions = some final ∧ Cached final := by
  induction actions generalizing session with
  | nil => exact ⟨session, rfl, hcached⟩
  | cons action rest ih =>
    obtain ⟨next, hstep, hnext⟩ := hcached.step action
    simp only [Trace.run, hstep]
    exact ih hnext

end Cached

/-- However appends, accepted or refused, and reads follow each other, the session never
panics, and in every state each read gives what the whole log gives; a refused append leaves
the session as it is. -/
theorem caches_agree (now : Nat) (id : String) (seed : List Event) (header : Option Header)
    (session : Session) (hcreate : Session.create now id seed header = .ok session)
    (actions : List CacheAction) :
    ∃ final result, Trace.run cacheStep session actions = some final ∧
      foldSurface final.log = .ok result ∧
      final.deriveMessages.map Prod.fst =
        some (result.nodes.filterMap fun seq => final.log[seq]?.bind deriveEventMessage) ∧
      final.requestHeader.1 = foldRequestHeader final.log none ∧
      final.requestContext.1 = lastRequestContext final.log ∧
      ∀ now data intent fault, (final.append now data intent).1 = .error fault →
        cacheStep final (.append now data intent) = some final := by
  obtain ⟨-, -, found, -, -, -, hfresh, hreplayed, -⟩ := Session.create_spec hcreate
  obtain ⟨final, hrun, hfinal⟩ := (Cached.of_fresh hfresh hreplayed).run actions
  obtain ⟨replacements, hsurface⟩ := hfinal.replayed
  obtain ⟨next, hread, -⟩ := hfinal.deriveMessages
  refine ⟨final, ⟨final.surface.nodes, replacements⟩, hrun, ?_, ?_, hfinal.requestHeader.1,
    hfinal.requestContext.1, ?_⟩
  · have hfold := hsurface.fold
    rw [Session.surfaceLog] at hfold
    simp only [foldSurface, hfold, bind, Except.bind, pure, Except.pure, SurfaceManager.nodes]
  · rw [hread]
    rfl
  · intro now data intent fault hfault
    rcases Session.append_spec hsurface now data intent with ⟨reason, hrefused⟩ | ⟨_, _, happend, -⟩
    · simp only [cacheStep, hrefused]
    · rw [happend] at hfault
      cases hfault

/-- A message is read, replaced while its publication is over, and read again. -/
def replacedRun : List CacheAction :=
  [.append 1 (.userMessage ⟨"long", .user, [.text "long"], .user⟩) { surfaceOp := some .append },
    .append 1 (.userMessage ⟨"nested", .user, [], .user⟩) { surfaceOp := some .append },
    .deriveMessages, .published,
    .append 2 (.userMessage ⟨"short", .user, [.text "short"], .user⟩)
      { surfaceOp := some (.replace 0 0), sourceEventSeqs := some [0] },
    .deriveMessages, .published, .requestHeader]

theorem caches_agree_replacedRun : ∃ final result,
    Trace.run cacheStep (Session.seeded {} ⟨0, "session", 0, none, none, none, none, none, none⟩)
      replacedRun = some final ∧
    foldSurface final.log = .ok result ∧
    final.deriveMessages.map Prod.fst =
      some (result.nodes.filterMap fun seq => final.log[seq]?.bind deriveEventMessage) := by
  obtain ⟨final, result, hrun, hfold, hread, -⟩ := caches_agree 0 "session" [] none _ rfl replacedRun
  exact ⟨final, result, hrun, hfold, hread⟩

end Keel.Session
