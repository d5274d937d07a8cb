import Keel.Dsh.Session
import Keel.Dsh.SurfacePartition

/-! # The runtime context of an agent

The projection remembers the last runtime-context snapshot of a session and proposes a new one
only when the context has changed. It is restored once from the surface and then follows the
log. The two readings part when a replacement cites the newest snapshot on the surface and
leaves one there: the live projection forgets it, the restored one finds it.
-/

set_option linter.dupNamespace false

namespace Keel.RuntimeContext

open List Option

open Session (Message ContextForm ContextSnapshotSection EventData Event SurfaceOp Header)
open Session (Session Fault SurfaceIntent SurfaceFoldReplacement FoldState SurfacePlan)
open Session (isSurfaceEligibleType applySurfacePlan Planned Contiguous)

def source : String := "dsh-system-prompt"

def cleared : String :=
  "Current runtime context: none. Earlier runtime-context snapshots no longer apply."

def isOwned (message : Message) : Bool :=
  match message.source with
  | .plugin plugin _ => plugin == source
  | _ => false

def textOf (message : Message) : Option String :=
  match message.content with
  | [.text text] => some text
  | _ => none

/-- The event carries its required surface marker. -/
def isSurfaceEvent (event : Event) : Bool :=
  isSurfaceEligibleType event.data.eventType && event.surfaceOp.isSome

/-- The event shadowed a range of the surface instead of appending. -/
def isReplacementSurfaceEvent (event : Event) : Bool :=
  (match event.surfaceOp with
    | some (.replace ..) => true
    | _ => false) && isSurfaceEvent event

inductive Retained where
  /-- No snapshot ever existed. -/
  | never
  /-- A snapshot existed but none is currently retained on the surface. -/
  | none
  | some (seq : Nat) (text : Option String)
deriving DecidableEq

def ownedMessage : EventData → Option Message
  | .userMessage message => if isOwned message then some message else none
  | _ => none

structure RuntimeContextProjection where
  retained : Retained
  /-- Log position the projection has consumed. -/
  consumed : Nat

namespace RuntimeContextProjection

/-- The scan of `new`, from the newest event back. -/
def restore (surface : List Nat) : List Event → Retained → Retained
  | [], retained => retained
  | event :: rest, retained =>
    match ownedMessage event.data with
    | none => restore surface rest retained
    | some message =>
      if event.seq ∈ surface then .some event.seq (textOf message)
      else restore surface rest (if retained = .never then .none else retained)

def new (session : Session) : RuntimeContextProjection where
  retained := restore session.surface.nodes session.log.reverse .never
  consumed := session.log.length

/-- The body of the loop of `catch_up`. -/
def follow (retained : Retained) (event : Event) : Retained :=
  match ownedMessage event.data with
  | some message => .some event.seq (textOf message)
  | none =>
    match retained with
    | .some seq _ =>
      if isReplacementSurfaceEvent event ∧ seq ∈ event.sourceEventSeqs.getD [] then .none
      else retained
    | _ => retained

def catchUp (projection : RuntimeContextProjection) (session : Session) :
    RuntimeContextProjection where
  retained := (session.log.drop projection.consumed).foldl follow projection.retained
  consumed := session.log.length

/-- The message a retained snapshot calls for, under a new id. -/
def propose (retained : Retained) (current : String) (sections : List ContextSnapshotSection)
    (id : String) : Option Message :=
  if retained = .never ∧ current = "" then none
  else
    let snapshot := if current = "" then cleared else current
    let message : Message :=
      { id, role := .user, content := [.text snapshot]
        source := .plugin source (if sections = [] then none else some (.snapshot sections)) }
    match retained with
    | .some _ (some text) => if text = snapshot then none else some message
    | _ => some message

def project (projection : RuntimeContextProjection) (session : Session) (current : String)
    (sections : List ContextSnapshotSection) (id : String) :
    Option Message × RuntimeContextProjection :=
  let projection := projection.catchUp session
  (propose projection.retained current sections id, projection)

end RuntimeContextProjection

section Answers

open RuntimeContextProjection

/-- The text a retained snapshot stands for; an empty one is never asked for. -/
def Retained.spoken : Retained → Option String
  | .some _ text => text.filter fun text => text ≠ ""
  | _ => Option.none

variable {retained other : Retained} {current : String} {sections : List ContextSnapshotSection}
  {id : String}

theorem propose_eq_none : propose retained current sections id = none ↔
    (retained = .never ∧ current = "") ∨
      ∃ seq, retained = .some seq (some (if current = "" then cleared else current)) := by
  rw [propose]
  split
  next hnever => simp [hnever]
  next hasked =>
    dsimp only
    split
    next seq text =>
      split
      next hsame => simp [hsame]
      next hdiffers => simp [hdiffers]
    next hunsaid =>
      simp only [hasked, false_or, reduceCtorEq, false_iff, not_exists]
      exact fun seq hretained => hunsaid seq _ hretained

theorem textOf_propose {message : Message} (hmessage :
    propose retained current sections id = some message) :
    textOf message = some (if current = "" then cleared else current) := by
  rw [propose] at hmessage
  split at hmessage
  · cases hmessage
  · generalize (if current = "" then cleared else current) = snapshot at hmessage ⊢
    dsimp only at hmessage
    split at hmessage
    next _ text _ =>
      by_cases hsame : text = snapshot
      · rw [if_pos hsame] at hmessage
        cases hmessage
      · rw [if_neg hsame] at hmessage
        exact Option.some.inj hmessage ▸ rfl
    · exact Option.some.inj hmessage ▸ rfl

theorem map_textOf_propose_eq :
    (propose retained current sections id).map textOf = (propose other current sections id).map textOf ↔
      (propose retained current sections id = none ↔ propose other current sections id = none) := by
  cases hleft : propose retained current sections id with
  | none => cases hright : propose other current sections id <;> simp
  | some left =>
    cases hright : propose other current sections id with
    | none => simp
    | some right => simp [textOf_propose hleft, textOf_propose hright]

theorem exists_retained_iff {text : String} (htext : text ≠ "") :
    (∃ seq, retained = .some seq (some text)) ↔ retained.spoken = some text := by
  cases retained with
  | never | none => simp [Retained.spoken]
  | some seq found =>
    simp only [Retained.spoken, Retained.some.injEq, exists_eq_left', filter_eq_some_iff,
      decide_eq_true_eq]
    exact ⟨fun hfound => ⟨hfound, htext⟩, fun hfound => hfound.1⟩

/-- Two snapshots answer every question alike when they are alike in having existed and in the
text they stand for. -/
theorem answers_eq_iff :
    (∀ current sections id, (propose retained current sections id).map textOf =
      (propose other current sections id).map textOf) ↔
      (retained = .never ↔ other = .never) ∧ retained.spoken = other.spoken := by
  have hcleared : cleared ≠ "" := by decide
  have hnone : ∀ (retained : Retained) current sections id,
      propose retained current sections id = none ↔ (retained = .never ∧ current = "") ∨
        retained.spoken = some (if current = "" then cleared else current) := by
    intro retained current sections id
    rw [propose_eq_none, exists_retained_iff]
    split <;> assumption
  simp only [map_textOf_propose_eq, hnone]
  constructor
  · intro hsame
    have hspoken : ∀ text, text ≠ "" → (retained.spoken = some text ↔ other.spoken = some text) := by
      intro text htext
      simpa [htext] using hsame text [] ""
    have hcases : ∀ retained : Retained, ∀ text ∈ retained.spoken, text ≠ "" := by
      intro retained text htext
      cases retained with
      | never | none => cases htext
      | some seq found => exact of_decide_eq_true (filter_eq_some_iff.mp htext).2
    have heq : retained.spoken = other.spoken := by
      refine Option.ext fun text => ?_
      by_cases htext : text = ""
      · exact ⟨fun h => absurd htext (hcases _ text h), fun h => absurd htext (hcases _ text h)⟩
      · exact hspoken text htext
    refine ⟨?_, heq⟩
    have hempty := hsame "" [] ""
    simp only [and_true, if_true, heq] at hempty
    constructor
    · rintro rfl
      rcases hempty.mp (.inl rfl) with hnever | hsaid
      · exact hnever
      · exact absurd (heq.trans hsaid) nofun
    · rintro rfl
      rcases hempty.mpr (.inl rfl) with hnever | hsaid
      · exact hnever
      · cases hsaid
  · intro ⟨hnever, hspoken⟩ current sections id
    rw [hnever, hspoken]

end Answers

section Scan

open RuntimeContextProjection

/-- The event holds a snapshot that is on the surface. -/
def Shown (surface : List Nat) (event : Event) : Bool :=
  (ownedMessage event.data).isSome && surface.contains event.seq

def newest (surface : List Nat) (log : List Event) : Option Event :=
  log.reverse.find? (Shown surface)

theorem data_of_ownedMessage {data : EventData} {message : Message}
    (howned : ownedMessage data = some message) : data = .userMessage message := by
  cases data with
  | userMessage other =>
    simp only [ownedMessage] at howned
    split at howned
    · exact congrArg EventData.userMessage (Option.some.inj howned)
    · cases howned
  | _ => cases howned

variable {surface kept : List Nat} {log events : List Event} {event : Event} {retained : Retained}
  {message : Message}

/-- What a projection keeps of the event that holds its snapshot. -/
def snapshotOf (event : Event) : Retained :=
  .some event.seq ((ownedMessage event.data).bind textOf)

theorem restore_eq : restore surface events retained =
    match events.find? (Shown surface) with
    | some event => snapshotOf event
    | none =>
      if retained = .never ∧ events.any (fun event => (ownedMessage event.data).isSome) then .none
      else retained := by
  induction events generalizing retained with
  | nil => simp [restore]
  | cons event rest ih =>
    rw [restore]
    cases howned : ownedMessage event.data with
    | none => simp [ih, Shown, howned]
    | some message =>
      by_cases hshown : event.seq ∈ surface
      · simp [Shown, howned, hshown, snapshotOf]
      · have hhidden : Shown surface event = false := by simp [Shown, howned, hshown]
        simp only [hshown, if_false, ih, find?_cons, hhidden, any_cons, howned,
          isSome_some, Bool.true_or, and_true]
        cases rest.find? (Shown surface) with
        | some found => rfl
        | none => by_cases hnever : retained = .never <;> simp [hnever]

theorem new_retained (session : Session) : (new session).retained =
    match newest session.surface.nodes session.log with
    | some event => snapshotOf event
    | none =>
      if session.log.any (fun event => (ownedMessage event.data).isSome) then .none else .never := by
  rw [new, restore_eq, newest]
  simp only [any_reverse, true_and]

theorem newest_eq_some : newest surface log = some event →
    event ∈ log ∧ (ownedMessage event.data).isSome ∧ event.seq ∈ surface := by
  intro hnewest
  have hshown := find?_some hnewest
  simp only [Shown, Bool.and_eq_true, contains_eq_mem, decide_eq_true_eq] at hshown
  exact ⟨mem_reverse.mp (mem_of_find?_eq_some hnewest), hshown⟩

theorem newest_congr (hsame : ∀ event ∈ log, (event.seq ∈ surface ↔ event.seq ∈ kept)) :
    newest surface log = newest kept log := by
  rw [newest, newest, ← head?_filter, ← head?_filter, filter_congr]
  intro event hevent
  simp only [Shown, contains_eq_mem, hsame event (mem_reverse.mp hevent)]

theorem newest_of_kept (hnewest : newest surface log = some event)
    (hfewer : ∀ seq ∈ kept, seq ∈ surface) (hstays : event.seq ∈ kept) :
    newest kept log = some event := by
  obtain ⟨hshown, later, earlier, hlog, hlater⟩ := find?_eq_some_iff_append.mp hnewest
  refine find?_eq_some_iff_append.mpr ⟨?_, later, earlier, hlog, fun other hother => ?_⟩
  · simp only [Shown, Bool.and_eq_true] at hshown ⊢
    exact ⟨hshown.1, by simpa using hstays⟩
  · have hhidden := hlater other hother
    simp only [Shown, Bool.not_eq_true', Bool.and_eq_false_iff, contains_eq_mem,
      decide_eq_false_iff_not] at hhidden ⊢
    exact hhidden.imp_right fun hmissing hkept => hmissing (hfewer _ hkept)

theorem newest_concat_of_owned (howned : ownedMessage event.data = some message)
    (hshown : event.seq ∈ surface) : newest surface (log ++ [event]) = some event := by
  rw [newest, reverse_append, reverse_singleton, singleton_append,
    find?_cons_of_pos]
  simp [Shown, howned, hshown]

theorem newest_concat_of_other (hother : ownedMessage event.data = none) :
    newest surface (log ++ [event]) = newest surface log := by
  rw [newest, reverse_append, reverse_singleton, singleton_append,
    find?_cons_of_neg, newest]
  simp [Shown, hother]

end Scan

section Replacement

/-- The nodes outside a range of the surface. -/
def survivors (nodes : List Nat) (first last : Nat) : List Nat :=
  nodes.takeWhile (fun node => node ≠ first) ++ (nodes.dropWhile fun node => node ≠ last).tail

variable {state : FoldState} {log : List Event} {event : Event} {nodes : List Nat}
  {first last startIdx endIdx : Nat}

theorem findIdx_of_position {seq index : Nat} {bound : String}
    (hposition : Session.position nodes seq bound = .ok index) :
    nodes.findIdx (fun node => node = seq) = index := by
  unfold Session.position at hposition
  split at hposition
  next found hfound =>
    cases hposition
    exact (findIdx?_eq_some_iff_findIdx_eq.mp hfound).2
  · cases hposition

theorem survivors_eq (hstart : Session.position nodes first "start" = .ok startIdx)
    (hend : Session.position nodes last "end" = .ok endIdx) :
    survivors nodes first last = nodes.take startIdx ++ nodes.drop (endIdx + 1) := by
  rw [survivors, takeWhile_eq_take_findIdx_not, dropWhile_eq_drop_findIdx_not,
    tail_drop]
  simp only [ne_eq, decide_not, Bool.not_not, findIdx_of_position hstart, findIdx_of_position hend]

theorem mem_of_mem_survivors {seq : Nat} (hseq : seq ∈ survivors nodes first last) : seq ∈ nodes := by
  rcases mem_append.mp hseq with hbefore | hafter
  · exact (takeWhile_sublist _).mem hbefore
  · exact (dropWhile_sublist _).mem (mem_of_mem_tail hafter)

theorem mem_survivors (hstart : Session.position nodes first "start" = .ok startIdx)
    (hend : Session.position nodes last "end" = .ok endIdx) {seq : Nat} (hseq : seq ∈ nodes)
    (hspared : seq ∉ (nodes.take (endIdx + 1)).drop startIdx) :
    seq ∈ survivors nodes first last := by
  rw [survivors_eq hstart hend, mem_append]
  rw [← take_append_drop (endIdx + 1) nodes] at hseq
  rcases mem_append.mp hseq with hbefore | hafter
  · rw [← take_append_drop startIdx (nodes.take (endIdx + 1))] at hbefore
    rcases mem_append.mp hbefore with hkept | hshadowed
    · rw [take_take] at hkept
      exact .inl (take_subset_take_left _ (Nat.min_le_left _ _) hkept)
    · exact absurd hshadowed hspared
  · exact .inr hafter

theorem seq_lt_of_replayed {session : Session.SurfaceLog}
    {replacements : List SurfaceFoldReplacement} (hsession : session.Replayed replacements) :
    ∀ event ∈ session.log, event.seq < session.log.length := by
  intro event hevent
  have hstart : Session.Partitioned [] {} [] := ⟨trivial, .refl _, nofun⟩
  have hcontiguous : Contiguous 0 session.log := (hstart.fold rfl hsession.fold).contiguous
  obtain ⟨index, hindex⟩ := List.getElem?_of_mem hevent
  rw [hcontiguous.seq_eq hindex, Nat.zero_add]
  exact (List.getElem?_eq_some_iff.mp hindex).1

variable {plan : Option SurfacePlan} {message : Message}

theorem newest_of_owned (hplan : Planned state event log plan)
    (howned : ownedMessage event.data = some message) :
    newest (applySurfacePlan state plan).1.nodes (log ++ [event]) = some event := by
  apply newest_concat_of_owned howned
  cases hplan with
  | skip hop =>
    have heligible := Session.surfaceOpOf_none hop
    rw [data_of_ownedMessage howned] at heligible
    exact absurd heligible (by simp [isSurfaceEligibleType, EventData.eventType])
  | append | replace => simp [applySurfacePlan]

/-- What another event makes of the newest snapshot: nothing, unless it replaces a range. -/
inductive Displaced (state : FoldState) (log : List Event) (event : Event)
    (later : Option Event) : Prop where
  | kept (hop : ∀ first last, event.surfaceOp ≠ some (.replace first last))
      (hlater : later = newest state.nodes log)
  | replaced {first last : Nat} (hop : event.surfaceOp = some (.replace first last))
      (hreplacement : isReplacementSurfaceEvent event = true)
      (hlater : later = newest (survivors state.nodes first last) log)
      (hspared : ∀ snapshot, newest state.nodes log = some snapshot →
        snapshot.seq ∉ event.sourceEventSeqs.getD [] →
        newest (survivors state.nodes first last) log = some snapshot)

theorem surfaceOp_of_surfaceOpOf {op : Option SurfaceOp}
    (hop : Session.surfaceOpOf event = .ok op) : event.surfaceOp = op := by
  simp only [Session.surfaceOpOf] at hop
  split at hop
  · split at hop
    · cases hop
    next hmarker =>
      split at hop
      · cases hop
      · cases hop
        simpa using hmarker
  · split at hop
    · cases hop
    next marker hmarker =>
      cases hop
      exact hmarker

theorem displaced_of_planned (hplan : Planned state event log plan)
    (hearlier : ∀ other ∈ log, other.seq < event.seq)
    (hother : ownedMessage event.data = none) :
    Displaced state log event
      (newest (applySurfacePlan state plan).1.nodes (log ++ [event])) := by
  have hdiffers : ∀ other ∈ log, other.seq ≠ event.seq := fun other hmem =>
    (hearlier other hmem).ne
  rw [newest_concat_of_other hother]
  cases hplan with
  | skip hop =>
    refine .kept (fun first last hreplace => ?_) rfl
    rw [surfaceOp_of_surfaceOpOf hop] at hreplace
    cases hreplace
  | append hop =>
    refine .kept (fun first last hreplace => ?_) (newest_congr fun other hmem => ?_)
    · rw [surfaceOp_of_surfaceOpOf hop] at hreplace
      cases hreplace
    · simp [applySurfacePlan, hdiffers other hmem]
  | replace hop hstart hend horder hsources hrewrite =>
    have hmarker := surfaceOp_of_surfaceOpOf hop
    refine .replaced hmarker ?_ (newest_congr fun other hmem => ?_) fun snapshot hsnapshot hcited => ?_
    · simp [isReplacementSurfaceEvent, isSurfaceEvent, hmarker, Session.surfaceOpOf_some hop]
    · simp [applySurfacePlan, survivors_eq hstart hend, hdiffers other hmem]
    · obtain ⟨-, -, hshown⟩ := newest_eq_some hsnapshot
      obtain ⟨-, hcovers⟩ := Session.assertProvenance_ok hsources
      exact newest_of_kept hsnapshot (fun seq => mem_of_mem_survivors)
        (mem_survivors hstart hend hshown fun hshadowed => hcited (hcovers _ hshadowed))

end Replacement

section Runs

open RuntimeContextProjection

structure State where
  session : Session
  live : RuntimeContextProjection

inductive Action where
  | append (now : Nat) (data : EventData) (intent : SurfaceIntent)
  | published
  | project (current : String) (sections : List ContextSnapshotSection) (id : String)

def step (state : State) : Action → Option State
  | .append now data intent =>
    some { state with session := (state.session.append now data intent).2 }
  | .published => some { state with session := state.session.published }
  | .project current sections id =>
    some { state with live := (state.live.project state.session current sections id).2 }

/-- The live projection and one restored from the same session give the same answer. -/
def Agrees (state : State) : Prop :=
  ∀ current sections id,
    ((state.live.project state.session current sections id).1).map textOf =
      (((new state.session).project state.session current sections id).1).map textOf

/-- The event holds a snapshot of one text that is not empty. -/
def Speaks (event : Event) : Prop :=
  ∃ text, (ownedMessage event.data).bind textOf = some text ∧ text ≠ ""

/-- What the live projection retains once it has caught up. -/
def State.caught (state : State) : Retained := (state.live.catchUp state.session).retained

/-- The live projection knows whether a snapshot ever existed, and what it retains is the
newest one on the surface. -/
structure Followed (state : State) : Prop where
  replayed : ∃ replacements, state.session.surfaceLog.Replayed replacements
  consumed : state.live.consumed ≤ state.session.log.length
  existed : state.caught = .never ↔
    state.session.log.any (fun event => (ownedMessage event.data).isSome) = false
  retains : ∀ seq text, state.caught = .some seq text →
    ∃ event, newest state.session.surface.nodes state.session.log = some event ∧
      state.caught = snapshotOf event

variable {state : State} {event : Event}

theorem speaks_iff : Speaks event ↔ (snapshotOf event).spoken ≠ none := by
  simp [Speaks, snapshotOf, Retained.spoken, filter_eq_none_iff]

/-- The answers part only where the live projection has forgotten a snapshot that speaks. -/
theorem Followed.agrees_iff (hstate : Followed state) : Agrees state ↔
    (state.caught = .none → ∀ left,
      newest state.session.surface.nodes state.session.log = some left → ¬ Speaks left) := by
  have hrestored : ((new state.session).catchUp state.session).retained =
      (new state.session).retained := by
    simp [catchUp, new]
  have hanswers : Agrees state ↔ (state.caught = .never ↔ (new state.session).retained = .never) ∧
      state.caught.spoken = (new state.session).retained.spoken := by
    rw [← answers_eq_iff, ← hrestored]
    rfl
  rw [hanswers, new_retained]
  cases hcaught : state.caught with
  | never =>
    have hnone := hstate.existed.mp hcaught
    cases hnewest : newest state.session.surface.nodes state.session.log with
    | none => simp [hnone]
    | some left =>
      obtain ⟨hmem, howned, -⟩ := newest_eq_some hnewest
      exact absurd (any_eq_false.mp hnone left hmem) (not_not.mpr howned)
  | none =>
    have hsome : ¬ _ := fun hnone => nomatch hcaught.symm.trans (hstate.existed.mpr hnone)
    rw [Bool.not_eq_false] at hsome
    cases hnewest : newest state.session.surface.nodes state.session.log with
    | none => simp [hsome]
    | some left =>
      simp only [reduceCtorEq, snapshotOf, iff_self, true_and, Option.some.injEq, forall_eq',
        forall_const, speaks_iff, ne_eq, not_not]
      exact eq_comm
  | some seq text =>
    obtain ⟨left, hnewest, hsame⟩ := hstate.retains seq text hcaught
    rw [hcaught] at hsame
    simp [hnewest, ← hsame]

/-- A state whose session has accepted one more event. -/
structure Accepted (state : State) (event : Event) (next : State) : Prop where
  seq : event.seq = state.session.log.length
  log : next.session.log = state.session.log ++ [event]
  live : next.live = state.live
  accept : Session.accept state.session.surfaceLog event = .ok next.session.surfaceLog

variable {next : State}

theorem Followed.caught_accepted (hstate : Followed state) (haccepted : Accepted state event next) :
    next.caught = follow state.caught event := by
  rw [State.caught, catchUp, haccepted.live, haccepted.log,
    drop_append_of_le_length hstate.consumed, foldl_concat]
  rfl

theorem snapshotOf_of_owned {message : Message} (howned : ownedMessage event.data = some message)
    (retained : Retained) : follow retained event = snapshotOf event := by
  simp [follow, snapshotOf, howned]

section
variable (hstate : Followed state) (haccepted : Accepted state event next)
include hstate haccepted

/-- The newest snapshot after an event: the event itself, or what the event leaves. -/
theorem Followed.newest_accepted : (∀ message, ownedMessage event.data = some message →
      newest next.session.surface.nodes next.session.log = some event) ∧
    (ownedMessage event.data = none → Displaced state.session.surface.state state.session.log event
      (newest next.session.surface.nodes next.session.log)) := by
  obtain ⟨replacements, hreplayed⟩ := hstate.replayed
  obtain ⟨-, -, plan, hplan, hsurface⟩ := Session.accept_ok hreplayed haccepted.accept
  have hnodes : next.session.surface.nodes =
      (applySurfacePlan state.session.surface.state plan).1.nodes := congrArg FoldState.nodes hsurface
  rw [hnodes, haccepted.log]
  refine ⟨fun message howned => newest_of_owned hplan howned, displaced_of_planned hplan ?_⟩
  rw [haccepted.seq]
  exact seq_lt_of_replayed hreplayed

theorem Followed.accepted : Followed next := by
  obtain ⟨replacements, hreplayed⟩ := hstate.replayed
  obtain ⟨-, hnext, -⟩ := Session.accept_ok hreplayed haccepted.accept
  obtain ⟨hnewest, hdisplaced⟩ := hstate.newest_accepted haccepted
  have hcaught := hstate.caught_accepted haccepted
  refine
    { replayed := hnext
      consumed := ?_
      existed := ?_
      retains := ?_ }
  · rw [haccepted.live, haccepted.log, length_append]
    exact hstate.consumed.trans (Nat.le_add_right _ _)
  · rw [hcaught, haccepted.log, any_append, Bool.or_eq_false_iff, ← hstate.existed]
    cases howned : ownedMessage event.data with
    | some message => simp [follow, howned]
    | none =>
      simp only [follow, howned, any_cons, any_nil, isSome_none, Bool.or_false,
        and_true]
      cases state.caught with
      | never | none => rfl
      | some seq text => dsimp only; split <;> simp
  · intro seq text hretained
    cases howned : ownedMessage event.data with
    | some message =>
      exact ⟨event, hnewest message howned, by rw [hcaught, snapshotOf_of_owned howned]⟩
    | none =>
      rw [hcaught] at hretained ⊢
      simp only [follow, howned] at hretained ⊢
      cases hbefore : state.caught with
      | never | none =>
        rw [hbefore] at hretained
        cases hretained
      | some before found =>
        obtain ⟨snapshot, hsnapshot, hsame⟩ := hstate.retains before found hbefore
        rw [hbefore] at hretained hsame
        cases hsame
        dsimp only at hretained ⊢
        split at hretained
        · cases hretained
        next hspares =>
          rw [if_neg hspares]
          refine ⟨snapshot, ?_, rfl⟩
          rcases hdisplaced howned with ⟨hop, hlater⟩ | ⟨hop, hreplacement, hlater, hspared⟩
          · rw [hlater]
            exact hsnapshot
          · rw [hlater]
            exact hspared snapshot hsnapshot fun hcited => hspares ⟨hreplacement, hcited⟩

end

/-- The replacement cites the newest snapshot on the surface and leaves one there that speaks. -/
def LeavesOne (state : State) (event : Event) : Prop :=
  ∃ first last snapshot left, ownedMessage event.data = none ∧
    event.surfaceOp = some (.replace first last) ∧
    newest state.session.surface.nodes state.session.log = some snapshot ∧
    snapshot.seq ∈ event.sourceEventSeqs.getD [] ∧
    newest (survivors state.session.surface.nodes first last) state.session.log = some left ∧
    Speaks left

theorem follow_eq_none {retained : Retained} (hother : ownedMessage event.data = none) :
    follow retained event = .none ↔ retained = .none ∨
      ∃ seq text, retained = .some seq text ∧ isReplacementSurfaceEvent event = true ∧
        seq ∈ event.sourceEventSeqs.getD [] := by
  cases retained with
  | never | none | some seq text => simp [follow, hother]

/-- Through one event the answers stay alike unless it leaves a snapshot behind the one it cites. -/
theorem Followed.agrees_accepted (hstate : Followed state) (hagrees : Agrees state)
    (haccepted : Accepted state event next) : Agrees next ↔ ¬ LeavesOne state event := by
  obtain ⟨hnewest, hdisplaced⟩ := hstate.newest_accepted haccepted
  have hbefore := hstate.agrees_iff.mp hagrees
  rw [(hstate.accepted haccepted).agrees_iff, hstate.caught_accepted haccepted]
  cases howned : ownedMessage event.data with
  | some message =>
    have hcaught := snapshotOf_of_owned howned state.caught
    rw [hcaught]
    exact ⟨fun _ ⟨_, _, _, _, hother, _⟩ => (nomatch howned.symm.trans hother), fun _ => nofun⟩
  | none =>
    rw [follow_eq_none howned]
    rcases hdisplaced howned with ⟨hop, hlater⟩ | ⟨hop, hreplacement, hlater, hspared⟩
    · rw [hlater]
      refine ⟨fun _ ⟨first, last, _, _, _, hreplace, _⟩ => hop first last hreplace, fun _ => ?_⟩
      rintro (hnone | ⟨seq, text, hcaught, hreplacement, -⟩)
      · exact hbefore hnone
      · simp only [isReplacementSurfaceEvent, Bool.and_eq_true] at hreplacement
        cases hreplacement.1
    · rw [hlater]
      constructor
      · rintro hsilent ⟨_, _, snapshot, left, -, hreplace, hsnapshot, hcited, hleft, hspeaks⟩
        obtain ⟨rfl, rfl⟩ := SurfaceOp.replace.inj (mem_unique hop hreplace)
        refine hsilent ?_ left hleft hspeaks
        cases hcaught : state.caught with
        | never =>
          obtain ⟨hmem, hheld, -⟩ := newest_eq_some hsnapshot
          have hnone := any_eq_false.mp (hstate.existed.mp hcaught) snapshot hmem
          exact absurd hheld hnone
        | none => exact .inl rfl
        | some seq text =>
          obtain ⟨found, hfound, hsame⟩ := hstate.retains seq text hcaught
          obtain rfl := mem_unique hfound hsnapshot
          rw [hcaught] at hsame
          cases hsame
          exact .inr ⟨_, _, rfl, hreplacement, hcited⟩
      · intro hleaves hforgot left hleft hspeaks
        -- the newest snapshot before the event is cited, or it is the one left
        cases hsnapshot : newest state.session.surface.nodes state.session.log with
        | none =>
          obtain ⟨hmem, hheld, hkept⟩ := newest_eq_some hleft
          have hshown : left.seq ∈ state.session.surface.nodes := mem_of_mem_survivors hkept
          have hhidden := find?_eq_none.mp hsnapshot left (mem_reverse.mpr hmem)
          simp [Shown, hheld, hshown] at hhidden
        | some snapshot =>
          by_cases hcited : snapshot.seq ∈ event.sourceEventSeqs.getD []
          · exact hleaves ⟨_, _, snapshot, left, howned, hop, hsnapshot, hcited, hleft, hspeaks⟩
          · rcases hforgot with hnone | ⟨seq, text, hcaught, -, hcites⟩
            · obtain rfl := Option.some.inj ((hspared snapshot hsnapshot hcited).symm.trans hleft)
              exact hbefore hnone _ hsnapshot hspeaks
            · obtain ⟨found, hfound, hsame⟩ := hstate.retains seq text hcaught
              obtain rfl := mem_unique hfound hsnapshot
              rw [hcaught] at hsame
              cases hsame
              exact hcited hcites

/-- No action is a replacement that leaves a snapshot behind the one it cites. -/
def LeavesNone (state : State) : Action → Prop
  | .append now data intent => ∀ event,
      (state.session.append now data intent).1 = .ok event → ¬ LeavesOne state event
  | _ => True

theorem Followed.append (hstate : Followed state) (now : Nat) (data : EventData)
    (intent : SurfaceIntent) :
    (∃ fault, state.session.append now data intent = (.error fault, state.session)) ∨
      ∃ event next, state.session.append now data intent = (.ok event, next) ∧
        Accepted state event { state with session := next } := by
  obtain ⟨replacements, hreplayed⟩ := hstate.replayed
  rcases Session.append_spec hreplayed now data intent with
    ⟨reason, hrefused⟩ | ⟨event, surface, happend, hseq, -, -, haccept⟩
  · exact .inl ⟨_, hrefused⟩
  · exact .inr ⟨event, _, happend, hseq, rfl, rfl, haccept⟩

theorem Followed.of_same (hstate : Followed state)
    (hreplayed : next.session.surfaceLog = state.session.surfaceLog)
    (hconsumed : next.live.consumed ≤ next.session.log.length)
    (hcaught : next.caught = state.caught) : Followed next := by
  have hlog : next.session.log = state.session.log := congrArg Session.SurfaceLog.log hreplayed
  have hsurface : next.session.surface = state.session.surface :=
    congrArg Session.SurfaceLog.manager hreplayed
  exact
    { replayed := hreplayed ▸ hstate.replayed
      consumed := hconsumed
      existed := by rw [hcaught, hlog]; exact hstate.existed
      retains := by rw [hcaught, hlog, hsurface]; exact hstate.retains }

theorem caught_project (state : State) (current : String) (sections : List ContextSnapshotSection)
    (id : String) :
    State.caught { state with
      live := (state.live.project state.session current sections id).2 } = state.caught := by
  simp [State.caught, project, catchUp]

theorem Followed.step {action : Action} (hstate : Followed state)
    (hstep : RuntimeContext.step state action = some next) : Followed next := by
  cases action with
  | append now data intent =>
    cases hstep
    rcases hstate.append now data intent with ⟨fault, hrefused⟩ | ⟨event, later, happend, haccepted⟩
    · rw [hrefused]
      exact hstate
    · rw [happend]
      exact hstate.accepted haccepted
  | published =>
    cases hstep
    exact hstate.of_same rfl hstate.consumed rfl
  | project current sections id =>
    cases hstep
    exact hstate.of_same rfl le_rfl (caught_project state current sections id)

theorem followed_start {now : Nat} {id : String} {seed : List Event} {header : Option Header}
    {session : Session} (hcreate : Session.Session.create now id seed header = .ok session) :
    Followed ⟨session, new session⟩ := by
  obtain ⟨_, _, found, -, -, -, -, hreplayed, -⟩ := Session.Session.create_spec hcreate
  have hcaught : State.caught ⟨session, new session⟩ = (new session).retained := by
    simp [State.caught, catchUp, new]
  refine
    { replayed := ⟨found, hreplayed⟩
      consumed := le_rfl
      existed := ?_
      retains := ?_ }
  · rw [hcaught, new_retained]
    cases hnewest : newest session.surface.nodes session.log with
    | none => simp
    | some left =>
      obtain ⟨hmem, howned, -⟩ := newest_eq_some hnewest
      simpa [snapshotOf] using ⟨left, hmem, isSome_iff_ne_none.mp howned⟩
  · intro seq text hretained
    rw [hcaught, new_retained] at hretained ⊢
    cases hnewest : newest session.surface.nodes session.log with
    | none =>
      rw [hnewest] at hretained
      dsimp only at hretained
      split at hretained <;> cases hretained
    | some left => exact ⟨left, rfl, rfl⟩

/-- Whatever is appended and whenever the live projection is asked, it answers as one restored
from the session does, as long as no replacement other than a snapshot cites the newest snapshot
on the surface and leaves one there, older or the same, that is a single text which is not empty. -/
theorem agrees_iff_leavesNone (now : Nat) (id : String) (seed : List Event) (header : Option Header)
    (session : Session) (hcreate : Session.Session.create now id seed header = .ok session)
    (trace : List Action) :
    Trace.Always step Agrees ⟨session, new session⟩ trace ↔
      Trace.Guarded step LeavesNone ⟨session, new session⟩ trace := by
  have hstart : Agrees ⟨session, new session⟩ := fun _ _ _ => rfl
  refine Trace.always_iff_guarded_of_invariant (fun _ _ _ => Followed.step) ?_ ?_
    (followed_start hcreate) hstart
  · intro state action next hstate hagrees hstep
    cases action with
    | append now data intent =>
      cases hstep
      rcases hstate.append now data intent with ⟨fault, hrefused⟩ | ⟨event, later, happend, haccepted⟩
      · simp only [LeavesNone, hrefused, reduceCtorEq, false_implies, implies_true, iff_true]
        exact hagrees
      · simp only [LeavesNone, happend, Except.ok.injEq, forall_eq']
        exact hstate.agrees_accepted hagrees haccepted
    | published =>
      cases hstep
      exact iff_of_true hagrees trivial
    | project current sections id =>
      cases hstep
      refine iff_of_true (fun asked others other => ?_) trivial
      have hsame := hagrees asked others other
      have hcaught := caught_project state current sections id
      simp only [State.caught] at hcaught
      simp only [project] at hsame hcaught ⊢
      rw [hcaught]
      exact hsame
  · intro state action hdisabled
    cases action <;> cases hdisabled

/-- Two snapshots, and a message of the user in place of the second one. -/
def secondReplaced : List Action :=
  let snapshot (text : String) : EventData :=
    .userMessage ⟨text, .user, [.text text], .plugin source none⟩
  [.append 0 (snapshot "a") { surfaceOp := some .append }, .published,
    .append 0 (snapshot "b") { surfaceOp := some .append }, .published,
    .append 0 (.userMessage ⟨"c", .user, [.text "c"], .user⟩)
      { surfaceOp := some (.replace 1 1), sourceEventSeqs := some [1] }]

theorem agrees_iff_leavesNone_secondReplaced : ∃ session,
    Session.Session.create 0 "chat" [] none = .ok session ∧
      (Trace.Always step Agrees ⟨session, new session⟩ secondReplaced ↔
        Trace.Guarded step LeavesNone ⟨session, new session⟩ secondReplaced) :=
  ⟨_, rfl, agrees_iff_leavesNone 0 "chat" [] none _ rfl secondReplaced⟩

/-- Asked for the first context again, the live projection proposes it once more; the restored one
finds it on the surface. -/
theorem first_snapshot_forgotten : ∃ session final, Session.Session.create 0 "chat" [] none = .ok session ∧
    Trace.run step ⟨session, new session⟩ secondReplaced = some final ∧ ¬ Agrees final :=
  ⟨_, _, rfl, rfl, fun hagrees => absurd (hagrees "a" [] "") (by decide)⟩

end Runs

end Keel.RuntimeContext
