import Keel.Dsh.ObservationPolicy

/-! # Read before overwrite

Every observation of an owner names a version the owner knows: as long as the target has
that version, its content is what a read of the owner returned or what a write or an edit
of the owner put there. This holds although the version and the text of a read come from
two calls of the filesystem and observations may be recorded late or out of order: a version
never comes back, so a target that still has it has not changed since it was taken.

A write or an edit replaces a file only at a version its owner's observation names.
-/

namespace Keel.Fs

open Revisions List Option Utf8

/-! ## What an owner knows -/

def Answer.version : Answer → FsVersion
  | .read version _ _ => version
  | .write outcome => outcome.version
  | .edit outcome => outcome.version

def Answer.mutates : Answer → Bool
  | .read .. => false
  | _ => true

def FsRequest.mutates : FsRequest → Bool
  | .read .. => false
  | _ => true

/-- The answer is fixed: the call has returned it or only waits for its listeners. -/
def Call.Answered (call : Call) (target : FsTarget) (answer : Answer) : Prop :=
  call.progress = .running target (.observed (.ok answer)) ∨
    call.progress = .running target (.returned (.ok answer))

/-- The window is what a read of this text answers with. -/
def Shows (tools : FsTools) (request : FsRequest) (target : FsTarget) (text : List Char)
    (window : WindowResult) : Prop :=
  ∃ offset limit, request = .read offset limit ∧
    buildWindow text ⟨offset, limit, tools.readMaxLineLength, tools.readMaxBytes⟩
      target.displayPath = .ok window

/-- A read of the owner found this version of the file and answers with this content. -/
def ReadBy (tools : FsTools) (state : State) (owner : FsOwnerKey) (key : FsTargetKey)
    (node : Node) : Prop :=
  ∃ (id : CallId) (call : Call), state.calls[id]? = some call ∧ call.owner = some owner ∧
    ∃ target text window, target.targetKey = key ∧
      call.Answered target (.read node.version text window) ∧
      Shows tools call.request target text window ∧ node.bytes = encode text

/-- A write or an edit of the owner put this version of the file there. -/
def MutatedBy (state : State) (owner : FsOwnerKey) (key : FsTargetKey) (node : Node) : Prop :=
  ∃ (id : CallId) (call : Call), state.calls[id]? = some call ∧ call.owner = some owner ∧
    ⟨key, node, some id⟩ ∈ state.disk.store.history

/-- The owner knows what the target is as long as it has the version. -/
structure Known (tools : FsTools) (state : State) (owner : FsOwnerKey) (key : FsTargetKey)
    (version : FsVersion) : Prop where
  spent : Store.Spent Node.version state.disk.store key version
  own : ∀ node, state.disk.current key = some node → node.version = version →
    ReadBy tools state owner key node ∨ MutatedBy state owner key node

/-- The call has changed its target and will succeed. -/
def Stage.committed : Stage → Bool
  | .observing _ (.ok answer) | .observed (.ok answer) | .returned (.ok answer) => answer.mutates
  | _ => false

def Call.Committed (call : Call) (target : FsTarget) : Prop :=
  ∃ stage, call.progress = .running target stage ∧ stage.committed = true

/-! ## How the system moves on -/

/-- A call keeps its owner and request, an answer once fixed and a change once made. -/
structure Moves (old new : Call) : Prop where
  owner : new.owner = old.owner
  request : new.request = old.request
  answered : ∀ target answer, old.Answered target answer → new.Answered target answer
  committed : ∀ target, old.Committed target → new.Committed target

theorem Moves.refl (call : Call) : Moves call call where
  owner := rfl
  request := rfl
  answered _ _ hanswered := hanswered
  committed _ hcommitted := hcommitted

theorem Moves.trans {first second third : Call} (hfirst : Moves first second)
    (hsecond : Moves second third) : Moves first third where
  owner := hsecond.owner.trans hfirst.owner
  request := hsecond.request.trans hfirst.request
  answered target answer hanswered :=
    hsecond.answered target answer (hfirst.answered target answer hanswered)
  committed target hcommitted := hsecond.committed target (hfirst.committed target hcommitted)

/-- The disk changes under fresh versions only, and no call is lost. -/
structure Next (before after : State) : Prop where
  later : Store.Later Node.version before.disk.store after.disk.store
  calls : Lists.Grows Moves before.calls after.calls

section Next

variable {tools : FsTools} {before after : State} {owner : FsOwnerKey} {key : FsTargetKey}
  {node : Node}

theorem ReadBy.next (hread : ReadBy tools before owner key node) (hnext : Next before after) :
    ReadBy tools after owner key node := by
  obtain ⟨id, call, hcall, howner, target, text, window, hread⟩ := hread
  obtain ⟨hkey, hanswered, hshows, hbytes⟩ := hread
  obtain ⟨moved, hmoved, hmoves⟩ := hnext.calls.getElem? hcall
  exact ⟨id, moved, hmoved, hmoves.owner.trans howner, target, text, window, hkey,
    hmoves.answered target _ hanswered, hmoves.request ▸ hshows, hbytes⟩

theorem MutatedBy.next (hmutated : MutatedBy before owner key node) (hnext : Next before after) :
    MutatedBy after owner key node := by
  obtain ⟨id, call, hcall, howner, hauthored⟩ := hmutated
  obtain ⟨moved, hmoved, hmoves⟩ := hnext.calls.getElem? hcall
  exact ⟨id, moved, hmoved, hmoves.owner.trans howner, hnext.later.grows _ hauthored⟩

/-- What an owner knows it goes on knowing: a target with the version has not changed. -/
theorem Known.next {version : FsVersion} (hknown : Known tools before owner key version)
    (hnext : Next before after) : Known tools after owner key version where
  spent := hnext.later.spent hknown.spent
  own node hcurrent hversion := by
    have hbefore := hnext.later.current_of_spent hknown.spent hcurrent hversion
    cases hknown.own node hbefore hversion with
    | inl hread => exact .inl (hread.next hnext)
    | inr hmutated => exact .inr (hmutated.next hnext)

end Next

/-! ## The invariant -/

/-- What a call holds of its target while the target has the version of its answer. -/
def Holds (tools : FsTools) (state : State) (id : CallId) (request : FsRequest)
    (target : FsTarget) (node : Node) : Answer → Prop
  | .read _ text window => node.bytes = encode text ∧ Shows tools request target text window
  | _ => ⟨target.targetKey, node, some id⟩ ∈ state.disk.store.history

/-- What is known at each stop of a call. -/
def StageSound (tools : FsTools) (state : State) (id : CallId) (call : Call) (target : FsTarget) :
    Stage → Prop
  | .statted info => Store.Spent Node.version state.disk.store target.targetKey info.version
  | .intended (.replaceIfVersion version) | .guarded version =>
    ∃ owner, call.owner = some owner ∧ Known tools state owner target.targetKey version
  | .observing (.present version) result =>
    Store.Spent Node.version state.disk.store target.targetKey version ∧
      ∃ answer, result = .ok answer ∧ answer.version = version ∧
        answer.mutates = call.request.mutates ∧
        ∀ node, state.disk.current target.targetKey = some node → node.version = version →
          Holds tools state id call.request target node answer
  | .observing .absent result => ∀ answer, result ≠ .ok answer
  | .observed (.ok answer) | .returned (.ok answer) => answer.mutates = call.request.mutates
  | _ => True

/-- Every observation and every call is backed by what its owner knows. -/
structure Inv (tools : FsTools) (state : State) : Prop where
  traced : state.disk.store.Traced
  observed : ∀ owner key version, state.observed owner key = some (.present version) →
    Known tools state owner key version
  calls : ∀ id call target stage, state.calls[id]? = some call →
    call.progress = .running target stage → StageSound tools state id call target stage

theorem StageSound.next {tools : FsTools} {before after : State} {id : CallId} {call : Call}
    {target : FsTarget} {stage : Stage} (hsound : StageSound tools before id call target stage)
    (hnext : Next before after) : StageSound tools after id call target stage := by
  cases stage with
  | statted info => exact hnext.later.spent hsound
  | intended intent =>
    cases intent with
    | createIfAbsent => trivial
    | replaceIfVersion version =>
      obtain ⟨owner, howner, hknown⟩ := hsound
      exact ⟨owner, howner, hknown.next hnext⟩
  | guarded version =>
    obtain ⟨owner, howner, hknown⟩ := hsound
    exact ⟨owner, howner, hknown.next hnext⟩
  | observing observation result =>
    cases observation with
    | absent => exact hsound
    | present version =>
      obtain ⟨hspent, answer, hresult, hanswer, hmutates, hholds⟩ := hsound
      refine ⟨hnext.later.spent hspent, answer, hresult, hanswer, hmutates, ?_⟩
      intro node hcurrent hversion
      have hbefore := hnext.later.current_of_spent hspent hcurrent hversion
      have hheld := hholds node hbefore hversion
      cases answer with
      | read => exact hheld
      | write | edit => exact hnext.later.grows _ hheld
  | observed result | returned result =>
    cases result with
    | error => trivial
    | ok => exact hsound
  | resolved => trivial

theorem inv_initial (tools : FsTools) : Inv tools .initial where
  traced _ _ hcurrent := by cases hcurrent
  observed _ _ _ hobserved := by cases hobserved
  calls _ _ _ _ hcall := by simp [State.initial] at hcall

/-- Nothing but the disk and the list of calls changes, and only new calls are added. -/
theorem Inv.outside {tools : FsTools} {before after : State} (hinv : Inv tools before)
    (hnext : Next before after) (htraced : after.disk.store.Traced)
    (hobserved : after.observed = before.observed)
    (hcalls : ∀ (id : CallId) (call : Call) target stage, after.calls[id]? = some call →
      call.progress = .running target stage → before.calls[id]? = some call) :
    Inv tools after where
  traced := htraced
  observed owner key version hpresent := by
    rw [hobserved] at hpresent
    exact (hinv.observed owner key version hpresent).next hnext
  calls id call target stage hcall hprogress :=
    (hinv.calls id call target stage (hcalls id call target stage hcall hprogress) hprogress).next
      hnext

/-! ## What one stage can do -/

/-- The content a request stores in place of what is on the disk. -/
def Stores (disk : Disk) (target : FsTarget) (content : List Char) : FsRequest → Prop
  | .read .. => False
  | .write written => content = written
  | .edit edit => ∃ plan, Planned disk target edit plan ∧ content = plan.stored

/-- The call has not yet changed anything. -/
def Stage.working : Stage → Bool
  | .resolved | .statted _ | .intended _ | .guarded _ => true
  | _ => false

/-- The target is what the guard of a mutation names. -/
def Guards (existing : Option Node) : Stage → Prop
  | .intended .createIfAbsent => existing = none
  | .intended (.replaceIfVersion version) | .guarded version =>
    ∃ node, existing = some node ∧ node.entryType = .file ∧ node.version = version
  | _ => False

/-- One stage of a call, by what it does to the disk and to the observations. -/
inductive StageStep (tools : FsTools) (io : Io) (disk : Disk) (target : FsTarget)
    (state : ObservedState) (id : CallId) (owner : Option FsOwnerKey) (request : FsRequest) :
    Stage → Stage → Disk → ObservedState → Prop
  | failed {stage : Stage} {after : Disk} (error : Tools.ToolError)
      (hworking : stage.working = true) (hdirs : Directories target.targetKey disk after) :
      StageStep tools io disk target state id owner request stage (.returned (.error error)) after
        state
  | missing (error : Tools.ToolError) :
      StageStep tools io disk target state id owner request .resolved
        (.observing .absent (.error error)) disk state
  | statted {info : FsInfo} {node : Node} (hcurrent : disk.current target.targetKey = some node)
      (hversion : info.version = node.version) :
      StageStep tools io disk target state id owner request .resolved (.statted info) disk state
  | read {info : FsInfo} {node : Node} {text : List Char} {window : WindowResult}
      (hcurrent : disk.current target.targetKey = some node)
      (hbytes : node.bytes = encode text) (hshows : Shows tools request target text window) :
      StageStep tools io disk target state id owner request (.statted info)
        (.observing (.present info.version) (.ok (.read info.version text window))) disk state
  | intended :
      StageStep tools io disk target state id owner request .resolved
        (.intended (writeIntent state target owner)) disk state
  | guarded {version : FsVersion} (hintent : editIntent state target owner = .ok version) :
      StageStep tools io disk target state id owner request .resolved (.guarded version) disk state
  | mutated {stage : Stage} {after : Disk} {content : List Char} {answer : Answer}
      (hguards : Guards (disk.current target.targetKey) stage)
      (hstores : Stores disk target content request)
      (hpublished : Published io id target.targetKey content disk after)
      (hversion : answer.version = io.version) (hmutates : answer.mutates = true) :
      StageStep tools io disk target state id owner request stage
        (.observing (.present io.version) (.ok answer)) after state
  | recorded (observation : FsObservation) (result : Result) :
      StageStep tools io disk target state id owner request (.observing observation result)
        (.observed result) disk (observe state target observation owner)
  | returned (result : Result) :
      StageStep tools io disk target state id owner request (.observed result) (.returned result)
        disk state

section StageStep

variable {tools : FsTools} {io : Io} {disk after : Disk} {target : FsTarget}
  {state recorded : ObservedState} {id : CallId} {owner : Option FsOwnerKey} {request : FsRequest}
  {stage next : Stage}

theorem statStage_step :
    StageStep tools io disk target state id owner request .resolved (statStage io disk target) disk
      state := by
  have hsame : Directories target.targetKey disk disk := .refl _ _
  rw [statStage]
  split
  · exact .failed _ rfl hsame
  · exact .missing _
  next info hstat =>
    split
    · exact .failed _ rfl hsame
    · rw [stat] at hstat
      split at hstat
      · cases hstat
      · split at hstat
        · cases hstat
        · cases hstat
        next node hprobe =>
          cases hstat
          exact .statted (probe_eq_ok hprobe).2 rfl

theorem readStage_step {offset limit : Nat} {info : FsInfo} :
    StageStep tools io disk target state id owner (.read offset limit) (.statted info)
      (readStage tools io disk target offset limit info) disk state := by
  have hsame : Directories target.targetKey disk disk := .refl _ _
  rw [readStage]
  split
  · exact .failed _ rfl hsame
  next text hread =>
    obtain ⟨node, hcurrent, _, hbytes⟩ := readText_ok hread
    split
    · exact .failed _ rfl hsame
    next window hwindow => exact .read hcurrent hbytes ⟨offset, limit, rfl, hwindow⟩

theorem guardStage_step {edit : FsEditRequest} :
    StageStep tools io disk target state id owner (.edit edit) .resolved
      (guardStage target state owner) disk state := by
  rw [guardStage]
  split
  · exact .failed _ rfl (.refl _ _)
  next version hintent => exact .guarded hintent

theorem writtenStage_step {content : List Char} {intent : FsWriteIntent}
    {result : Except FsError FsWriteOutcome}
    (hwrite : writeText io disk target tools.fs id content (some intent) = some (after, result)) :
    StageStep tools io disk target state id owner (.write content) (.intended intent)
      (writtenStage result) after state := by
  cases writeText_cases hwrite with
  | inl hfailed =>
    obtain ⟨error, rfl, hdirs⟩ := hfailed
    exact .failed _ rfl hdirs
  | inr hdone =>
    obtain ⟨outcome, rfl, hversion, hadmits, hpublished⟩ := hdone
    rw [writtenStage, hversion]
    refine .mutated ?_ (show Stores disk target content (.write content) from rfl) hpublished
      hversion rfl
    cases intent with
    | createIfAbsent | replaceIfVersion version => exact hadmits

theorem editedStage_step {edit : FsEditRequest} {version : FsVersion}
    {result : Except FsError FsEditOutcome}
    (hedit : editText io disk target id edit (some version) = some (after, result)) :
    StageStep tools io disk target state id owner (.edit edit) (.guarded version)
      (editedStage result) after state := by
  cases editText_cases hedit with
  | inl hfailed =>
    obtain ⟨error, rfl, hdirs⟩ := hfailed
    exact .failed _ rfl hdirs
  | inr hdone =>
    obtain ⟨plan, rfl, hplanned, hguard, hpublished⟩ := hdone
    obtain ⟨node, hcurrent, hfile, _⟩ := hplanned.raw
    obtain ⟨found, hfound, hversion⟩ := hguard version rfl
    obtain rfl := mem_unique hcurrent hfound
    exact .mutated ⟨node, hcurrent, hfile, hversion⟩ ⟨plan, hplanned, rfl⟩ hpublished rfl
      rfl

theorem stageStep_of_pollStage
    (hpoll : pollStage tools io disk target state id owner request stage =
      some (next, after, recorded)) :
    StageStep tools io disk target state id owner request stage next after recorded := by
  unfold pollStage at hpoll
  split at hpoll
  · cases hpoll; exact statStage_step
  · cases hpoll; exact .intended
  · cases hpoll; exact guardStage_step
  · cases hpoll; exact readStage_step
  · obtain ⟨done, hwrite, hdone⟩ := map_eq_some_iff.mp hpoll
    cases hdone
    exact writtenStage_step hwrite
  · obtain ⟨done, hedit, hdone⟩ := map_eq_some_iff.mp hpoll
    cases hdone
    exact editedStage_step hedit
  · cases hpoll; exact .recorded _ _
  · cases hpoll; exact .returned _
  · cases hpoll

section
variable (hstep : StageStep tools io disk target state id owner request stage next after recorded)
include hstep

theorem StageStep.later : Store.Later Node.version disk.store after.store := by
  cases hstep with
  | failed _ _ hdirs => exact hdirs.later
  | mutated _ _ hpublished => exact hpublished.later
  | missing | statted | read | intended | guarded | recorded | returned => exact .refl disk.store

theorem StageStep.traced (htraced : disk.store.Traced) : after.store.Traced := by
  cases hstep with
  | failed _ _ hdirs => exact hdirs.traced htraced
  | mutated _ _ hpublished => exact hpublished.traced htraced
  | missing | statted | read | intended | guarded | recorded | returned => exact htraced

theorem StageStep.committed (hcommitted : stage.committed = true) : next.committed = true := by
  cases hstep with
  | failed _ hworking => cases stage <;> simp_all [Stage.working, Stage.committed]
  | mutated _ _ _ _ hmutates => exact hmutates
  | recorded observation result | returned result =>
    cases result with
    | error => cases hcommitted
    | ok => exact hcommitted
  | missing | statted | read | intended | guarded => cases hcommitted

end

theorem StageStep.answered {answer : Answer}
    (hstep : StageStep tools io disk target state id owner request stage next after recorded)
    (hanswered : stage = .observed (.ok answer) ∨ stage = .returned (.ok answer)) :
    next = .observed (.ok answer) ∨ next = .returned (.ok answer) := by
  rcases hanswered with rfl | rfl
  · cases hstep with
    | failed _ hworking => cases hworking
    | mutated hguards => cases hguards
    | returned => exact .inr rfl
  · cases hstep with
    | failed _ hworking => cases hworking
    | mutated hguards => cases hguards

theorem StageStep.moves {call : Call}
    (hstep : StageStep tools io disk target state id owner request stage next after recorded)
    (hprogress : call.progress = .running target stage) :
    Moves call { call with progress := .running target next } where
  owner := rfl
  request := rfl
  answered other answer hanswered := by
    simp only [Call.Answered, hprogress, Progress.running.injEq] at hanswered ⊢
    rcases hanswered with ⟨rfl, hobserved⟩ | ⟨rfl, hreturned⟩
    · exact (hstep.answered (.inl hobserved)).imp (⟨rfl, ·⟩) (⟨rfl, ·⟩)
    · exact (hstep.answered (.inr hreturned)).imp (⟨rfl, ·⟩) (⟨rfl, ·⟩)
  committed other hcommitted := by
    obtain ⟨other, hother, hcommitted⟩ := hcommitted
    rw [hprogress, Progress.running.injEq] at hother
    obtain ⟨rfl, rfl⟩ := hother
    exact ⟨next, rfl, hstep.committed hcommitted⟩

end StageStep

/-! ## The invariant is kept -/

theorem prior_present {state : ObservedState} {owner : Option FsOwnerKey} {target : FsTarget}
    {version : FsVersion} (hprior : prior state owner target = some (.present version)) :
    ∃ known, owner = some known ∧ state known target.targetKey = some (.present version) := by
  cases owner with
  | none => cases hprior
  | some known => exact ⟨known, rfl, hprior⟩

section Kept

variable {tools : FsTools} {io : Io} {before : State} {disk : Disk} {recorded : ObservedState}
  {calls : List Call} {id : CallId} {call : Call} {target : FsTarget} {stage next : Stage}

theorem StageStep.sound (hinv : Inv tools before) (hcall : before.calls[id]? = some call)
    (hprogress : call.progress = .running target stage)
    (hstep : StageStep tools io before.disk target before.observed id call.owner call.request stage
      next disk recorded)
    (hnext : Next before ⟨disk, recorded, calls⟩) :
    StageSound tools ⟨disk, recorded, calls⟩ id { call with progress := .running target next }
      target next := by
  have hsound := hinv.calls id call target stage hcall hprogress
  cases hstep with
  | failed => trivial
  | missing => exact fun _ => nofun
  | statted hcurrent hversion =>
    simp only [StageSound, hversion]
    exact hinv.traced.spent hcurrent
  | read hcurrent hbytes hshows =>
    refine ⟨hsound, _, rfl, rfl, ?_, ?_⟩
    · obtain ⟨offset, limit, hrequest, _⟩ := hshows
      rw [hrequest]
      rfl
    · intro found hfound _
      obtain rfl := mem_unique hcurrent hfound
      exact ⟨hbytes, hshows⟩
  | intended =>
    rw [writeIntent]
    split
    next version hprior =>
      obtain ⟨owner, howner, hobserved⟩ := prior_present hprior
      exact ⟨owner, howner, (hinv.observed owner _ version hobserved).next hnext⟩
    · trivial
  | @guarded version hintent =>
    have hprior : prior before.observed call.owner target = some (.present version) := by
      rw [editIntent] at hintent
      split at hintent
      · cases hintent
      · cases hintent
      next hprior => cases hintent; exact hprior
    obtain ⟨owner, howner, hobserved⟩ := prior_present hprior
    exact ⟨owner, howner, (hinv.observed owner _ version hobserved).next hnext⟩
  | @mutated _ _ content answer hguards hstores hpublished hversion hmutates =>
    have hauthored := hpublished.authored
    refine ⟨⟨_, hauthored, rfl, rfl⟩, answer, rfl, hversion, ?_, ?_⟩
    · rw [hmutates]
      cases hrequest : call.request with
      | read => rw [hrequest] at hstores; cases hstores
      | write | edit => rfl
    · intro found hfound _
      obtain rfl := mem_unique hpublished.current hfound
      cases answer with
      | read => cases hmutates
      | write | edit => exact hauthored
  | recorded observation result =>
    cases result with
    | error => trivial
    | ok answer =>
      cases observation with
      | absent => exact absurd rfl (hsound answer)
      | present version =>
        obtain ⟨_, found, hfound, _, hmutates, _⟩ := hsound
        cases hfound
        exact hmutates
  | returned result =>
    cases result with
    | error => trivial
    | ok answer => exact hsound

theorem known_of_observing {owner : FsOwnerKey} {version : FsVersion} {result : Result}
    (howner : call.owner = some owner)
    (hsound : StageSound tools before id call target (.observing (.present version) result))
    (hmoved : calls[id]? = some { call with progress := .running target (.observed result) }) :
    Known tools ⟨before.disk, recorded, calls⟩ owner target.targetKey version := by
  obtain ⟨hspent, answer, rfl, hanswer, _, hholds⟩ := hsound
  refine ⟨hspent, ?_⟩
  intro node hcurrent hversion
  have hheld := hholds node hcurrent hversion
  cases answer with
  | read found text window =>
    have hfound : found = node.version := hanswer.trans hversion.symm
    subst hfound
    exact .inl ⟨id, _, hmoved, howner, target, text, window, rfl, .inl rfl, hheld.2, hheld.1⟩
  | write | edit => exact .inr ⟨id, _, hmoved, howner, hheld⟩

theorem StageStep.observed_known (hinv : Inv tools before)
    (hcall : before.calls[id]? = some call) (hprogress : call.progress = .running target stage)
    (hstep : StageStep tools io before.disk target before.observed id call.owner call.request stage
      next disk recorded)
    (hnext : Next before ⟨disk, recorded, calls⟩)
    (hmoved : calls[id]? = some { call with progress := .running target next })
    {owner : FsOwnerKey} {key : FsTargetKey} {version : FsVersion}
    (hpresent : recorded owner key = some (.present version)) :
    Known tools ⟨disk, recorded, calls⟩ owner key version := by
  cases hstep with
  | recorded observation result =>
    rcases observe_cases hpresent with ⟨howner, rfl, rfl⟩ | hearlier
    · exact known_of_observing howner (hinv.calls id call target _ hcall hprogress) hmoved
    · exact (hinv.observed owner key version hearlier).next hnext
  | failed | missing | statted | read | intended | guarded | mutated | returned =>
    exact (hinv.observed owner key version hpresent).next hnext

end Kept

/-! ## Steps of the system -/

section Steps

variable {tools : FsTools} {io : Io} {before after final : State} {id : CallId} {call : Call}

/-- A call that has no target yet gets one or fails; one that has one takes a stage. -/
theorem pollCall_cases (hpoll : pollCall tools before id io call = some after) :
    (∃ progress, call.progress = .issued ∧
        (∀ target stage, progress = .running target stage → stage = .resolved) ∧
        after = { before with calls := before.calls.set id { call with progress } }) ∨
      ∃ target stage next disk recorded, call.progress = .running target stage ∧
        StageStep tools io before.disk target before.observed id call.owner call.request stage next
          disk recorded ∧
        after = ⟨disk, recorded,
          before.calls.set id { call with progress := .running target next }⟩ := by
  rw [pollCall] at hpoll
  split at hpoll
  next hissued =>
    split at hpoll
    next error _ =>
      cases hpoll
      refine .inl ⟨_, hissued, ?_, rfl⟩
      intro other stage hrunning
      cases hrunning
    next target _ =>
      cases hpoll
      refine .inl ⟨_, hissued, ?_, rfl⟩
      intro other stage hrunning
      cases hrunning
      rfl
  · cases hpoll
  next target stage hrunning =>
    split at hpoll
    · cases hpoll
    next next disk recorded hstage =>
      cases hpoll
      have hstep := stageStep_of_pollStage hstage
      exact .inr ⟨target, stage, next, disk, recorded, hrunning, hstep, rfl⟩

theorem moves_of_issued {progress : Progress} (hissued : call.progress = .issued) :
    Moves call { call with progress } where
  owner := rfl
  request := rfl
  answered _ _ hanswered := by simp [Call.Answered, hissued] at hanswered
  committed _ hcommitted := by
    obtain ⟨stage, hrunning, _⟩ := hcommitted
    rw [hissued] at hrunning
    cases hrunning

theorem next_of_pollCall (hcall : before.calls[id]? = some call)
    (hpoll : pollCall tools before id io call = some after) : Next before after := by
  rcases pollCall_cases hpoll with ⟨progress, hissued, _, rfl⟩ |
    ⟨target, stage, next, disk, recorded, hrunning, hstep, rfl⟩
  · exact ⟨.refl _, .set Moves.refl hcall (moves_of_issued hissued)⟩
  · exact ⟨hstep.later, .set Moves.refl hcall (hstep.moves hrunning)⟩

theorem next_of_step {action : Action} (hstep : step tools before action = some after) :
    Next before after := by
  cases action with
  | issue owner request =>
    cases hstep
    exact ⟨.refl _, (Lists.Grows.refl Moves.refl _).append _⟩
  | poll id io =>
    rw [step] at hstep
    split at hstep
    · cases hstep
    next call hcall => exact next_of_pollCall hcall hstep
  | change key node =>
    obtain ⟨disk, hput, rfl⟩ := map_eq_some_iff.mp hstep
    exact ⟨.put (Disk.store_put hput).1, .refl Moves.refl _⟩
  | remove key =>
    cases hstep
    exact ⟨.remove _ _, .refl Moves.refl _⟩
  | deny key fault =>
    cases hstep
    exact ⟨.refl _, .refl Moves.refl _⟩

section
variable (hinv : Inv tools before)
include hinv

theorem sound_of_set {moved : Call} (hnext : Next before after)
    (hcalls : after.calls = before.calls.set id moved)
    (hmoved : ∀ target stage, moved.progress = .running target stage →
      StageSound tools after id moved target stage) {other : CallId} {found : Call}
    {target : FsTarget} {stage : Stage} (hfound : after.calls[other]? = some found)
    (hrunning : found.progress = .running target stage) :
    StageSound tools after other found target stage := by
  rw [hcalls, getElem?_set] at hfound
  split at hfound
  next hsame =>
    subst hsame
    split at hfound
    · cases hfound; exact hmoved target stage hrunning
    · cases hfound
  · exact (hinv.calls other found target stage hfound hrunning).next hnext

theorem inv_of_pollCall (hcall : before.calls[id]? = some call)
    (hpoll : pollCall tools before id io call = some after) : Inv tools after := by
  have hnext := next_of_pollCall hcall hpoll
  have hid : id < before.calls.length := (List.getElem?_eq_some_iff.mp hcall).1
  rcases pollCall_cases hpoll with ⟨progress, _, hresolved, rfl⟩ |
    ⟨target, stage, next, disk, recorded, hrunning, hstep, rfl⟩
  · refine ⟨hinv.traced, ?_, ?_⟩
    · intro owner key version hpresent
      exact (hinv.observed owner key version hpresent).next hnext
    · intro other found target stage
      apply sound_of_set hinv hnext rfl
      intro target stage hrunning
      cases hresolved target stage hrunning
      trivial
  · refine ⟨hstep.traced hinv.traced, ?_, ?_⟩
    · intro owner key version
      exact hstep.observed_known hinv hcall hrunning hnext (List.getElem?_set_self hid)
    · intro other found target' stage'
      apply sound_of_set hinv hnext rfl
      intro target' stage' hmoved
      cases hmoved
      exact hstep.sound hinv hcall hrunning hnext

theorem inv_of_step {action : Action} (hstep : step tools before action = some after) :
    Inv tools after := by
  have hnext := next_of_step hstep
  cases action with
  | issue owner request =>
    cases hstep
    refine hinv.outside hnext hinv.traced rfl ?_
    intro id call target stage hcall hrunning
    rw [getElem?_append] at hcall
    split at hcall
    · exact hcall
    · obtain rfl := mem_singleton.mp (mem_of_getElem? hcall)
      cases hrunning
  | poll id io =>
    rw [step] at hstep
    split at hstep
    · cases hstep
    next call hcall => exact inv_of_pollCall hinv hcall hstep
  | change key node =>
    obtain ⟨disk, hput, rfl⟩ := map_eq_some_iff.mp hstep
    exact hinv.outside hnext (hinv.traced.put (Disk.store_put hput).1) rfl fun _ _ _ _ hcall _ =>
      hcall
  | remove key =>
    cases hstep
    exact hinv.outside hnext (hinv.traced.remove key) rfl fun _ _ _ _ hcall _ => hcall
  | deny key fault =>
    cases hstep
    exact hinv.outside hnext hinv.traced rfl fun _ _ _ _ hcall _ => hcall

end

/-! ## Changes of files -/

/-- No regular file appears, changes or goes. -/
def Untouched (before after : Disk) : Prop :=
  ∀ key node, node.entryType = .file →
    (after.current key = some node ↔ before.current key = some node)

/-- A request is carried out: its content is stored at the target, where there was nothing or
a version of the file its owner had read or put there; every other file stays. -/
structure Overwrite (tools : FsTools) (before after : State) (owner : Option FsOwnerKey)
    (request : FsRequest) (target : FsTarget) : Prop where
  stored : ∃ content version, Stores before.disk target content request ∧
    after.disk.current target.targetKey = some ⟨version, .file, encode content⟩
  basis : before.disk.current target.targetKey = none ∨
    ∃ known node, owner = some known ∧ before.disk.current target.targetKey = some node ∧
      node.entryType = .file ∧
      (ReadBy tools before known target.targetKey node ∨
        MutatedBy before known target.targetKey node)
  elsewhere : ∀ key node, key ≠ target.targetKey → node.entryType = .file →
    (after.disk.current key = some node ↔ before.disk.current key = some node)

/-- What the guard of a mutation names is nothing, or what the owner knows. -/
theorem basis_of_guards {target : FsTarget} {stage : Stage}
    (hguards : Guards (before.disk.current target.targetKey) stage)
    (hsound : StageSound tools before id call target stage) :
    before.disk.current target.targetKey = none ∨
      ∃ known node, call.owner = some known ∧
        before.disk.current target.targetKey = some node ∧ node.entryType = .file ∧
        (ReadBy tools before known target.targetKey node ∨
          MutatedBy before known target.targetKey node) := by
  cases stage with
  | intended intent =>
    cases intent with
    | createIfAbsent => exact .inl hguards
    | replaceIfVersion version =>
      obtain ⟨node, hcurrent, hfile, hversion⟩ := hguards
      obtain ⟨known, howner, hknown⟩ := hsound
      exact .inr ⟨known, node, howner, hcurrent, hfile, hknown.own node hcurrent hversion⟩
  | guarded version =>
    obtain ⟨node, hcurrent, hfile, hversion⟩ := hguards
    obtain ⟨known, howner, hknown⟩ := hsound
    exact .inr ⟨known, node, howner, hcurrent, hfile, hknown.own node hcurrent hversion⟩
  | resolved | statted | observing | observed | returned => cases hguards

/-- A stage leaves every file alone and commits nothing, or carries the request out. -/
theorem StageStep.effect {target : FsTarget} {stage next : Stage} {disk : Disk}
    {recorded : ObservedState} {calls : List Call}
    (hsound : StageSound tools before id call target stage)
    (hstep : StageStep tools io before.disk target before.observed id call.owner call.request stage
      next disk recorded) :
    Untouched before.disk disk ∧ (next.committed = true → stage.committed = true) ∨
      next.committed = true ∧
        Overwrite tools before ⟨disk, recorded, calls⟩ call.owner call.request target := by
  have hsame : Untouched before.disk before.disk := fun _ _ _ => Iff.rfl
  cases hstep with
  | failed _ _ hdirs => exact .inl ⟨fun _ _ hfile => hdirs.files hfile, nofun⟩
  | mutated hguards hstores hpublished _ hmutates =>
    have hbasis := basis_of_guards hguards hsound
    exact .inr ⟨hmutates, ⟨_, _, hstores, hpublished.current⟩, hbasis,
      fun _ _ hother hfile => hpublished.files hother hfile⟩
  | missing | statted | read | intended | guarded => exact .inl ⟨hsame, nofun⟩
  | recorded observation result | returned result =>
    cases result with
    | error => exact .inl ⟨hsame, nofun⟩
    | ok => exact .inl ⟨hsame, fun hcommitted => hcommitted⟩

/-- A step of a call leaves every file alone and commits nothing, or carries the request out. -/
theorem effect_of_poll (hinv : Inv tools before)
    (hstep : step tools before (.poll id io) = some after) :
    ∃ call moved, before.calls[id]? = some call ∧ after.calls[id]? = some moved ∧
      (Untouched before.disk after.disk ∧
          (∀ target, moved.Committed target → call.Committed target) ∨
        ∃ target, moved.Committed target ∧
          Overwrite tools before after call.owner call.request target) := by
  rw [step] at hstep
  split at hstep
  · cases hstep
  next call hcall =>
    have hid : id < before.calls.length := (List.getElem?_eq_some_iff.mp hcall).1
    rcases pollCall_cases hstep with ⟨progress, _, hresolved, rfl⟩ |
      ⟨target, stage, next, disk, recorded, hrunning, hstage, rfl⟩
    · refine ⟨call, _, hcall, List.getElem?_set_self hid, .inl ⟨fun _ _ _ => Iff.rfl, ?_⟩⟩
      intro target hcommitted
      obtain ⟨stage, hprogress, hcommitted⟩ := hcommitted
      rw [hresolved target stage hprogress] at hcommitted
      cases hcommitted
    · refine ⟨call, _, hcall, List.getElem?_set_self hid, ?_⟩
      cases hstage.effect (hinv.calls id call target stage hcall hrunning) with
      | inl hquiet =>
        refine .inl ⟨hquiet.1, ?_⟩
        intro other hcommitted
        obtain ⟨moved, hmoved, hcommitted⟩ := hcommitted
        cases hmoved
        exact ⟨stage, hrunning, hquiet.2 hcommitted⟩
      | inr hdone => exact .inr ⟨target, ⟨next, rfl, hdone.1⟩, hdone.2⟩

end Steps

/-! ## Runs -/

/-- A step of the call in a run, and the states around it. -/
def CallStep (tools : FsTools) (trace : List Action) (final : State) (id : CallId)
    (before after : State) : Prop :=
  ∃ earlier io later, trace = earlier ++ .poll id io :: later ∧
    Trace.run (step tools) .initial earlier = some before ∧
    step tools before (.poll id io) = some after ∧
    Trace.run (step tools) after later = some final

section Runs

variable {tools : FsTools} {before after final : State} {trace : List Action} {id : CallId}
  {call : Call}

theorem inv_of_run (hrun : Trace.run (step tools) .initial trace = some final) :
    Inv tools final :=
  Trace.run_invariant (fun _ _ _ hinv hstep => inv_of_step hinv hstep) (inv_initial tools) hrun

/-- Whatever the interleaving, a version an owner has on record is one it knows. -/
theorem observations_backed (tools : FsTools) (trace : List Action) :
    Trace.Always (step tools) (fun state => ∀ owner key version,
      state.observed owner key = some (.present version) → Known tools state owner key version)
      .initial trace :=
  Trace.always_of_invariant (fun _ => Inv.observed) (fun _ _ _ hinv => inv_of_step hinv)
    (inv_initial tools)

theorem calls_of_run (hrun : Trace.run (step tools) before trace = some final) :
    Lists.Grows Moves before.calls final.calls := by
  induction trace generalizing before with
  | nil =>
    rw [Trace.run_nil, Option.some.injEq] at hrun
    exact hrun ▸ .refl Moves.refl _
  | cons action rest ih =>
    obtain ⟨next, hstep, hrest⟩ := Trace.run_cons_eq_some.1 hrun
    exact .trans (fun hfirst hsecond => hfirst.trans hsecond) (next_of_step hstep).calls
      (ih hrest)

/-- A call that has changed its target had done so before, or does it in this very step. -/
theorem committed_of_step {action : Action} {target : FsTarget} (hinv : Inv tools before)
    (hstep : step tools before action = some after) (hcall : after.calls[id]? = some call)
    (hcommitted : call.Committed target) :
    (∃ old, before.calls[id]? = some old ∧ old.Committed target) ∨
      (∃ io, action = .poll id io) ∧
        Overwrite tools before after call.owner call.request target := by
  cases action with
  | issue owner request =>
    cases hstep
    rw [getElem?_append] at hcall
    split at hcall
    · exact .inl ⟨call, hcall, hcommitted⟩
    · obtain rfl := mem_singleton.mp (mem_of_getElem? hcall)
      obtain ⟨stage, hrunning, _⟩ := hcommitted
      cases hrunning
  | poll other io =>
    by_cases hsame : other = id
    · subst hsame
      obtain ⟨old, moved, hold, hmoved, heffect⟩ := effect_of_poll hinv hstep
      obtain rfl := mem_unique hmoved hcall
      have hmoves : Moves old moved := by
        obtain ⟨found, hfound, hmoves⟩ := (next_of_step hstep).calls.getElem? hold
        exact mem_unique hfound hcall ▸ hmoves
      rcases heffect with ⟨_, hkept⟩ | ⟨changed, hchanged, hoverwrite⟩
      · exact .inl ⟨old, hold, hkept target hcommitted⟩
      · obtain ⟨stage, hrunning, _⟩ := hcommitted
        obtain ⟨stage', hrunning', _⟩ := hchanged
        rw [hrunning] at hrunning'
        cases hrunning'
        exact .inr ⟨⟨io, rfl⟩, hmoves.owner ▸ hmoves.request ▸ hoverwrite⟩
    · refine .inl ⟨call, ?_, hcommitted⟩
      rw [step] at hstep
      split at hstep
      · cases hstep
      · rcases pollCall_cases hstep with ⟨_, _, _, rfl⟩ | ⟨_, _, _, _, _, _, _, rfl⟩
        · rwa [getElem?_set_ne hsame] at hcall
        · rwa [getElem?_set_ne hsame] at hcall
  | change key node =>
    obtain ⟨disk, _, rfl⟩ := map_eq_some_iff.mp hstep
    exact .inl ⟨call, hcall, hcommitted⟩
  | remove key | deny key fault =>
    cases hstep
    exact .inl ⟨call, hcall, hcommitted⟩

theorem CallStep.concat {last : State} {action : Action}
    (hcallstep : CallStep tools trace last id before after)
    (hstep : step tools last action = some final) :
    CallStep tools (trace ++ [action]) final id before after := by
  obtain ⟨earlier, io, later, rfl, hearlier, hpoll, hlater⟩ := hcallstep
  refine ⟨earlier, io, later ++ [action], by simp, hearlier, hpoll, ?_⟩
  exact Trace.run_concat_eq_some.2 ⟨last, hlater, hstep⟩

theorem overwrite_of_committed {target : FsTarget}
    (hrun : Trace.run (step tools) .initial trace = some final)
    (hcall : final.calls[id]? = some call) (hcommitted : call.Committed target) :
    ∃ before after, CallStep tools trace final id before after ∧
      Overwrite tools before after call.owner call.request target := by
  induction trace using List.reverseRecOn generalizing final call with
  | nil =>
    cases hrun
    simp [State.initial] at hcall
  | append_singleton init action ih =>
    obtain ⟨last, hinit, hstep⟩ := Trace.run_concat_eq_some.1 hrun
    rcases committed_of_step (inv_of_run hinit) hstep hcall hcommitted with
      ⟨old, hold, hearlier⟩ | ⟨⟨io, rfl⟩, hoverwrite⟩
    · obtain ⟨before, after, hcallstep, hoverwrite⟩ := ih hinit hold hearlier
      have hmoves : Moves old call := by
        obtain ⟨found, hfound, hmoves⟩ := (next_of_step hstep).calls.getElem? hold
        exact mem_unique hfound hcall ▸ hmoves
      exact ⟨before, after, hcallstep.concat hstep,
        hmoves.owner ▸ hmoves.request ▸ hoverwrite⟩
    · exact ⟨last, final, ⟨init, io, [], rfl, hinit, hstep, rfl⟩, hoverwrite⟩

/-- A step of a call leaves every file alone, or carries out the request of a call that will
not fail. -/
theorem CallStep.effect (hcallstep : CallStep tools trace final id before after)
    (hcall : final.calls[id]? = some call) :
    Untouched before.disk after.disk ∨
      ∃ target, call.Committed target ∧
        Overwrite tools before after call.owner call.request target := by
  obtain ⟨earlier, io, later, rfl, hearlier, hstep, hlater⟩ := hcallstep
  obtain ⟨old, moved, hold, hmoved, heffect⟩ := effect_of_poll (inv_of_run hearlier) hstep
  obtain ⟨found, hfound, hfirst⟩ := (next_of_step hstep).calls.getElem? hold
  obtain rfl := mem_unique hfound hmoved
  obtain ⟨last, hlast, hsecond⟩ := (calls_of_run hlater).getElem? hmoved
  obtain rfl := mem_unique hlast hcall
  have hmoves := hfirst.trans hsecond
  rcases heffect with ⟨huntouched, _⟩ | ⟨target, hcommitted, hoverwrite⟩
  · exact .inl huntouched
  · exact .inr ⟨target, hsecond.committed target hcommitted,
      hmoves.owner ▸ hmoves.request ▸ hoverwrite⟩

theorem Call.Committed.not_failed {target : FsTarget} (hcommitted : call.Committed target)
    (error : Tools.ToolError) : call.result ≠ some (.error error) := by
  obtain ⟨stage, hrunning, hcommitted⟩ := hcommitted
  rw [Call.result, hrunning]
  cases stage with
  | returned result =>
    cases result with
    | error => cases hcommitted
    | ok answer => exact fun hresult => nomatch hresult
  | resolved | statted | intended | guarded | observing | observed => exact nofun

theorem committed_of_succeeded {answer : Answer}
    (hrun : Trace.run (step tools) .initial trace = some final)
    (hcall : final.calls[id]? = some call) (hmutates : call.request.mutates = true)
    (hresult : call.result = some (.ok answer)) : ∃ target, call.Committed target := by
  rw [Call.result] at hresult
  split at hresult
  · cases hresult
  next target result hrunning =>
    cases hresult
    have hsound := (inv_of_run hrun).calls id call target _ hcall hrunning
    exact ⟨target, _, hrunning, hsound.trans hmutates⟩
  · cases hresult

end Runs

/-- In every run of calls and outside changes: a write or an edit that succeeds has stored its
content at its target in one of its steps, and each of its steps that touches a file does just
that, over nothing or over a version of the file that its own owner had read or put there. A
call without an owner replaces no file. A call that fails touches none. -/
theorem read_before_overwrite {tools : FsTools} {trace : List Action} {final : State}
    (hrun : Trace.run (step tools) .initial trace = some final) {id : CallId} {call : Call}
    (hcall : final.calls[id]? = some call) :
    (∀ answer, call.request.mutates = true → call.result = some (.ok answer) →
      ∃ before after target stage, CallStep tools trace final id before after ∧
        call.progress = .running target stage ∧
        Overwrite tools before after call.owner call.request target) ∧
    (∀ before after, CallStep tools trace final id before after →
      Untouched before.disk after.disk ∨
        ∃ target stage, call.progress = .running target stage ∧
          Overwrite tools before after call.owner call.request target) ∧
    (call.owner = none → ∀ before after, CallStep tools trace final id before after →
      ∀ key node, node.entryType = .file → before.disk.current key = some node →
        after.disk.current key = some node) ∧
    (∀ error, call.result = some (.error error) →
      ∀ before after, CallStep tools trace final id before after →
        Untouched before.disk after.disk) := by
  refine ⟨?_, ?_, ?_, ?_⟩
  · intro answer hmutates hresult
    obtain ⟨target, hcommitted⟩ := committed_of_succeeded hrun hcall hmutates hresult
    obtain ⟨before, after, hcallstep, hoverwrite⟩ :=
      overwrite_of_committed hrun hcall hcommitted
    obtain ⟨stage, hrunning, _⟩ := hcommitted
    exact ⟨before, after, target, stage, hcallstep, hrunning, hoverwrite⟩
  · intro before after hcallstep
    rcases hcallstep.effect hcall with huntouched | ⟨target, hcommitted, hoverwrite⟩
    · exact .inl huntouched
    · obtain ⟨stage, hrunning, _⟩ := hcommitted
      exact .inr ⟨target, stage, hrunning, hoverwrite⟩
  · intro howner before after hcallstep key node hfile hcurrent
    rcases hcallstep.effect hcall with huntouched | ⟨target, _, hoverwrite⟩
    · exact (huntouched key node hfile).mpr hcurrent
    · have hother : key ≠ target.targetKey := by
        rintro rfl
        rcases hoverwrite.basis with habsent | ⟨known, _, hknown, _⟩
        · rw [hcurrent] at habsent
          cases habsent
        · rw [howner] at hknown
          cases hknown
      exact (hoverwrite.elsewhere key node hother hfile).mpr hcurrent
  · intro error hresult before after hcallstep
    rcases hcallstep.effect hcall with huntouched | ⟨target, hcommitted, _⟩
    · exact huntouched
    · exact absurd hresult (hcommitted.not_failed error)

/-- A session reads a file another program made and writes it; its call after that, which was
decided before the write, finds its version gone and fails. -/
def overlappingWrites : List Action :=
  let target : FsTarget := ⟨⟨"/w/a"⟩, "/w/a"⟩
  let io (version : String) : Io :=
    { aborted := false
      resolved := .ok target
      read := none
      made := []
      createDirs := none
      stage := none
      publish := none
      dangling := none
      version := ⟨version⟩ }
  [.change ⟨"/w/a"⟩ ⟨⟨"1"⟩, .file, [104, 105]⟩, .issue (some "s") (.read 1 10),
    .poll 0 (io ""), .poll 0 (io ""), .poll 0 (io ""), .poll 0 (io ""), .poll 0 (io ""),
    .issue (some "s") (.write ['x']), .issue (some "s") (.write ['y']),
    .poll 1 (io ""), .poll 2 (io ""), .poll 1 (io ""), .poll 2 (io ""), .poll 1 (io "2"),
    .poll 2 (io "3"), .poll 1 (io ""), .poll 1 (io "")]

def plainTools : FsTools := ⟨⟨1⟩, 2000, 2000⟩

theorem read_before_overwrite_overlapping : ∃ final,
    Trace.run (step plainTools) .initial overlappingWrites = some final ∧
      (∃ before after target, CallStep plainTools overlappingWrites final 1 before after ∧
        Overwrite plainTools before after (some "s") (.write ['x']) target) ∧
      ∀ before after, CallStep plainTools overlappingWrites final 2 before after →
        Untouched before.disk after.disk := by
  have hruns : ∃ (final : State) (first second : Call),
      Trace.run (step plainTools) .initial overlappingWrites = some final ∧
        final.calls[1]? = some first ∧ final.calls[2]? = some second ∧
        first.owner = some "s" ∧ first.request = .write ['x'] ∧
        (∃ answer, first.result = some (.ok answer)) ∧
        ∃ error, second.result = some (.error error) :=
    ⟨_, _, _, rfl, rfl, rfl, rfl, rfl, ⟨_, rfl⟩, _, rfl⟩
  obtain ⟨final, first, second, hrun, hfirst, hsecond, howner, hrequest, hresults⟩ := hruns
  obtain ⟨⟨answer, hanswer⟩, error, herror⟩ := hresults
  refine ⟨final, hrun, ?_, (read_before_overwrite hrun hsecond).2.2.2 error herror⟩
  obtain ⟨before, after, target, _, hcallstep, _, hoverwrite⟩ :=
    (read_before_overwrite hrun hfirst).1 answer (hrequest ▸ rfl) hanswer
  rw [howner, hrequest] at hoverwrite
  exact ⟨before, after, target, hcallstep, hoverwrite⟩

end Keel.Fs
