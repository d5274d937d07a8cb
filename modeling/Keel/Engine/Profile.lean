import Keel.Foundation.Trace
import Mathlib.Data.List.Infix
import Mathlib.Logic.Function.Basic

/-! # Workspace profiles and their storage

Every account has a store of its own, at a path made of its ids with the characters that a
file name cannot have replaced. The uploads of the time before accounts stay where they
are and belong to the account that claims them first: each process writes the owner it
wants to a file of its own, links it under the common name if that is still free, and then
reads what is there.
-/

namespace Keel

open List Function Option

namespace Profile

section Paths

/-- The components of a path. -/
abbrev Path := List String

/-- `Path::join` with one plain name. -/
def Path.join (path : Path) (name : String) : Path := if name = "" then path else path ++ [name]

def Path.display (path : Path) : String := "/".intercalate path

def LEGACY_UPLOADS_DIR : String := "uploads"

def LEGACY_UPLOADS_OWNER_FILE : String := "legacy-uploads-owner.json"

def LOCAL_ORG_ID : String := "local"

inductive WorkspaceScope where
  | «local»
  | synced
  | development
deriving DecidableEq

/-- A resolved identity and storage boundary for one engine runtime. -/
structure EngineProfile where
  scope : WorkspaceScope
  deviceRoot : Path
  storeRoot : Path
  uploadsRoot : Path
  orgId : String
  userId : String

def sanitizePathId (id : String) : String :=
  String.ofList <| id.toList.map fun c => if c.isAlphanum ∨ c = '-' ∨ c = '_' then c else '_'

/-- The installation's profile, whose id has been loaded or created. -/
def EngineProfile.ofLocal (dataDir : Path) (profileId : String) : EngineProfile :=
  let storeRoot := (dataDir.join "profiles").join "local"
  { scope := .local, deviceRoot := dataDir, uploadsRoot := storeRoot.join "uploads", storeRoot,
    orgId := LOCAL_ORG_ID, userId := profileId }

def EngineProfile.accountScoped (dataDir : Path) (orgId userId : String) (scope : WorkspaceScope) :
    EngineProfile :=
  let storeRoot := ((dataDir.join "orgs").join (sanitizePathId orgId)).join (sanitizePathId userId)
  { scope, deviceRoot := dataDir, uploadsRoot := storeRoot.join "uploads", storeRoot, orgId, userId }

def EngineProfile.legacyRoot (profile : EngineProfile) : Path :=
  profile.deviceRoot.join LEGACY_UPLOADS_DIR

def EngineProfile.ownerPath (profile : EngineProfile) : Path :=
  profile.deviceRoot.join LEGACY_UPLOADS_OWNER_FILE

end Paths

section Claiming

structure LegacyUploadsOwner where
  orgId : String
  userId : String
deriving DecidableEq

def EngineProfile.expected (profile : EngineProfile) : LegacyUploadsOwner :=
  ⟨profile.orgId, profile.userId⟩

abbrev Bytes := List UInt8

/-- The owner file as JSON. -/
structure OwnerText where
  write : LegacyUploadsOwner → Bytes
  read : Bytes → Except String LegacyUploadsOwner

/-- What the processes share: the old uploads directory (`some false` is something else of that
name), the owner file, and each call's own temporary file. -/
structure Disk where
  legacy : Option Bool := none
  owner : Option Bytes := none
  temps : Nat → Option Bytes := fun _ => none

/-- Where a run of `claim_legacy_uploads_root` is. -/
inductive Stage where
  | started
  | reading
  | missing
  | writing (rest : Bytes)
  | written
  | linked
  | rereading
  | done (result : Except String (Option Path))
  | crashed

structure Call where
  profile : EngineProfile
  stage : Stage

structure State where
  disk : Disk := {}
  calls : Nat → Option Call := fun _ => none

inductive Action where
  | call (id : Nat) (profile : EngineProfile)
  | stat (id : Nat)
  | read (id : Nat)
  | create (id : Nat)
  | write (id count : Nat)
  | sync (id : Nat)
  | link (id : Nat)
  | remove (id : Nat)
  | reread (id : Nat)
  /-- The operation that the call is at fails. -/
  | fail (id : Nat) (message : String)
  | crash (id : Nat)
  /-- Somebody makes or removes the old directory. -/
  | setLegacy (legacy : Option Bool)

variable (text : OwnerText)

def State.setStage (state : State) (id : Nat) (profile : EngineProfile) (stage : Stage) : State :=
  { state with calls := update state.calls id (some ⟨profile, stage⟩) }

def State.setTemp (state : State) (id : Nat) (temp : Option Bytes) : State :=
  { state with disk := { state.disk with temps := update state.disk.temps id temp } }

/-- `metadata` of the old directory. -/
def statted (profile : EngineProfile) : Option Bool → Stage
  | none => .done (.ok none)
  | some true => .reading
  | some false => .done (.error ("invalid legacy uploads cache " ++ profile.legacyRoot.display ++
      ": expected a directory"))

/-- What the owner file says about a profile, or `absent` if it is not there. -/
def judged (profile : EngineProfile) (absent : Stage) : Option Bytes → Stage
  | none => absent
  | some content =>
    match text.read content with
    | .ok owner =>
      .done (.ok (if owner = profile.expected then some profile.legacyRoot else none))
    | .error err => .done (.error ("invalid legacy uploads owner " ++ profile.ownerPath.display ++
        ": " ++ err))

def ownerBytes (profile : EngineProfile) : Bytes := text.write profile.expected ++ [10]

/-- The steps of a call that is under way. -/
def callStep (state : State) (id : Nat) (profile : EngineProfile) :
    Stage → Action → Option State
  | .started, .stat _ =>
    some (state.setStage id profile
      (if profile.scope = .local then .done (.ok none) else statted profile state.disk.legacy))
  | .reading, .read _ => some (state.setStage id profile (judged text profile .missing state.disk.owner))
  | .missing, .create _ =>
    some ((state.setTemp id (some [])).setStage id profile (.writing (ownerBytes text profile)))
  | .writing rest, .write _ count =>
    some ((state.setTemp id (some ((state.disk.temps id).getD [] ++ rest.take count))).setStage id
      profile (.writing (rest.drop count)))
  | .writing [], .sync _ => some (state.setStage id profile .written)
  | .written, .link _ =>
    -- `AlreadyExists` is as good as success
    match state.disk.owner with
    | some _ => some (state.setStage id profile .linked)
    | none => some { state.setStage id profile .linked with
        disk := { state.disk with owner := state.disk.temps id } }
  | .linked, .remove _ => some ((state.setTemp id none).setStage id profile .rereading)
  | .rereading, .reread _ =>
    some (state.setStage id profile (judged text profile
      (.done (.error "local profile disappeared during creation")) state.disk.owner))
  | .started, .fail _ message | .reading, .fail _ message | .missing, .fail _ message
  | .rereading, .fail _ message => some (state.setStage id profile (.done (.error message)))
  | .writing _, .fail _ message | .written, .fail _ message =>
    some ((state.setTemp id none).setStage id profile (.done (.error message)))
  | _, _ => none

/-- The call that an action is a step of. -/
def Action.of : Action → Option Nat
  | .stat id | .read id | .create id | .write id _ | .sync id | .link id | .remove id | .reread id
  | .fail id _ => some id
  | .call _ _ | .crash _ | .setLegacy _ => none

def step (state : State) (action : Action) : Option State :=
  match action with
  | .call id profile =>
    if (state.calls id).isNone then some (state.setStage id profile .started) else none
  | .crash id =>
    match state.calls id with
    | some ⟨profile, .done result⟩ => some (state.setStage id profile (.done result))
    | some ⟨profile, _⟩ => some (state.setStage id profile .crashed)
    | none => none
  | .setLegacy legacy => some { state with disk := { state.disk with legacy } }
  | action =>
    match action.of with
    | some id =>
      match state.calls id with
      | some ⟨profile, stage⟩ => callStep text state id profile stage action
      | none => none
    | none => none

end Claiming

section Claims

/-- A call of this profile was given the old uploads. -/
def Granted (state : State) (profile : EngineProfile) : Prop :=
  ∃ id root, state.calls id = some ⟨profile, .done (.ok (some root))⟩

/-- Two stores have nothing in common with each other, nor with the local profile's. -/
structure Isolated (dataDir : Path) (first second : EngineProfile) : Prop where
  outside : ¬ first.storeRoot <+: second.storeRoot
  inside : ¬ second.storeRoot <+: first.storeRoot
  notLocal : ∀ profileId, ∀ profile ∈ [first, second],
    ¬ (EngineProfile.ofLocal dataDir profileId).storeRoot <+: profile.storeRoot ∧
      ¬ profile.storeRoot <+: (EngineProfile.ofLocal dataDir profileId).storeRoot

end Claims

section Roots

theorem sanitizePathId_ne {id : String} (hid : id ≠ "") : sanitizePathId id ≠ "" := by
  intro hempty
  have hlist := congrArg String.toList hempty
  rw [sanitizePathId, String.toList_ofList] at hlist
  exact hid (String.toList_eq_nil_iff.1 (map_eq_nil_iff.1 hlist))

theorem storeRoot_accountScoped {orgId userId : String} (dataDir : Path) (scope : WorkspaceScope)
    (horg : orgId ≠ "") (huser : userId ≠ "") :
    (EngineProfile.accountScoped dataDir orgId userId scope).storeRoot =
      dataDir ++ ["orgs", sanitizePathId orgId, sanitizePathId userId] := by
  simp [EngineProfile.accountScoped, Path.join, sanitizePathId_ne horg, sanitizePathId_ne huser]

theorem storeRoot_ofLocal (dataDir : Path) (profileId : String) :
    (EngineProfile.ofLocal dataDir profileId).storeRoot = dataDir ++ ["profiles", "local"] := by
  simp [EngineProfile.ofLocal, Path.join]

variable {dataDir : Path} {orgId userId otherOrg otherUser : String} {scope other : WorkspaceScope}

variable (horg : orgId ≠ "") (huser : userId ≠ "") (hotherOrg : otherOrg ≠ "")
    (hotherUser : otherUser ≠ "")
include horg huser hotherOrg hotherUser

/-- Account roots have one depth, so that one lies inside another only as the same root. -/
theorem storeRoot_prefix_iff :
    (EngineProfile.accountScoped dataDir orgId userId scope).storeRoot <+:
        (EngineProfile.accountScoped dataDir otherOrg otherUser other).storeRoot ↔
      (sanitizePathId orgId, sanitizePathId userId) =
        (sanitizePathId otherOrg, sanitizePathId otherUser) := by
  rw [storeRoot_accountScoped dataDir scope horg huser,
    storeRoot_accountScoped dataDir other hotherOrg hotherUser, prefix_append_right_inj]
  simp [cons_prefix_cons]

theorem isolated_iff : Isolated dataDir (EngineProfile.accountScoped dataDir orgId userId scope)
        (EngineProfile.accountScoped dataDir otherOrg otherUser other) ↔
      (sanitizePathId orgId, sanitizePathId userId) ≠
        (sanitizePathId otherOrg, sanitizePathId otherUser) := by
  constructor
  · exact fun hisolated heq => hisolated.outside
      ((storeRoot_prefix_iff horg huser hotherOrg hotherUser).2 heq)
  · intro hne
    refine ⟨fun hprefix => hne ((storeRoot_prefix_iff horg huser hotherOrg hotherUser).1 hprefix),
      fun hprefix => hne ((storeRoot_prefix_iff hotherOrg hotherUser horg huser).1 hprefix).symm,
      fun profileId profile hprofile => ?_⟩
    have hroot : ∃ org user, profile.storeRoot = dataDir ++ ["orgs", org, user] := by
      rcases mem_cons.1 hprofile with rfl | hprofile
      · exact ⟨_, _, storeRoot_accountScoped dataDir scope horg huser⟩
      · rw [mem_singleton.1 hprofile]
        exact ⟨_, _, storeRoot_accountScoped dataDir other hotherOrg hotherUser⟩
    obtain ⟨org, user, hroot⟩ := hroot
    rw [hroot, storeRoot_ofLocal, prefix_append_right_inj, prefix_append_right_inj]
    simp [cons_prefix_cons]

end Roots

section Owners

variable {text : OwnerText} {state next : State}

/-- Whoever was given the old uploads is the owner that the file names. -/
def Backed (text : OwnerText) (state : State) : Prop :=
  ∀ id profile root, state.calls id = some ⟨profile, .done (.ok (some root))⟩ →
    ∃ content, state.disk.owner = some content ∧ text.read content = .ok profile.expected

/-- A step of one call: the owner file stays once it is there, and a grant is what it says. -/
structure Moves (text : OwnerText) (state next : State) (id : Nat) (profile : EngineProfile) :
    Prop where
  calls : ∃ stage, next.calls = update state.calls id (some ⟨profile, stage⟩) ∧
    ∀ root, stage = .done (.ok (some root)) →
      ∃ content, state.disk.owner = some content ∧ text.read content = .ok profile.expected
  owner : ∀ content, state.disk.owner = some content → next.disk.owner = some content

variable {profile : EngineProfile} {id : Nat}

theorem judged_grants {absent : Stage} {file : Option Bytes} {root : Path}
    (habsent : absent ≠ .done (.ok (some root)))
    (hgrants : judged text profile absent file = .done (.ok (some root))) :
    ∃ content, file = some content ∧ text.read content = .ok profile.expected := by
  cases file with
  | none => exact absurd hgrants habsent
  | some content =>
    refine ⟨content, rfl, ?_⟩
    simp only [judged] at hgrants
    split at hgrants
    next owner hread =>
      split at hgrants
      next howner => rw [hread, howner]
      · cases hgrants
    · cases hgrants

theorem callStep_moves {stage : Stage} {action : Action}
    (hstep : callStep text state id profile stage action = some next) :
    Moves text state next id profile := by
  unfold callStep at hstep
  split at hstep
  next =>
    -- a local profile and a missing directory get nothing
    cases hstep
    refine ⟨⟨_, rfl, fun root hgrant => ?_⟩, fun _ howner => howner⟩
    split at hgrant
    · cases hgrant
    · unfold statted at hgrant; split at hgrant <;> cases hgrant
  · cases hstep
    exact ⟨⟨_, rfl, fun root hgrant => judged_grants (by simp) hgrant⟩, fun _ howner => howner⟩
  · cases hstep; exact ⟨⟨_, rfl, fun root hgrant => by cases hgrant⟩, fun _ howner => howner⟩
  · cases hstep; exact ⟨⟨_, rfl, fun root hgrant => by cases hgrant⟩, fun _ howner => howner⟩
  · cases hstep; exact ⟨⟨_, rfl, fun root hgrant => by cases hgrant⟩, fun _ howner => howner⟩
  · split at hstep
    · cases hstep; exact ⟨⟨_, rfl, fun root hgrant => by cases hgrant⟩, fun _ howner => howner⟩
    next hfree =>
      cases hstep
      exact ⟨⟨_, rfl, fun root hgrant => by cases hgrant⟩, fun _ howner => by simp [hfree] at howner⟩
  · cases hstep; exact ⟨⟨_, rfl, fun root hgrant => by cases hgrant⟩, fun _ howner => howner⟩
  · cases hstep
    exact ⟨⟨_, rfl, fun root hgrant => judged_grants (by simp) hgrant⟩, fun _ howner => howner⟩
  · cases hstep; exact ⟨⟨_, rfl, fun root hgrant => by cases hgrant⟩, fun _ howner => howner⟩
  · cases hstep; exact ⟨⟨_, rfl, fun root hgrant => by cases hgrant⟩, fun _ howner => howner⟩
  · cases hstep; exact ⟨⟨_, rfl, fun root hgrant => by cases hgrant⟩, fun _ howner => howner⟩
  · cases hstep; exact ⟨⟨_, rfl, fun root hgrant => by cases hgrant⟩, fun _ howner => howner⟩
  · cases hstep; exact ⟨⟨_, rfl, fun root hgrant => by cases hgrant⟩, fun _ howner => howner⟩
  · cases hstep; exact ⟨⟨_, rfl, fun root hgrant => by cases hgrant⟩, fun _ howner => howner⟩
  · cases hstep

theorem Backed.moves (hbacked : Backed text state)
    (hmoves : Moves text state next id profile) : Backed text next := by
  obtain ⟨⟨stage, hcalls, hgrant⟩, howner⟩ := hmoves
  intro other granted root hother
  rw [hcalls] at hother
  by_cases hid : other = id
  · subst hid
    rw [update_self, some.injEq, Call.mk.injEq] at hother
    obtain ⟨rfl, hstage⟩ := hother
    obtain ⟨content, hcontent, hread⟩ := hgrant root hstage
    exact ⟨content, howner content hcontent, hread⟩
  · rw [update_of_ne hid] at hother
    obtain ⟨content, hcontent, hread⟩ := hbacked other granted root hother
    exact ⟨content, howner content hcontent, hread⟩

/-- A call that starts or crashes is given nothing; one that is done stays as it is. -/
theorem Backed.setStage {stage : Stage} (hbacked : Backed text state)
    (hstage : state.calls id = some ⟨profile, stage⟩ ∨ ∀ result, stage ≠ .done result) :
    Backed text (state.setStage id profile stage) := by
  intro other granted root hother
  simp only [State.setStage] at hother ⊢
  by_cases hid : other = id
  · subst hid
    rw [update_self, some.injEq, Call.mk.injEq] at hother
    obtain ⟨rfl, rfl⟩ := hother
    rcases hstage with hsame | hnone
    · exact hbacked other profile root hsame
    · exact absurd rfl (hnone _)
  · rw [update_of_ne hid] at hother
    exact hbacked other granted root hother

theorem Backed.step {action : Action} (hbacked : Backed text state)
    (hstep : step text state action = some next) : Backed text next := by
  cases action with
  | call id profile =>
    simp only [Profile.step] at hstep
    split at hstep
    · cases hstep; exact hbacked.setStage (.inr fun result => by simp)
    · cases hstep
  | crash id =>
    simp only [Profile.step] at hstep
    split at hstep
    next profile result hcall => cases hstep; exact hbacked.setStage (.inl hcall)
    · cases hstep; exact hbacked.setStage (.inr fun result => by simp)
    · cases hstep
  | setLegacy legacy => cases hstep; exact hbacked
  | stat id | read id | create id | write id count | sync id | link id | remove id | reread id
  | fail id message =>
    simp only [Profile.step, Action.of] at hstep
    split at hstep
    next profile stage hcall => exact hbacked.moves (callStep_moves hstep)
    · cases hstep

/-- Whatever processes race and wherever they crash, all grants go to one account. -/
theorem granted_once {trace : List Action} {final : State} {first second : EngineProfile}
    (hstart : ∀ id, state.calls id = none)
    (hrun : Trace.run (step text) state trace = some final) (hfirst : Granted final first)
    (hsecond : Granted final second) : first.expected = second.expected := by
  have hbacked : Backed text state := fun id profile root hcall => by simp [hstart id] at hcall
  have hbacked := Trace.run_invariant (fun _ _ _ hbacked hstep => Backed.step hbacked hstep)
    hbacked hrun
  obtain ⟨id, root, hcall⟩ := hfirst
  obtain ⟨other, otherRoot, hother⟩ := hsecond
  obtain ⟨content, hcontent, hread⟩ := hbacked id first root hcall
  obtain ⟨same, hsame, hreadSame⟩ := hbacked other second otherRoot hother
  obtain rfl := mem_unique hcontent hsame
  exact Except.ok.inj (hread.symm.trans hreadSame)

end Owners

section Accounts

/-- Accounts are kept apart exactly where their ids stay different in a path, and the uploads of
the time before accounts are one account's. -/
theorem accounts_isolated_iff (text : OwnerText) :
    (∀ (dataDir : Path) (orgId userId otherOrg otherUser : String) (scope other : WorkspaceScope),
      orgId ≠ "" → userId ≠ "" → otherOrg ≠ "" → otherUser ≠ "" →
      (Isolated dataDir (EngineProfile.accountScoped dataDir orgId userId scope)
          (EngineProfile.accountScoped dataDir otherOrg otherUser other) ↔
        (sanitizePathId orgId, sanitizePathId userId) ≠
          (sanitizePathId otherOrg, sanitizePathId otherUser))) ∧
    ∀ (state final : State) (trace : List Action) (first second : EngineProfile),
      (∀ id, state.calls id = none) → Trace.run (step text) state trace = some final →
      Granted final first → Granted final second →
      (first.orgId, first.userId) = (second.orgId, second.userId) :=
  ⟨fun _ _ _ _ _ _ _ horg huser hotherOrg hotherUser =>
      isolated_iff horg huser hotherOrg hotherUser,
    fun _ _ _ _ _ hstart hrun hfirst hsecond => by
      have hexpected := granted_once hstart hrun hfirst hsecond
      simpa [EngineProfile.expected] using hexpected⟩

/-- Two users of one organization whose stores are the same directory. -/
theorem accounts_share_root :
    ¬ ∀ (dataDir : Path) (orgId userId otherOrg otherUser : String) (scope other : WorkspaceScope),
      orgId ≠ "" → userId ≠ "" → otherOrg ≠ "" → otherUser ≠ "" →
      (orgId, userId) ≠ (otherOrg, otherUser) →
      Isolated dataDir (EngineProfile.accountScoped dataDir orgId userId scope)
        (EngineProfile.accountScoped dataDir otherOrg otherUser other) := by
  intro hall
  have hisolated := hall ["data"] "acme" "a.b" "acme" "a_b" .synced .synced (by decide) (by decide)
    (by decide) (by decide) (by decide)
  exact hisolated.outside (by decide)

end Accounts

end Profile

end Keel
