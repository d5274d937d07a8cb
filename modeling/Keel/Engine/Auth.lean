import Mathlib.Data.List.Basic
import Keel.Foundation.Trace

/-! # The credentials of the auth service

The service caches an access token, keeps a stored session and mirrors it in a
session file. Sign-out and the commit of a sign-in hold the sign-in lock and
update the three one after the other under locks of their own. A refresh is
single-flight, takes no sign-in lock, and awaits the server between reading the
stored refresh token and applying the response.

Each sign-in is a number. Tokens and users carry the sign-in they were issued
for, and a response carries tokens of the session whose refresh token or code
was sent. File writes succeed. The published state and the token epoch are not
modeled.
-/

namespace Keel

open Option

/-- A token of a sign-in; `serial` tells its tokens apart. -/
structure AuthToken where
  signIn : Nat
  serial : Nat
deriving DecidableEq

/-- A user as a sign-in reported it. -/
structure AuthUser where
  id : String
  signIn : Nat
deriving DecidableEq

structure StoredSession where
  refreshToken : AuthToken
  user : AuthUser
  orgId : Option String
deriving DecidableEq

/-- The body of a successful refresh, with the organization its access token
claims. -/
structure RefreshedTokens where
  access : AuthToken
  refresh : AuthToken
  orgId : Option String
deriving DecidableEq

/-- What the exchange of a sign-in's code returned. -/
structure SignInResult where
  userId : String
  accessSerial : Nat
  refreshSerial : Nat
  orgId : Option String

inductive RefreshPhase where
  | idle
  | sent (token : AuthToken) (organizationId : Option String)
  /-- The response is parsed; nothing is written yet. -/
  | granted (tokens : RefreshedTokens)
  | wroteAccess (tokens : RefreshedTokens)
  | wroteStored
  /-- The token is definitively rejected; the session is to be signed out. -/
  | rejected (token : AuthToken)
  | signingOut
deriving DecidableEq

/-- A response is being written, lock section by lock section. -/
def RefreshPhase.applying : RefreshPhase → Bool
  | .wroteAccess _ | .wroteStored => true
  | _ => false

/-- The next section of the holder of the sign-in lock. -/
inductive CommitPhase where
  | clearStored (rejected : Option AuthToken)
  | clearAccess
  | removeFile
  | setAccess (session : StoredSession) (access : AuthToken)
  | writeFile (session : StoredSession)
  | setStored (session : StoredSession)

structure Auth where
  generation : Nat
  nextSignIn : Nat
  /-- Sign-ins begun and not yet answered. -/
  pending : List Nat
  /-- Sign-ins exchanging their code, with the generation they captured. -/
  exchanging : List (Nat × Nat)
  commit : Option CommitPhase
  refreshing : RefreshPhase
  access : Option AuthToken
  stored : Option StoredSession
  file : Option StoredSession
  /-- Each definitive rejection that signed a session out: the sign-in of the
  rejected token and the sign-in that was stored. -/
  revoked : List (Nat × Nat)

inductive RefreshResponse where
  | success (tokens : RefreshedTokens)
  | clientError
  | otherFailure

inductive AuthAction where
  | beginSignIn
  | takePending (signIn : Nat)
  | exchangeFailed (signIn : Nat)
  | finishSignIn (signIn : Nat) (result : SignInResult)
  | signOut
  /-- The holder of the sign-in lock completes one section. -/
  | commit
  /-- A refresh passes the gate; `cached` says the access token is still fresh. -/
  | refresh (organizationId : Option String) (cached : Bool)
  | respond (response : RefreshResponse)
  /-- The refresh completes one section of writing its response. -/
  | apply
  /-- The refresh takes the sign-in lock to sign out. -/
  | revoke

namespace Auth

/-- A service that loaded a session file, or none. -/
def init (loaded : Option (String × Nat × Option String)) : Auth :=
  let session := loaded.map fun (userId, serial, orgId) =>
    { refreshToken := ⟨0, serial⟩, user := ⟨userId, 0⟩, orgId }
  { generation := 0, nextSignIn := 1, pending := [], exchanging := [], commit := none
    refreshing := .idle, access := none, stored := session, file := session, revoked := [] }

/-- Take the sign-in lock to sign out; pending sign-ins are canceled. -/
def startSignOut (state : Auth) (rejected : Option AuthToken) : Auth :=
  { state with
    generation := state.generation + 1, pending := [], commit := some (.clearStored rejected) }

/-- A sign-in that captured an older generation was canceled. -/
def finishSignIn (state : Auth) (signIn generation : Nat) (result : SignInResult) : Auth :=
  let exchanging := state.exchanging.filter fun attempt => attempt.1 ≠ signIn
  if state.generation ≠ generation then { state with exchanging }
  else
    let session : StoredSession :=
      { refreshToken := ⟨signIn, result.refreshSerial⟩, user := ⟨result.userId, signIn⟩
        orgId := result.orgId }
    { state with
      exchanging, commit := some (.setAccess session ⟨signIn, result.accessSerial⟩) }

/-- The sign-ins a clearing of the stored session is on record for. -/
def revocation (state : Auth) (rejected : Option AuthToken) : List (Nat × Nat) :=
  match rejected, state.stored with
  | some token, some session => [(token.signIn, session.user.signIn)]
  | _, _ => []

def commitStep (state : Auth) : CommitPhase → Auth
  | .clearStored rejected => { state with
      stored := none, revoked := state.revoked ++ state.revocation rejected
      commit := some .clearAccess }
  | .clearAccess => { state with access := none, commit := some .removeFile }
  | .removeFile => { state with
      file := none, commit := none
      refreshing := if state.refreshing = .signingOut then .idle else state.refreshing }
  | .setAccess session access => { state with
      access := some access, commit := some (.writeFile session) }
  | .writeFile session => { state with file := some session, commit := some (.setStored session) }
  | .setStored session => { state with stored := some session, commit := none }

/-- Under the gate: a fresh cached token or a missing session ends the call. -/
def refresh (state : Auth) (organizationId : Option String) (cached : Bool) : Auth :=
  if organizationId = none ∧ state.access.isSome ∧ cached then state
  else
    match state.stored with
    | none => state
    | some session =>
      { state with refreshing := .sent session.refreshToken organizationId }

/-- A definitive rejection signs out, except when switching organizations. -/
def respond (state : Auth) (organizationId : Option String) (token : AuthToken) :
    RefreshResponse → Option Auth
  | .success tokens =>
    if tokens.access.signIn = token.signIn ∧ tokens.refresh.signIn = token.signIn then
      some { state with refreshing := .granted tokens }
    else none
  | .clientError =>
    if organizationId = none then some { state with refreshing := .rejected token }
    else some { state with refreshing := .idle }
  | .otherFailure => some { state with refreshing := .idle }

/-- The access token is cached first; a session signed out meanwhile is noticed
only afterwards. -/
def applyStep (state : Auth) : RefreshPhase → Option Auth
  | .granted tokens => some
      { state with access := some tokens.access, refreshing := .wroteAccess tokens }
  | .wroteAccess tokens =>
    match state.stored with
    | some session => some { state with
        stored := some { session with refreshToken := tokens.refresh, orgId := tokens.orgId }
        refreshing := .wroteStored }
    | none => some { state with refreshing := .idle }
  | .wroteStored => some { state with file := state.stored, refreshing := .idle }
  | _ => none

def step (state : Auth) : AuthAction → Option Auth
  | .beginSignIn => some { state with
      nextSignIn := state.nextSignIn + 1, pending := state.nextSignIn :: state.pending }
  | .takePending signIn =>
    if signIn ∈ state.pending ∧ state.commit = none then
      some { state with
        pending := state.pending.filter fun other => other ≠ signIn
        exchanging := (signIn, state.generation) :: state.exchanging }
    else none
  | .exchangeFailed signIn => some { state with
      exchanging := state.exchanging.filter fun attempt => attempt.1 ≠ signIn }
  | .finishSignIn signIn result =>
    match state.exchanging.find? fun attempt => attempt.1 == signIn with
    | some (_, generation) =>
      if state.commit = none then some (state.finishSignIn signIn generation result) else none
    | none => none
  | .signOut => if state.commit = none then some (state.startSignOut none) else none
  | .commit => state.commit.map state.commitStep
  | .refresh organizationId cached =>
    if state.refreshing = .idle then some (state.refresh organizationId cached) else none
  | .respond response =>
    match state.refreshing with
    | .sent token organizationId => state.respond organizationId token response
    | _ => none
  | .apply => state.applyStep state.refreshing
  | .revoke =>
    match state.refreshing with
    | .rejected token =>
      if state.commit = none then
        some { state.startSignOut (some token) with refreshing := .signingOut }
      else none
    | _ => none

/-- No lock section is under way; at most a request is awaited. -/
def Quiescent (state : Auth) : Prop :=
  state.commit = none ∧
    (state.refreshing = .idle ∨ ∃ token organizationId,
      state.refreshing = .sent token organizationId)

/-- The cached and stored tokens belong to the stored user's sign-in, the file
holds the stored session, nothing is cached while signed out, and a rejection
signed out only the sign-in it rejected. -/
structure Coherent (state : Auth) : Prop where
  access : ∀ token, state.access = some token →
    ∃ session, state.stored = some session ∧ token.signIn = session.user.signIn
  stored : ∀ session, state.stored = some session →
    session.refreshToken.signIn = session.user.signIn
  file : state.file = state.stored
  revoked : ∀ entry ∈ state.revoked, entry.1 = entry.2

/-- A response is applied to the session whose token it answers: a refresh
starts writing while no sign-out or sign-in commit is under way and the stored
session is of the sign-in its token came from, none of them starts while it
writes, and a rejection signs out only that sign-in. -/
def appliesToSender (state : Auth) : AuthAction → Bool
  | .apply =>
    match state.refreshing with
    | .granted tokens => decide (state.commit = none) &&
        state.stored.any fun session => session.user.signIn == tokens.refresh.signIn
    | _ => true
  | .signOut | .finishSignIn .. => !state.refreshing.applying
  | .revoke =>
    match state.refreshing with
    | .rejected token => state.stored.all fun session => session.user.signIn == token.signIn
    | _ => true
  | _ => true

/-- The cached token and the stored refresh token belong to the stored user. -/
def TokensMatch (state : Auth) : Prop :=
  (∀ token, state.access = some token →
    ∃ session, state.stored = some session ∧ token.signIn = session.user.signIn) ∧
  ∀ session, state.stored = some session → session.refreshToken.signIn = session.user.signIn

/-- A session and an access token of one sign-in. -/
def IssuedTogether (session : StoredSession) (access : AuthToken) : Prop :=
  session.refreshToken.signIn = session.user.signIn ∧ access.signIn = session.user.signIn

/-- What holds between two lock sections. -/
def Sections (state : Auth) : Prop :=
  match state.commit, state.refreshing with
  | none, .wroteAccess tokens => state.TokensMatch ∧ ∃ session, state.stored = some session ∧
      session.user.signIn = tokens.refresh.signIn
  | none, .wroteStored => state.TokensMatch
  | none, _ => state.TokensMatch ∧ state.file = state.stored
  | some (.clearStored rejected), _ => ∀ token session, rejected = some token →
      state.stored = some session → session.user.signIn = token.signIn
  | some .clearAccess, _ => state.stored = none
  | some .removeFile, _ => state.stored = none ∧ state.access = none
  | some (.setAccess session access), _ => IssuedTogether session access
  | some (.writeFile session), _ => ∃ access, state.access = some access ∧
      IssuedTogether session access
  | some (.setStored session), _ => (∃ access, state.access = some access ∧
      IssuedTogether session access) ∧ state.file = some session

structure Fenced (state : Auth) : Prop where
  revoked : ∀ entry ∈ state.revoked, entry.1 = entry.2
  granted : ∀ tokens, state.refreshing = .granted tokens →
    tokens.access.signIn = tokens.refresh.signIn
  applying : state.refreshing.applying = true → state.commit = none
  sections : state.Sections

/-- Between commits, and with no refresh writing, the tokens match and the file
holds the stored session. -/
def Settled (state : Auth) : Prop := state.TokensMatch ∧ state.file = state.stored

theorem sections_iff_settled {state : Auth} (hcommit : state.commit = none)
    (hrefreshing : state.refreshing.applying = false) : state.Sections ↔ state.Settled := by
  unfold Sections
  rw [hcommit]
  cases hphase : state.refreshing with
  | wroteAccess tokens | wroteStored => simp [hphase, RefreshPhase.applying] at hrefreshing
  | _ => rfl

theorem Settled.sections {state : Auth} (hsettled : state.Settled) (hcommit : state.commit = none)
    (hrefreshing : state.refreshing.applying = false) : state.Sections :=
  (sections_iff_settled hcommit hrefreshing).mpr hsettled

namespace Fenced

variable {state : Auth}

section
attribute [local simp] RefreshPhase.applying

variable (hstate : Fenced state)
include hstate

theorem not_applying {phase : CommitPhase} (hcommit : state.commit = some phase) :
    state.refreshing.applying = false := by
  cases happlying : state.refreshing.applying with
  | false => rfl
  | true =>
    have hfree := hstate.applying happlying
    rw [hcommit] at hfree
    cases hfree

theorem withRefreshing {phase : RefreshPhase} (hold : state.refreshing.applying = false)
    (hnew : phase.applying = false)
    (hgranted : ∀ tokens, phase = .granted tokens → tokens.access.signIn = tokens.refresh.signIn) :
    Fenced { state with refreshing := phase } := by
  refine ⟨hstate.revoked, hgranted, ?_, ?_⟩
  · intro happlying
    rw [show phase.applying = true from happlying] at hnew
    cases hnew
  · cases hcommit : state.commit with
    | none =>
      have hsettled : Settled state := (sections_iff_settled hcommit hold).mp hstate.sections
      exact Settled.sections hsettled rfl hnew
    | some section_ =>
      have hsections := hstate.sections
      cases section_ <;> simpa [Sections, hcommit] using hsections

/-- A step of the holder of the sign-in lock keeps what concerns the refresh. -/
theorem ofSections {next : Auth} (hrefreshing : next.refreshing = state.refreshing)
    (hidle : state.refreshing.applying = false)
    (hrevoked : ∀ entry ∈ next.revoked, entry.1 = entry.2) (hsections : next.Sections) :
    Fenced next := by
  refine ⟨hrevoked, hrefreshing ▸ hstate.granted, ?_, hsections⟩
  intro happlying
  rw [hrefreshing, hidle] at happlying
  cases happlying

theorem commitStep {phase : CommitPhase} (hcommit : state.commit = some phase) :
    Fenced (state.commitStep phase) := by
  have hidle := hstate.not_applying hcommit
  have hsections := hstate.sections
  unfold Sections at hsections
  rw [hcommit] at hsections
  cases phase with
  | clearStored rejected =>
    refine hstate.ofSections rfl hidle ?_ (by simp [Auth.commitStep, Sections])
    intro entry hentry
    rcases List.mem_append.mp hentry with hentry | hentry
    · exact hstate.revoked entry hentry
    · cases hrejected : rejected with
      | none => simp [revocation, hrejected] at hentry
      | some token =>
        cases hstored : state.stored with
        | none => simp [revocation, hrejected, hstored] at hentry
        | some session =>
          -- The sign-out was let through for this token's sign-in only.
          simp only [revocation, hrejected, hstored, List.mem_singleton] at hentry
          subst hentry
          exact (hsections token session hrejected hstored).symm
  | clearAccess =>
    refine hstate.ofSections rfl hidle hstate.revoked ?_
    simpa [Auth.commitStep, Sections] using hsections
  | removeFile =>
    obtain ⟨hstored, haccess⟩ := hsections
    have hremoved : Fenced { state with file := none, commit := none } := by
      refine hstate.ofSections rfl hidle hstate.revoked (Settled.sections ?_ rfl hidle)
      simp [Settled, TokensMatch, hstored, haccess]
    -- A sign-out that a rejected refresh asked for ends that refresh too.
    by_cases hsigning : state.refreshing = .signingOut
    · have hended : Fenced { state with file := none, commit := none, refreshing := .idle } :=
        hremoved.withRefreshing hidle rfl nofun
      simpa [Auth.commitStep, hsigning] using hended
    · simpa [Auth.commitStep, hsigning] using hremoved
  | setAccess session access =>
    refine hstate.ofSections rfl hidle hstate.revoked ?_
    exact ⟨access, rfl, hsections⟩
  | writeFile session =>
    exact hstate.ofSections rfl hidle hstate.revoked ⟨hsections, rfl⟩
  | setStored session =>
    obtain ⟨⟨access, haccess, htogether⟩, hfile⟩ := hsections
    refine hstate.ofSections rfl hidle hstate.revoked (Settled.sections ⟨⟨?_, ?_⟩, ?_⟩ rfl hidle)
    · intro token htoken
      rw [show state.access = some token from htoken] at haccess
      cases haccess
      exact ⟨session, rfl, htogether.2⟩
    · intro other hother
      cases hother
      exact htogether.1
    · exact hfile

theorem applyStep {next : Auth} (hsender : state.appliesToSender .apply = true)
    (hstep : state.applyStep state.refreshing = some next) : Fenced next := by
  have hsections := hstate.sections
  unfold Sections at hsections
  cases hphase : state.refreshing with
  | granted tokens =>
    simp only [appliesToSender, hphase, Bool.and_eq_true, decide_eq_true_eq, any_eq_true,
      beq_iff_eq] at hsender
    obtain ⟨hcommit, session, hstored, hsignIn⟩ := hsender
    simp only [hphase, hcommit] at hsections
    simp only [Auth.applyStep, hphase, some.injEq] at hstep
    subst hstep
    refine ⟨hstate.revoked, nofun, fun _ => hcommit, ?_⟩
    simp only [Sections, hcommit]
    refine ⟨⟨?_, hsections.1.2⟩, session, hstored, hsignIn⟩
    intro token htoken
    cases htoken
    exact ⟨session, hstored, (hstate.granted tokens hphase).trans hsignIn.symm⟩
  | wroteAccess tokens =>
    have hcommit := hstate.applying (by simp [hphase])
    simp only [hphase, hcommit] at hsections
    obtain ⟨⟨haccess, -⟩, session, hstored, hsignIn⟩ := hsections
    simp only [Auth.applyStep, hphase, hstored, some.injEq] at hstep
    subst hstep
    refine ⟨hstate.revoked, nofun, fun _ => hcommit, ?_⟩
    simp only [Sections, hcommit]
    refine ⟨?_, ?_⟩
    · intro token htoken
      obtain ⟨other, hother, hmatch⟩ := haccess token htoken
      rw [hstored] at hother
      cases hother
      exact ⟨_, rfl, hmatch⟩
    · intro other hother
      cases hother
      exact hsignIn.symm
  | wroteStored =>
    have hcommit := hstate.applying (by simp [hphase])
    simp only [hphase, hcommit] at hsections
    simp only [Auth.applyStep, hphase, some.injEq] at hstep
    subst hstep
    refine ⟨hstate.revoked, nofun, nofun, ?_⟩
    exact Settled.sections ⟨hsections, rfl⟩ hcommit rfl
  | _ => simp [Auth.applyStep, hphase] at hstep

theorem refresh (hidle : state.refreshing = .idle) (organizationId : Option String) (cached : Bool) :
    Fenced (state.refresh organizationId cached) := by
  unfold Auth.refresh
  split
  · exact hstate
  · split
    · exact hstate
    · exact hstate.withRefreshing (by simp [hidle]) rfl nofun

theorem respond {next : Auth} {token : AuthToken} {organizationId : Option String}
    {response : RefreshResponse} (hsent : state.refreshing = .sent token organizationId)
    (hstep : state.respond organizationId token response = some next) : Fenced next := by
  have hidle : state.refreshing.applying = false := by simp [hsent]
  cases response with
  | success tokens =>
    simp only [Auth.respond] at hstep
    split at hstep
    next hissued =>
      cases hstep
      apply hstate.withRefreshing hidle rfl
      rintro other ⟨⟩
      exact hissued.1.trans hissued.2.symm
    · cases hstep
  | clientError =>
    simp only [Auth.respond] at hstep
    split at hstep
    · cases hstep
      exact hstate.withRefreshing hidle rfl nofun
    · cases hstep
      exact hstate.withRefreshing hidle rfl nofun
  | otherFailure =>
    cases hstep
    exact hstate.withRefreshing hidle rfl nofun

end

theorem step {next : Auth} {action : AuthAction} (hstate : Fenced state)
    (hsender : state.appliesToSender action = true) (hstep : state.step action = some next) :
    Fenced next := by
  cases action with
  | beginSignIn =>
    cases hstep
    exact ⟨hstate.revoked, hstate.granted, hstate.applying, hstate.sections⟩
  | takePending signIn =>
    simp only [Auth.step] at hstep
    split at hstep
    · cases hstep
      exact ⟨hstate.revoked, hstate.granted, hstate.applying, hstate.sections⟩
    · cases hstep
  | exchangeFailed signIn =>
    cases hstep
    exact ⟨hstate.revoked, hstate.granted, hstate.applying, hstate.sections⟩
  | finishSignIn signIn result =>
    have hidle : state.refreshing.applying = false := by
      simpa [appliesToSender] using hsender
    simp only [Auth.step] at hstep
    split at hstep
    next attempt generation hfound =>
      split at hstep
      · cases hstep
        unfold Auth.finishSignIn
        split
        · exact ⟨hstate.revoked, hstate.granted, hstate.applying, hstate.sections⟩
        · exact hstate.ofSections rfl hidle hstate.revoked ⟨rfl, rfl⟩
      · cases hstep
    · cases hstep
  | signOut =>
    have hidle : state.refreshing.applying = false := by
      simpa [appliesToSender] using hsender
    simp only [Auth.step] at hstep
    split at hstep
    · cases hstep
      exact hstate.ofSections rfl hidle hstate.revoked nofun
    · cases hstep
  | commit =>
    simp only [Auth.step, map_eq_some_iff] at hstep
    obtain ⟨phase, hcommit, rfl⟩ := hstep
    exact hstate.commitStep hcommit
  | refresh organizationId cached =>
    simp only [Auth.step] at hstep
    split at hstep
    next hidle =>
      cases hstep
      exact hstate.refresh hidle organizationId cached
    · cases hstep
  | respond response =>
    simp only [Auth.step] at hstep
    split at hstep
    next token organizationId hsent => exact hstate.respond hsent hstep
    · cases hstep
  | apply => exact hstate.applyStep hsender hstep
  | revoke =>
    simp only [Auth.step] at hstep
    split at hstep
    next token hrejected =>
      split at hstep
      next hcommit =>
        cases hstep
        have hidle : state.refreshing.applying = false := by
          simp [hrejected, RefreshPhase.applying]
        have hsigning : Fenced { state with refreshing := .signingOut } :=
          hstate.withRefreshing hidle rfl nofun
        refine hsigning.ofSections rfl rfl hsigning.revoked ?_
        rintro rejected session ⟨⟩ hstored
        simp only [appliesToSender, hrejected, all_eq_true, beq_iff_eq] at hsender
        exact hsender session hstored
      · cases hstep
    · cases hstep

end Fenced

theorem fenced_init (loaded : Option (String × Nat × Option String)) : Fenced (init loaded) := by
  refine ⟨by simp [init], nofun, nofun, Settled.sections ⟨⟨nofun, ?_⟩, rfl⟩ rfl rfl⟩
  intro session hsession
  simp only [init, map_eq_some_iff] at hsession
  obtain ⟨loaded, -, rfl⟩ := hsession
  rfl

/-- At every quiescent point the credentials are coherent, provided every
response is applied to the session whose token it answers. -/
theorem quiescent_coherent (loaded : Option (String × Nat × Option String))
    (trace : List AuthAction) (final : Auth)
    (hsender : Trace.Guarded Auth.step
      (fun state action => state.appliesToSender action = true) (init loaded) trace)
    (hrun : Trace.run Auth.step (init loaded) trace = some final)
    (hquiescent : final.Quiescent) : final.Coherent := by
  have hfenced : Fenced final :=
    Trace.guarded_invariant (fun _ _ _ hstate hguard hstep => Fenced.step hstate hguard hstep)
      (fenced_init loaded) hsender hrun
  have hidle : final.refreshing.applying = false := by
    rcases hquiescent.2 with hphase | ⟨token, organizationId, hphase⟩
    · simp [hphase, RefreshPhase.applying]
    · simp [hphase, RefreshPhase.applying]
  obtain ⟨⟨haccess, hstored⟩, hfile⟩ :=
    (sections_iff_settled hquiescent.1 hidle).mp hfenced.sections
  exact ⟨haccess, hstored, hfile, hfenced.revoked⟩

/-- A refresh that migrates the session to an organization, then a sign-out and
a sign-in as somebody else. -/
def refreshThenSwitchUser : List AuthAction :=
  [.refresh (some "org") false, .respond (.success ⟨⟨0, 1⟩, ⟨0, 2⟩, some "org"⟩), .apply, .apply,
    .apply, .beginSignIn, .signOut, .commit, .commit, .commit, .beginSignIn, .takePending 2,
    .finishSignIn 2 ⟨"bob", 3, 4, none⟩, .commit, .commit, .commit]

theorem quiescent_coherent_refreshThenSwitchUser :
    ∃ final, Trace.run Auth.step (init (some ("alice", 0, none))) refreshThenSwitchUser =
        some final ∧
      final.stored = some ⟨⟨2, 4⟩, ⟨"bob", 2⟩, none⟩ ∧ final.Coherent := by
  refine ⟨_, rfl, by decide, ?_⟩
  exact quiescent_coherent (some ("alice", 0, none)) refreshThenSwitchUser _ (by decide) rfl
    ⟨rfl, .inl rfl⟩

/-- The response of a refresh arrives after the session was signed out. -/
def signOutMidRefresh : List AuthAction :=
  [.refresh none false, .signOut, .commit, .commit, .commit,
    .respond (.success ⟨⟨0, 1⟩, ⟨0, 2⟩, none⟩), .apply, .apply]

theorem signOutMidRefresh_cachesToken :
    ¬ ∀ (loaded : Option (String × Nat × Option String)) (trace : List AuthAction) (final : Auth),
      Trace.run Auth.step (init loaded) trace = some final → final.Quiescent →
      final.Coherent := by
  intro hcoherent
  have haccess := (hcoherent (some ("alice", 0, none)) signOutMidRefresh _ rfl
    ⟨rfl, .inl rfl⟩).access ⟨0, 1⟩ rfl
  obtain ⟨session, hstored, -⟩ := haccess
  cases hstored

end Auth

end Keel
