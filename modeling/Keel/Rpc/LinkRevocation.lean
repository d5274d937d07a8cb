import Keel.Rpc.LinkCache
import Mathlib.Data.List.Nodup

/-! # Sign-out revokes peer links

A link whose token was read before a sign-out must not come out of the cache once that
sign-out has been handled. Cached links are dropped with the sign-out. Dials that are
under way are kept out by the flag alone, so they must be gone before it is cleared.
-/

namespace Keel

open List Option

namespace Rpc

namespace Links

/-- The link of a dial that is under way. -/
def CallPhase.link : CallPhase → Option DeviceLink
  | .connecting _ link | .probing _ link => some link
  | _ => none

/-- The era of the credentials that the task is about to apply. -/
def TokenTask.credentials : TokenTask → Option Nat
  | .read false era => some era
  | _ => none

namespace LinkCache

/-- The token of the link was read before a sign-out that has been handled. -/
def Revoked (cache : LinkCache) (link : DeviceLink) : Prop := link.era < cache.handled

/-- The step puts the link into the cache. -/
def Inserts (cache next : LinkCache) (link : DeviceLink) : Prop :=
  ∃ device, (device, link) ∈ next.links ∧ (device, link) ∉ cache.links

/-- The step returns the link to a caller. -/
def Returns (cache next : LinkCache) (link : DeviceLink) : Prop :=
  ∃ (call : Nat) (device : String), next.calls[call]? = some ⟨device, .returned link⟩ ∧
    cache.calls[call]? ≠ some ⟨device, .returned link⟩

/-- The invariant of the cache. -/
structure Tracks (cache : LinkCache) : Prop where
  unique : (cache.links.map Prod.fst).Nodup
  bounded : cache.handled ≤ cache.signOuts
  reading : ∀ signedOut era, cache.task = .read signedOut era → era ≤ cache.signOuts
  cached : ∀ entry ∈ cache.links, cache.handled ≤ entry.2.era
  dialing : cache.revoked = false →
    ∀ call ∈ cache.calls, ∀ link ∈ call.phase.link, cache.handled ≤ link.era

/-- What a step leaves, and what it gives to callers. -/
structure Advances (cache next : LinkCache) : Prop where
  tracks : next.Tracks
  returns : ∀ (call : Nat) device link, next.calls[call]? = some ⟨device, .returned link⟩ →
    cache.calls[call]? = some ⟨device, .returned link⟩ ∨ next.handled ≤ link.era

variable {cache mid next : LinkCache}

theorem Tracks.advances (htracks : next.Tracks) (hcalls : next.calls = cache.calls) :
    Advances cache next :=
  ⟨htracks, fun _ _ _ hreturned => Or.inl (hcalls ▸ hreturned)⟩

theorem Tracks.setPhase (htracks : mid.Tracks) (hcalls : mid.calls = cache.calls) (call : Nat)
    {phase : CallPhase}
    (hdial : mid.revoked = false → ∀ link ∈ phase.link, mid.handled ≤ link.era)
    (hreturn : ∀ link, phase = .returned link → mid.handled ≤ link.era) :
    Advances cache (mid.setPhase call phase) := by
  refine ⟨{ htracks with dialing := fun hrevoked found hfound link hlink => ?_ },
    fun other device link hother => ?_⟩
  · obtain ⟨index, hindex⟩ := mem_iff_getElem?.mp hfound
    rw [LinkCache.setPhase, getElem?_modify] at hindex
    obtain ⟨before, hbefore, rfl⟩ := map_eq_some_iff.mp hindex
    split at hlink
    · exact hdial hrevoked link hlink
    · exact htracks.dialing hrevoked before (mem_of_getElem? hbefore) link hlink
  · rw [LinkCache.setPhase, getElem?_modify] at hother
    obtain ⟨before, hbefore, hphase⟩ := map_eq_some_iff.mp hother
    split at hphase
    · exact Or.inr (hreturn link (congrArg Call.phase hphase))
    · exact Or.inl (hcalls ▸ hphase ▸ hbefore)

theorem Tracks.settle (htracks : mid.Tracks) (hcalls : mid.calls = cache.calls) (call : Nat)
    {phase : CallPhase} (hlink : phase.link = none) (hreturned : ∀ link, phase ≠ .returned link) :
    Advances cache (mid.setPhase call phase) := by
  refine htracks.setPhase hcalls call (fun _ link hdial => ?_)
    (fun link hphase => absurd hphase (hreturned link))
  rw [hlink] at hdial
  cases hdial

theorem mem_without {Value : Type} {entries : List (String × Value)} {key : String}
    {entry : String × Value} :
    entry ∈ without entries key ↔ entry ∈ entries ∧ entry.1 ≠ key := by
  rw [without, mem_filter, decide_eq_true_iff]

theorem Tracks.without (htracks : cache.Tracks) (device : String) :
    ({ cache with links := without cache.links device } : LinkCache).Tracks :=
  { htracks with
    unique := htracks.unique.sublist (filter_sublist.map _)
    cached := fun entry hentry => htracks.cached entry (mem_without.1 hentry).1 }

theorem Tracks.dialState (htracks : cache.Tracks) (dialState : List (String × DialState)) :
    ({ cache with dialState } : LinkCache).Tracks :=
  { htracks with }

theorem cached_calls (cache : LinkCache) (device : String) :
    (cache.cached device).2.calls = cache.calls := by
  rw [LinkCache.cached]
  split
  · split <;> rfl
  · rfl

theorem Tracks.lookup (htracks : cache.Tracks) (device : String) :
    (cache.cached device).2.Tracks := by
  rw [LinkCache.cached]
  split
  · split
    · exact htracks.without device
    · exact htracks
  · exact htracks

theorem cached_mem {device : String} {link : DeviceLink}
    (hcached : (cache.cached device).1 = some link) :
    (device, link) ∈ (cache.cached device).2.links := by
  rw [LinkCache.cached] at hcached ⊢
  split at hcached
  next held hheld =>
    split at hcached
    · cases hcached
    next hopen =>
      obtain rfl : held = link := Option.some.inj hcached
      simp only [hopen]
      obtain ⟨before, after, hlinks, -⟩ := lookup_eq_some_iff.mp hheld
      exact hlinks ▸ mem_append_right _ mem_cons_self
  · cases hcached

variable (htracks : cache.Tracks)
include htracks

theorem Tracks.client (device : String) : Advances cache (cache.client device) := by
  have happend : ∀ {mid : LinkCache} {phase : CallPhase}, mid.Tracks → mid.calls = cache.calls →
      phase.link = none → (∀ link, phase = .returned link → mid.handled ≤ link.era) →
        Advances cache { mid with calls := mid.calls ++ [⟨device, phase⟩] } := by
    intro mid phase hmid hcalls hlink hreturn
    refine ⟨{ hmid with dialing := fun hrevoked call hcall link hdial => ?_ },
      fun call other link hcall => ?_⟩
    · rcases mem_append.mp hcall with hold | hnew
      · exact hmid.dialing hrevoked call hold link hdial
      · rw [mem_singleton.mp hnew, hlink] at hdial
        cases hdial
    · rcases mem_append.mp (mem_of_getElem? hcall) with hold | hnew
      · by_cases hlt : call < mid.calls.length
        · rw [getElem?_append_left hlt, hcalls] at hcall
          exact Or.inl hcall
        · rw [getElem?_append_right (Nat.le_of_not_lt hlt)] at hcall
          have hphase := mem_singleton.mp (mem_of_getElem? hcall)
          exact Or.inr (hreturn link (congrArg Call.phase hphase).symm)
      · exact Or.inr (hreturn link (congrArg Call.phase (mem_singleton.mp hnew)).symm)
  have hmid := htracks.lookup device
  have hcalls := cache.cached_calls device
  cases hrevoked : cache.revoked with
  | true =>
    have hclient : cache.client device =
        { cache with calls := cache.calls ++ [⟨device, .failed notSignedIn⟩] } := by
      simp only [LinkCache.client, hrevoked, if_true]
    rw [hclient]
    exact happend htracks rfl (by rfl) (by simp)
  | false =>
    rcases hcached : cache.cached device with ⟨_ | link, mid⟩
    · have hclient : cache.client device =
          { mid with calls := mid.calls ++ [⟨device, .waiting⟩] } := by
        simp [LinkCache.client, hrevoked, hcached]
      rw [hcached] at hmid hcalls
      rw [hclient]
      exact happend hmid hcalls (by rfl) (by simp)
    · have hclient : cache.client device =
          { mid with calls := mid.calls ++ [⟨device, .returned link⟩] } := by
        simp [LinkCache.client, hrevoked, hcached]
      have hmem := cached_mem (congrArg Prod.fst hcached)
      rw [hcached] at hmid hcalls hmem
      rw [hclient]
      refine happend hmid hcalls (by rfl) fun returned hreturned => ?_
      cases hreturned
      exact hmid.cached _ hmem

theorem Tracks.lock (call : Nat) (device : String) : Advances cache (cache.lock call device) := by
  have hmid := htracks.lookup device
  have hcalls := cache.cached_calls device
  rw [LinkCache.lock]
  split
  next link mid hcached =>
    rw [hcached] at hmid hcalls
    have hmem := cached_mem (congrArg Prod.fst hcached)
    rw [hcached] at hmem
    refine hmid.setPhase hcalls call (fun _ _ h => ?_) fun returned hreturned => ?_
    · cases h
    · cases hreturned
      exact hmid.cached _ hmem
  next mid hcached =>
    rw [hcached] at hmid hcalls
    split
    · exact hmid.settle hcalls call (by rfl) (by simp)
    · exact hmid.settle hcalls call (by rfl) (by simp)

theorem Tracks.attemptFailed (config : LinkCacheConfig) (call : Nat) (device : String)
    (attempt : Nat) (error : RpcError) :
    Advances cache (cache.attemptFailed config call device attempt error) := by
  rw [LinkCache.attemptFailed]
  split
  · exact htracks.settle rfl call (by rfl) (by simp)
  · have hmid : (cache.noteFailure config device).Tracks := htracks.dialState _
    exact hmid.settle (show _ = cache.calls from rfl) call (by rfl) (by simp)

theorem Tracks.readToken (config : LinkCacheConfig) (call : Nat) (device : String) (attempt : Nat) :
    Advances cache (cache.readToken config call device attempt) := by
  rw [LinkCache.readToken]
  split
  · exact htracks.attemptFailed config call device attempt notSignedIn
  · have hmid : ({ cache with nextConn := cache.nextConn + 1 } : LinkCache).Tracks := { htracks with }
    refine hmid.setPhase (show _ = cache.calls from rfl) call (fun _ link hlink => ?_) (fun _ h => ?_)
    · cases hlink
      exact htracks.bounded
    · cases h

theorem Tracks.dialed (call : Nat) (device : String) {link : DeviceLink}
    (hfresh : cache.revoked = false → cache.handled ≤ link.era) :
    Advances cache (cache.dialed call device link) := by
  rw [LinkCache.dialed]
  split
  · have hmid := htracks.dialState (Links.without cache.dialState device)
    exact hmid.settle (show _ = cache.calls from rfl) call (by rfl) (by simp)
  next hrevoked =>
    have hera : cache.handled ≤ link.era := hfresh (Bool.eq_false_of_not_eq_true hrevoked)
    have hmid : ({ cache with
        dialState := Links.without cache.dialState device
        links := inserted cache.links device link } : LinkCache).Tracks := by
      have hwithout := htracks.without device
      refine { htracks with unique := ?_, cached := fun entry hentry => ?_ }
      · refine nodup_cons.mpr ⟨fun hmem => ?_, hwithout.unique⟩
        obtain ⟨entry, hentry, hkey⟩ := mem_map.mp hmem
        exact (mem_without.1 hentry).2 hkey
      · rcases mem_cons.mp hentry with rfl | hold
        · exact hera
        · exact hwithout.cached entry hold
    refine hmid.setPhase (show _ = cache.calls from rfl) call (fun _ _ h => ?_) fun returned hreturned => ?_
    · cases h
    · cases hreturned
      exact hera

theorem Tracks.probed (config : LinkCacheConfig) (call : Nat) (device : String) (attempt : Nat)
    {link : DeviceLink} (hfresh : cache.revoked = false → cache.handled ≤ link.era) (answer : Probe) :
    Advances cache (cache.probed config call device attempt link answer) := by
  cases answer with
  | ready => exact htracks.dialed call device hfresh
  | timedOut | failed error => exact htracks.attemptFailed config call device attempt _

theorem Tracks.stepCall {config : LinkCacheConfig} {id : Nat} {call : Call} {action : Action}
    (hcall : cache.calls[id]? = some call)
    (hstep : stepCall config cache id call action = some next) : Advances cache next := by
  have hfresh : ∀ link ∈ call.phase.link, cache.revoked = false → cache.handled ≤ link.era :=
    fun link hlink hrevoked => htracks.dialing hrevoked call (mem_of_getElem? hcall) link hlink
  cases action with
  | lock _ =>
    rw [Links.stepCall] at hstep
    split at hstep
    · cases hstep
      exact htracks.lock id call.device
    · cases hstep
  | readToken _ =>
    rw [Links.stepCall] at hstep
    split at hstep
    next attempt hphase =>
      cases hstep
      exact htracks.readToken config id call.device attempt
    · cases hstep
  | connect _ error =>
    rw [Links.stepCall] at hstep
    split at hstep
    next attempt link hphase =>
      rw [hphase] at hfresh
      cases error with
      | none =>
        cases hstep
        refine htracks.setPhase rfl id (fun hrevoked dialed hdialed => ?_) (fun _ h => ?_)
        · cases hdialed
          exact hfresh link rfl hrevoked
        · cases h
      | some error =>
        cases hstep
        exact htracks.attemptFailed config id call.device attempt error
    · cases hstep
  | probe _ answer =>
    rw [Links.stepCall] at hstep
    split at hstep
    next attempt link hphase =>
      cases hstep
      rw [hphase] at hfresh
      exact htracks.probed config id call.device attempt (hfresh link rfl) answer
    · cases hstep
  | dropCall _ =>
    rw [Links.stepCall] at hstep
    split at hstep
    · cases hstep
    · cases hstep
    · cases hstep
    · cases hstep
      exact htracks.settle rfl id (by rfl) (by simp)
  | _ => cases hstep

/-- The task applies credentials that nothing under way is older than, or none. -/
theorem Tracks.applyToken {signedOut : Bool} {era : Nat} (htask : cache.task = .read signedOut era)
    (hfresh : signedOut = false → (∀ entry ∈ cache.links, era ≤ entry.2.era) ∧
      ∀ call ∈ cache.calls, ∀ link ∈ call.phase.link, max cache.handled era ≤ link.era) :
    (cache.applyToken signedOut era).Tracks := by
  have hbounded : max cache.handled era ≤ cache.signOuts :=
    Nat.max_le.mpr ⟨htracks.bounded, htracks.reading _ _ htask⟩
  cases signedOut with
  | true =>
    exact ⟨nodup_nil, hbounded, (fun _ _ h => by cases h), (fun _ h => by cases h),
      (fun h => by cases h)⟩
  | false =>
    obtain ⟨hlinks, hcalls⟩ := hfresh rfl
    refine ⟨htracks.unique, hbounded, (fun _ _ h => by cases h), fun entry hentry => ?_,
      fun _ => hcalls⟩
    exact Nat.max_le.mpr ⟨htracks.cached entry hentry, hlinks entry hentry⟩

end LinkCache

/-- When the task finds credentials, and with them clears the flag, no link is cached and no dial
is under way whose token was read before a sign-out that is over by then. -/
def ClearsFresh (cache : LinkCache) : Action → Prop
  | .taskApplies => ∀ era ∈ cache.task.credentials, (∀ entry ∈ cache.links, era ≤ entry.2.era) ∧
      ∀ call ∈ cache.calls, ∀ link ∈ call.phase.link, max cache.handled era ≤ link.era
  | _ => True

instance (cache : LinkCache) (action : Action) : Decidable (ClearsFresh cache action) :=
  match action with
  | .taskApplies => inferInstanceAs (Decidable (∀ era ∈ cache.task.credentials,
      (∀ entry ∈ cache.links, era ≤ entry.2.era) ∧
        ∀ call ∈ cache.calls, ∀ link ∈ call.phase.link, max cache.handled era ≤ link.era))
  | .client _ | .lock _ | .readToken _ | .connect _ _ | .probe _ _ | .dropCall _ | .signOut
  | .signIn _ | .expire | .takeChange | .taskReads | .wake | .disconnectAll | .invalidate _
  | .resetCooldown _ | .close _ | .evict _ _ | .tick _ => isTrue trivial

variable {config : LinkCacheConfig}

open LinkCache in
theorem step_advances {cache next : LinkCache} {action : Action} (htracks : cache.Tracks)
    (hclears : ClearsFresh cache action) (hstep : step config cache action = some next) :
    Advances cache next := by
  cases action with
  | client device =>
    cases hstep
    exact htracks.client device
  | lock _ | readToken _ | connect _ _ | probe _ _ | dropCall _ =>
    obtain ⟨call, hcall, hstep⟩ := bind_eq_some_iff.mp hstep
    exact htracks.stepCall hcall hstep
  | signOut =>
    cases hstep
    exact Tracks.advances { htracks with
      bounded := Nat.le_succ_of_le htracks.bounded
      reading := fun _ _ h => Nat.le_succ_of_le (htracks.reading _ _ h) } rfl
  | signIn _ | expire | tick _ | close _ =>
    cases hstep
    exact Tracks.advances { htracks with } rfl
  | takeChange =>
    rw [step] at hstep
    split at hstep
    · cases hstep
      exact Tracks.advances { htracks with reading := fun _ _ h => by cases h } rfl
    · cases hstep
  | taskReads =>
    rw [step] at hstep
    split at hstep
    · cases hstep
      refine Tracks.advances { htracks with reading := fun _ _ h => ?_ } rfl
      cases h
      exact Nat.le_refl _
    · cases hstep
  | taskApplies =>
    rw [step] at hstep
    split at hstep
    next signedOut era htask =>
      cases hstep
      refine (htracks.applyToken htask fun hcredentials => ?_).advances rfl
      exact hclears era (by rw [htask, hcredentials]; rfl)
    · cases hstep
  | wake =>
    rw [step] at hstep
    split at hstep
    · cases hstep
      exact Tracks.advances
        { htracks with unique := nodup_nil, cached := fun _ h => by cases h } rfl
    · cases hstep
  | disconnectAll =>
    cases hstep
    exact Tracks.advances { htracks with
      unique := nodup_nil
      bounded := Nat.le_refl _
      cached := fun _ h => by cases h
      dialing := fun h => by cases h } rfl
  | invalidate device =>
    cases hstep
    exact (htracks.without device).advances rfl
  | resetCooldown device =>
    cases hstep
    exact (htracks.dialState _).advances rfl
  | evict device connId =>
    rw [step] at hstep
    split at hstep
    · cases hstep
      split
      · exact (htracks.without device).advances rfl
      · exact htracks.advances rfl
    · cases hstep

theorem empty_tracks : (({} : LinkCache)).Tracks where
  unique := nodup_nil
  bounded := Nat.le_refl _
  reading _ _ h := by cases h
  cached _ h := by cases h
  dialing _ _ h := by cases h

/-- In every run that clears the flag only when nothing from before a sign-out is under way, a
device has one cached link at most, and no step caches or returns a revoked one. -/
theorem sign_out_revokes {actions : List Action} {action : Action} {cache next : LinkCache}
    (hguarded : Trace.Guarded (step config) ClearsFresh {} actions)
    (hrun : Trace.run (step config) {} actions = some cache)
    (hclears : ClearsFresh cache action) (hstep : step config cache action = some next) :
    (next.links.map Prod.fst).Nodup ∧
      ∀ link, cache.Inserts next link ∨ cache.Returns next link → ¬ next.Revoked link := by
  have htracks : cache.Tracks :=
    Trace.guarded_invariant (fun _ _ _ h hguard hstep => (step_advances h hguard hstep).tracks)
      empty_tracks hguarded hrun
  have hadvances := step_advances htracks hclears hstep
  refine ⟨hadvances.tracks.unique, fun link hlink => Nat.not_lt_of_le ?_⟩
  rcases hlink with ⟨device, hcached, -⟩ | ⟨call, device, hreturned, hnew⟩
  · exact hadvances.tracks.cached _ hcached
  · exact (hadvances.returns call device link hreturned).resolve_left hnew

/-- A link, a sign-out that is handled, a sign-in, and a new dial up to its probe. -/
def redialRun : List Action :=
  [.signIn "first", .client "laptop", .lock 0, .readToken 0, .connect 0 none, .probe 0 .ready,
    .signOut, .takeChange, .taskReads, .taskApplies, .signIn "second", .takeChange, .taskReads,
    .taskApplies, .client "laptop", .lock 1, .readToken 1, .connect 1 none]

def redialEnd : LinkCache where
  calls := [⟨"laptop", .returned ⟨0, "first", 0⟩⟩, ⟨"laptop", .probing 0 ⟨1, "second", 1⟩⟩]
  token := some "second"
  nextConn := 2
  signOuts := 1
  handled := 1

theorem sign_out_revokes_redial :
    ¬ (redialEnd.dialed 1 "laptop" ⟨1, "second", 1⟩).Revoked ⟨1, "second", 1⟩ := by
  have hrevokes := @sign_out_revokes {} redialRun (.probe 1 .ready) redialEnd
    (redialEnd.dialed 1 "laptop" ⟨1, "second", 1⟩) (by decide +kernel) (by decide +kernel) trivial
    (by decide +kernel)
  exact hrevokes.2 _ (Or.inl ⟨"laptop", by decide +kernel, by decide⟩)

/-- A dial that reads its token before a sign-out and is probed after the next sign-in. -/
def oldDialRun : List Action :=
  [.signIn "first", .client "laptop", .lock 0, .readToken 0, .connect 0 none,
    .signOut, .takeChange, .taskReads, .taskApplies, .signIn "second", .takeChange, .taskReads,
    .taskApplies]

def oldDialEnd : LinkCache where
  calls := [⟨"laptop", .probing 0 ⟨0, "first", 0⟩⟩]
  token := some "second"
  nextConn := 1
  signOuts := 1
  handled := 1

/-- The link of the first user is cached and returned after that user's sign-out. -/
theorem old_dial_outlives_sign_out :
    ¬ ∀ (config : LinkCacheConfig) (actions : List Action) (action : Action)
      (cache next : LinkCache), Trace.run (step config) {} actions = some cache →
        step config cache action = some next →
          (next.links.map Prod.fst).Nodup ∧
            ∀ link, cache.Inserts next link ∨ cache.Returns next link → ¬ next.Revoked link := by
  intro hall
  obtain ⟨-, hfresh⟩ := hall {} oldDialRun (.probe 0 .ready) oldDialEnd
    (oldDialEnd.dialed 0 "laptop" ⟨0, "first", 0⟩) (by decide +kernel) (by decide +kernel)
  have hrevoked : (oldDialEnd.dialed 0 "laptop" ⟨0, "first", 0⟩).Revoked ⟨0, "first", 0⟩ :=
    Nat.zero_lt_one
  exact hfresh _ (Or.inl ⟨"laptop", by decide +kernel, by decide⟩) hrevoked

end Links

end Rpc

end Keel
