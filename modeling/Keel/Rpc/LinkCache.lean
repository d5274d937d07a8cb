import Keel.Foundation.Trace
import Keel.Rpc.Frames
import Mathlib.Algebra.Group.Nat.Defs
import Mathlib.Data.List.Basic

/-! # The cache of peer links

The clients of a device share one link to it. A link is opened with the token that its
dial read, and stays authenticated by that token until it closes. Calls wait at the lock
of their device, at the token, at the connection, at the readiness probe and between
attempts, and everything interleaves there; a task follows the token and revokes the
cache when it is gone.

The model counts the sign-outs, which the code does not: how many there were when a token
was read, and how many have been handled.
-/

namespace Keel

namespace Rpc

namespace Links

def DIAL_ATTEMPTS : Nat := 3

/-- Consecutive failures older than this decay to zero; times are in milliseconds. -/
def FAILURE_DECAY : Nat := 600000

structure LinkCacheConfig where
  cooldownBase : Nat := 5000
  cooldownMax : Nat := 60000

structure DialState where
  failures : Nat := 0
  lastFailure : Option Nat := none
  cooldownUntil : Option Nat := none
deriving DecidableEq

structure DeviceLink where
  connId : Nat
  /-- The token its socket was authenticated with. -/
  token : String
  /-- The sign-outs before the token was read. -/
  era : Nat
deriving DecidableEq

inductive CallPhase where
  /-- At the dial lock of its device. -/
  | waiting
  /-- Before the token of an attempt, asleep or not. -/
  | reading (attempt : Nat)
  | connecting (attempt : Nat) (link : DeviceLink)
  | probing (attempt : Nat) (link : DeviceLink)
  | returned (link : DeviceLink)
  | failed (error : RpcError)
  /-- The caller went away. -/
  | dropped
deriving DecidableEq

/-- A call of `client`. -/
structure Call where
  device : String
  phase : CallPhase
deriving DecidableEq

/-- Where the task that follows the token is. -/
inductive TokenTask where
  | idle
  /-- It took a change and waits for the token. -/
  | changed
  /-- It has the token that there was after some sign-outs. -/
  | read (signedOut : Bool) (era : Nat)
deriving DecidableEq

structure LinkCache where
  revoked : Bool := false
  links : List (String × DeviceLink) := []
  dialState : List (String × DialState) := []
  calls : List Call := []
  task : TokenTask := .idle
  token : Option String := none
  tokenChanged : Bool := false
  closed : List Nat := []
  nextConn : Nat := 0
  now : Nat := 0
  signOuts : Nat := 0
  handled : Nat := 0
deriving DecidableEq

inductive Probe where
  | ready
  | timedOut
  | failed (error : RpcError)

inductive Action where
  | client (device : String)
  /-- The call gets the dial lock. -/
  | lock (call : Nat)
  | readToken (call : Nat)
  | connect (call : Nat) (error : Option RpcError)
  | probe (call : Nat) (answer : Probe)
  | dropCall (call : Nat)
  | signOut
  /-- A sign-in as any user, or a fresh token. -/
  | signIn (token : String)
  /-- No token can be had, without a sign-out. -/
  | expire
  /-- The three parts of the task's turn after a change of the token. -/
  | takeChange
  | taskReads
  | taskApplies
  | wake
  | disconnectAll
  | invalidate (device : String)
  | resetCooldown (device : String)
  | close (connId : Nat)
  /-- The evictor of a closed link runs. -/
  | evict (device : String) (connId : Nat)
  | tick (elapsed : Nat)

def without {Value : Type} (entries : List (String × Value)) (key : String) :
    List (String × Value) :=
  entries.filter (·.1 ≠ key)

def inserted {Value : Type} (entries : List (String × Value)) (key : String) (value : Value) :
    List (String × Value) :=
  (key, value) :: without entries key

def notSignedIn : RpcError := .transport "not signed in"

/-- The call holds the dial lock of its device. -/
def Call.holdsLock (call : Call) : Bool :=
  match call.phase with
  | .reading _ | .connecting _ _ | .probing _ _ => true
  | _ => false

namespace LinkCache

def setPhase (cache : LinkCache) (call : Nat) (phase : CallPhase) : LinkCache :=
  { cache with calls := cache.calls.modify call fun found => { found with phase } }

def isClosed (cache : LinkCache) (link : DeviceLink) : Bool := cache.closed.contains link.connId

/-- The cached link of a device; one that closed is dropped. -/
def cached (cache : LinkCache) (device : String) : Option DeviceLink × LinkCache :=
  match cache.links.lookup device with
  | some link =>
    if cache.isClosed link then (none, { cache with links := without cache.links device })
    else (some link, cache)
  | none => (none, cache)

def cooling (cache : LinkCache) (device : String) : Option String :=
  match cache.dialState.lookup device with
  | some { failures, cooldownUntil := some deadline, .. } =>
    if cache.now ≥ deadline then none
    else some ("peer " ++ device ++ ": unreachable (backing off after " ++ toString failures ++
      " failed dials; retrying in ~" ++ toString (max ((deadline - cache.now) / 1000) 1) ++ "s)")
  | _ => none

def noteFailure (config : LinkCacheConfig) (cache : LinkCache) (device : String) : LinkCache :=
  let entry := (cache.dialState.lookup device).getD {}
  let stale := entry.lastFailure.any fun failure => cache.now - failure > FAILURE_DECAY
  let failures := (if stale then 0 else entry.failures) + 1
  let backoff := min (config.cooldownBase * 2 ^ min (failures - 1) 16) config.cooldownMax
  let noted : DialState :=
    { failures, lastFailure := some cache.now, cooldownUntil := some (cache.now + backoff) }
  { cache with dialState := inserted cache.dialState device noted }

/-- A call of `client` up to the dial lock. -/
def client (cache : LinkCache) (device : String) : LinkCache :=
  let (phase, cache) :=
    if cache.revoked then (.failed notSignedIn, cache)
    else match cache.cached device with
      | (some link, cache) => (.returned link, cache)
      | (none, cache) => (.waiting, cache)
  { cache with calls := cache.calls ++ [⟨device, phase⟩] }

/-- From the dial lock to the first attempt: a concurrent dial may have won. -/
def lock (cache : LinkCache) (call : Nat) (device : String) : LinkCache :=
  match cache.cached device with
  | (some link, cache) => cache.setPhase call (.returned link)
  | (none, cache) =>
    match cache.cooling device with
    | some message => cache.setPhase call (.failed (.transport message))
    | none => cache.setPhase call (.reading 0)

/-- An attempt failed. Only the exhausted sequence counts as a failure. -/
def attemptFailed (config : LinkCacheConfig) (cache : LinkCache) (call : Nat) (device : String)
    (attempt : Nat) (error : RpcError) : LinkCache :=
  if attempt + 1 < DIAL_ATTEMPTS then cache.setPhase call (.reading (attempt + 1))
  else (cache.noteFailure config device).setPhase call (.failed error)

/-- The token of an attempt; the socket that it opens is a new one. -/
def readToken (config : LinkCacheConfig) (cache : LinkCache) (call : Nat) (device : String)
    (attempt : Nat) : LinkCache :=
  match cache.token with
  | none => cache.attemptFailed config call device attempt notSignedIn
  | some token =>
    { cache with nextConn := cache.nextConn + 1 }.setPhase call
      (.connecting attempt ⟨cache.nextConn, token, cache.signOuts⟩)

def dialed (cache : LinkCache) (call : Nat) (device : String) (link : DeviceLink) : LinkCache :=
  let cache := { cache with dialState := without cache.dialState device }
  if cache.revoked then cache.setPhase call (.failed notSignedIn)
  else { cache with links := inserted cache.links device link }.setPhase call (.returned link)

def probed (config : LinkCacheConfig) (cache : LinkCache) (call : Nat) (device : String)
    (attempt : Nat) (link : DeviceLink) : Probe → LinkCache
  | .ready => cache.dialed call device link
  | .timedOut => cache.attemptFailed config call device attempt
      (.transport ("peer " ++ device ++ ": readiness check timed out"))
  | .failed error => cache.attemptFailed config call device attempt
      (.transport ("peer " ++ device ++ ": readiness check failed: " ++ error.text))

/-- The task applies what it read, and the sign-outs until then are handled. -/
def applyToken (cache : LinkCache) (signedOut : Bool) (era : Nat) : LinkCache :=
  { cache with
    revoked := signedOut
    links := if signedOut then [] else cache.links
    dialState := []
    task := .idle
    handled := max cache.handled era }

end LinkCache

def stepCall (config : LinkCacheConfig) (cache : LinkCache) (id : Nat) (call : Call) :
    Action → Option LinkCache
  | .lock _ =>
    if call.phase = .waiting ∧
        ¬ cache.calls.any fun holder => holder.holdsLock ∧ holder.device = call.device then
      some (cache.lock id call.device)
    else none
  | .readToken _ =>
    match call.phase with
    | .reading attempt => some (cache.readToken config id call.device attempt)
    | _ => none
  | .connect _ error =>
    match call.phase with
    | .connecting attempt link =>
      match error with
      | none => some (cache.setPhase id (.probing attempt link))
      | some error => some (cache.attemptFailed config id call.device attempt error)
    | _ => none
  | .probe _ answer =>
    match call.phase with
    | .probing attempt link => some (cache.probed config id call.device attempt link answer)
    | _ => none
  | .dropCall _ =>
    match call.phase with
    | .returned _ | .failed _ | .dropped => none
    | _ => some (cache.setPhase id .dropped)
  | _ => none

def step (config : LinkCacheConfig) (cache : LinkCache) (action : Action) : Option LinkCache :=
  match action with
  | .client device => some (cache.client device)
  | .lock call | .readToken call | .connect call _ | .probe call _ | .dropCall call =>
    cache.calls[call]?.bind fun found => stepCall config cache call found action
  | .signOut => some { cache with
      token := none, tokenChanged := true, signOuts := cache.signOuts + 1 }
  | .signIn token => some { cache with token := some token, tokenChanged := true }
  | .expire => some { cache with token := none }
  | .takeChange =>
    if cache.task = .idle ∧ cache.tokenChanged then
      some { cache with task := .changed, tokenChanged := false }
    else none
  | .taskReads =>
    if cache.task = .changed then
      some { cache with task := .read cache.token.isNone cache.signOuts }
    else none
  | .taskApplies =>
    match cache.task with
    | .read signedOut era => some (cache.applyToken signedOut era)
    | _ => none
  | .wake =>
    if cache.task = .idle then some { cache with links := [], dialState := [] } else none
  | .disconnectAll => some { cache with
      revoked := true, links := [], dialState := [], handled := cache.signOuts }
  | .invalidate device => some { cache with links := without cache.links device }
  | .resetCooldown device => some { cache with dialState := without cache.dialState device }
  | .close connId => some { cache with closed := connId :: cache.closed }
  | .evict device connId =>
    if cache.closed.contains connId then
      some (if (cache.links.lookup device).any (·.connId = connId) then
        { cache with links := without cache.links device } else cache)
    else none
  | .tick elapsed => some { cache with now := cache.now + elapsed }

end Links

end Rpc

end Keel
