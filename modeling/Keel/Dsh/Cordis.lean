import Mathlib.Algebra.Group.Nat.Defs
import Mathlib.Data.List.Basic
import Mathlib.Tactic.Common
import Keel.Foundation.Trace

/-! # The plugin framework core

Contexts, fibers, the service store and effects. A fiber loads its plugin when every
service it injects is bound, and unloads, running the disposers of its effects in
reverse order, when one of them goes. Its lifecycle work is a task that is suspended at
awaits; so is the disposal of an effect. A step of the system is one call into the
framework, or one piece of such a task between two awaits.

Values and configurations are left out, as are listeners, which run in tasks of their
own. Three fields count what the framework does not store: the successful bodies since
the last unload, the unloads of a fiber, and the disposers that have started.
-/

namespace Keel

namespace Cordis

abbrev FiberId := Nat
abbrev Label := Nat
abbrev EffectId := Nat
abbrev PluginKey := Nat

inductive FiberState where
  | pending
  | loading
  | active
  | failed
  | disposed
  | unloading
  deriving DecidableEq

/-- An activation carries the uids of the providers of the injected services. -/
inductive Epoch where
  | inactive
  | active (uids : List Nat)
  deriving DecidableEq

/-- A context names its fiber and the labels of its isolated services, innermost
first. -/
structure Context where
  fiber : FiberId
  isolate : List (String × Label)
  deriving DecidableEq

/-- A service implementation; `id` is the identity of the shared record. -/
structure ImplRecord where
  id : Nat
  name : String
  fiber : FiberId
  checked : Bool
  deriving DecidableEq

inductive Disposer where
  | user (tag : Nat)
  | hook (id : Nat)
  | service (ctx : Context) (label : Label) (name : String)
  | child (fiber : FiberId)
  deriving DecidableEq

/-- What the running disposer of an effect waits for. -/
inductive Waiting where
  | user
  /-- The dependents woken by the removal of a service. -/
  | woken (left : List FiberId) (provider : FiberId) (name : String)
  | child (fiber : FiberId)
  deriving DecidableEq

/-- The disposal of an effect: the disposers left to run, and the one running. -/
inductive Disposal where
  | idle
  | running (left : List Disposer) (current : Option Waiting)
  deriving DecidableEq

structure EffectState where
  fiber : FiberId
  disposers : List Disposer
  disposal : Disposal
  /-- The unload of its fiber that began the disposal, if one did. -/
  begunBy : Option Nat
  deriving DecidableEq

/-- The lifecycle task of a fiber, where it is suspended. -/
inductive Task where
  | spawnedLoad
  | spawnedUnload
  | checkpoint (expected : Epoch)
  | resolvingConfig
  | applying
  | unloading (handles : List EffectId)
  deriving DecidableEq

structure FiberData where
  uid : Option Nat
  parent : Option FiberId
  ctx : Context
  state : FiberState
  inject : List String
  runtime : Option PluginKey
  error : Bool
  epoch : Epoch
  storeSnapshot : Option (String → Option ImplRecord)
  liveStore : String → Option ImplRecord
  disposables : List EffectId
  inertia : Option Task
  applied : Nat
  unloads : Nat

structure Hook where
  id : Nat
  fiber : FiberId
  deriving DecidableEq

structure App where
  /-- Fibers are never removed, so the list is indexed by their ids. -/
  fibers : List FiberData
  runtimes : List (PluginKey × List FiberId)
  hooks : List Hook
  store : List (Label × ImplRecord)
  rootIsolate : List (String × Label)
  labelCounter : Nat
  hookCounter : Nat
  recordCounter : Nat
  effects : List EffectState
  /-- Updates of an active fiber that have passed the listeners not yet run. -/
  updates : List FiberId
  /-- The pending calls of `dispose`. -/
  disposing : List FiberId
  ran : List (EffectId × Disposer)

def rootContext : Context := ⟨0, []⟩

def App.new : App where
  fibers := [{
    uid := some 0, parent := none, ctx := rootContext, state := .active, inject := [],
    runtime := none, error := false, epoch := .active [], storeSnapshot := some fun _ => none,
    liveStore := fun _ => none, disposables := [], inertia := none, applied := 0, unloads := 0 }]
  runtimes := []
  hooks := []
  store := []
  rootIsolate := []
  labelCounter := 0
  hookCounter := 0
  recordCounter := 0
  effects := []
  updates := []
  disposing := []
  ran := []

namespace App

def modifyFiber (app : App) (id : FiberId) (change : FiberData → FiberData) : App :=
  { app with fibers := app.fibers.modify id change }

def modifyEffect (app : App) (id : EffectId) (change : EffectState → EffectState) : App :=
  { app with effects := app.effects.modify id change }

/-- The label of a service: the isolation chain first, then the root map. -/
def isolateLookup (app : App) (ctx : Context) (name : String) : Option Label :=
  match ctx.isolate.lookup name with
  | some label => some label
  | none => app.rootIsolate.lookup name

/-- A child context with its own scope for a service, under the given label or a fresh
one. -/
def isolate (app : App) (ctx : Context) (name : String) : Option Label → App × Context
  | some label => (app, { ctx with isolate := (name, label) :: ctx.isolate })
  | none =>
    ({ app with labelCounter := app.labelCounter + 1 },
      { ctx with isolate := (name, app.labelCounter + 1) :: ctx.isolate })

/-- The record bound to a name of a context. -/
def bound (app : App) (ctx : Context) (name : String) : Option ImplRecord :=
  (app.isolateLookup ctx name).bind fun label => app.store.lookup label

def inertia (app : App) (id : FiberId) : Option Task :=
  app.fibers[id]?.bind FiberData.inertia

def registered (app : App) : List FiberId := app.runtimes.flatMap Prod.snd

end App

/-- What the framework leaves open: the order in which the map of runtimes gives its
fibers, and the answers of the availability checks of services. -/
structure Host where
  candidates : App → List FiberId
  perm_candidates : ∀ app, (candidates app).Perm app.registered
  check : App → ImplRecord → Bool

/-- Insertion order, and services that are always available. -/
def Host.plain : Host := ⟨App.registered, fun _ => .rfl, fun _ _ => true⟩

/-! ## Dependency checks and transitions -/

def u64Max : Nat := 2 ^ 64 - 1

section Transitions

variable (host : Host)

/-- Check one injected service of a fiber against the store. -/
def checkImpl (app : App) (id : FiberId) (name : String) : App :=
  match app.fibers[id]? with
  | none => app
  | some data =>
    let live :=
      match app.bound data.ctx name with
      | none => none
      | some record =>
        if record.checked then
          if record.fiber < app.fibers.length && host.check app record then some record
          else none
        else some record
    app.modifyFiber id fun data =>
      { data with liveStore := Function.update data.liveStore name live }

/-- The epoch of the live services of a fiber. A disposed provider counts as the largest
uid. -/
def liveEpoch (app : App) (data : FiberData) : Epoch :=
  if data.inject.all fun name => (data.liveStore name).isSome then
    .active <| data.inject.filterMap fun name => (data.liveStore name).map fun record =>
      (app.fibers[record.fiber]?.bind FiberData.uid).getD u64Max
  else .inactive

variable (notify : App → Context → List String → App)

/-- Change the state of a fiber; dependents of its services hear when it becomes active
or stops being so. -/
def updateState (app : App) (id : FiberId) (state : FiberState) : App :=
  match app.fibers[id]? with
  | none => app
  | some data =>
    let app := app.modifyFiber id fun data => { data with state }
    if (data.state == .active) = (state == .active) then app
    else
      let names := (app.store.filter fun entry => entry.2.fiber = id).map fun entry => entry.2.name
      if names.isEmpty then app else notify app data.ctx names

/-- Spawn the lifecycle task of a fiber. -/
def startTransition (app : App) (id : FiberId) (task : Task) (state : FiberState) : App :=
  updateState notify (app.modifyFiber id fun data => { data with inertia := some task }) id state

/-- Apply an epoch. A task in flight is left to see it; otherwise a load or an unload
starts. -/
def setEpoch (app : App) (id : FiberId) (epoch : Epoch) : App :=
  match app.fibers[id]? with
  | none => app
  | some data =>
    if data.epoch = epoch then app
    else
      let app := app.modifyFiber id fun data => { data with epoch }
      if data.inertia.isSome then app
      else if epoch ≠ .inactive ∧ data.epoch = .inactive then
        startTransition notify app id .spawnedLoad .loading
      else startTransition notify app id .spawnedUnload .unloading

def refresh (app : App) (id : FiberId) : App :=
  match app.fibers[id]? with
  | none => app
  | some data => setEpoch notify app id (liveEpoch app data)

/-- The injected names of a fiber that a notification is about, in its scope. -/
def matching (app : App) (ctx : Context) (names : List String) (data : FiberData) : List String :=
  names.filter fun name =>
    data.inject.contains name && app.isolateLookup data.ctx name == app.isolateLookup ctx name

/-- Check and refresh one fiber for a notification. -/
def notifyFiber (ctx : Context) (names : List String) (app : App) (id : FiberId) : App :=
  match app.fibers[id]? with
  | none => app
  | some data =>
    let found := matching app ctx names data
    if found.isEmpty then app
    else refresh notify (found.foldl (fun app name => checkImpl host app id name) app) id

end Transitions

variable (host : Host)

/-- Check and refresh every fiber that injects one of the services. A fiber that stops
being active notifies in turn, so the depth is bounded by the number of fibers. -/
def notifyDepth : Nat → App → Context → List String → App
  | 0, app, _, _ => app
  | depth + 1, app, ctx, names =>
    (host.candidates app).foldl (notifyFiber host (notifyDepth depth) ctx names) app

def notify (app : App) (ctx : Context) (names : List String) : App :=
  notifyDepth host (app.fibers.length + 1) app ctx names

/-- The fibers a notification refreshes. -/
def woken (app : App) (ctx : Context) (names : List String) : List FiberId :=
  (host.candidates app).filter fun id =>
    match app.fibers[id]? with
    | none => false
    | some data => !(matching app ctx names data).isEmpty

/-! ## Lifecycle tasks -/

/-- The state of a fiber whose task is over. -/
def settledState (data : FiberData) : FiberState :=
  if data.uid.isNone then .disposed
  else if data.error then .failed
  else if data.epoch ≠ .inactive then .active
  else .pending

/-- A load begins with a snapshot of the live store, and yields once. -/
def FiberData.beginLoad (data : FiberData) : FiberData :=
  { data with storeSnapshot := some data.liveStore, inertia := some (.checkpoint data.epoch) }

/-- An unload begins by taking the effects of the fiber, newest first. -/
def FiberData.beginUnload (data : FiberData) : FiberData :=
  { data with
    disposables := [], inertia := some (.unloading data.disposables.reverse), applied := 0
    unloads := data.unloads + 1 }

/-- End the task of a fiber and settle its state. -/
def settle (app : App) (id : FiberId) (data : FiberData) : App :=
  updateState (notify host) (app.modifyFiber id fun data => { data with inertia := none }) id
    (settledState data)

/-- After a load, the task unloads when the epoch has become inactive. -/
def endLoad (app : App) (id : FiberId) : App :=
  match app.fibers[id]? with
  | none => app
  | some data =>
    match data.epoch with
    | .inactive =>
      (updateState (notify host) app id .unloading).modifyFiber id FiberData.beginUnload
    | .active _ => settle host app id data

/-- After an unload, the task loads when the epoch has become active. -/
def endUnload (app : App) (id : FiberId) : App :=
  let app := app.modifyFiber id fun data => { data with storeSnapshot := none }
  match app.fibers[id]? with
  | none => app
  | some data =>
    match data.epoch with
    | .inactive => settle host app id data
    | .active _ => (updateState (notify host) app id .loading).modifyFiber id FiberData.beginLoad

/-- The body or its configuration fails. -/
def failLoad (app : App) (id : FiberId) : App :=
  endLoad host (app.modifyFiber id fun data => { data with error := true, epoch := .inactive }) id

/-! ## Effects -/

/-- Registrations need a fiber that is neither disposed nor unloading. -/
def acceptsEffects (app : App) (id : FiberId) : Bool :=
  match app.fibers[id]? with
  | none => false
  | some data => data.uid.isSome && data.state != .unloading

def registerEffect (app : App) (id : FiberId) (disposers : List Disposer) : App :=
  let effect := app.effects.length
  let app := { app with effects := app.effects ++ [EffectState.mk id disposers .idle none] }
  app.modifyFiber id fun data => { data with disposables := data.disposables ++ [effect] }

/-- Register an effect with the given disposers. -/
def effect (app : App) (ctx : Context) (tags : List Nat) : Option App :=
  if acceptsEffects app ctx.fiber then
    some (registerEffect app ctx.fiber (tags.map .user))
  else none

def on (app : App) (ctx : Context) : Option App :=
  let app := { app with hookCounter := app.hookCounter + 1 }
  if acceptsEffects app ctx.fiber then
    some (registerEffect { app with hooks := app.hooks ++ [Hook.mk app.hookCounter ctx.fiber] }
      ctx.fiber [.hook app.hookCounter])
  else none

/-- The root label of a service is created when it is first provided. -/
def ensureLabel (app : App) (name : String) : App :=
  match app.rootIsolate.lookup name with
  | some _ => app
  | none =>
    { app with
      labelCounter := app.labelCounter + 1
      rootIsolate := (name, app.labelCounter + 1) :: app.rootIsolate }

def insertOwn (record : ImplRecord) (data : FiberData) : FiberData :=
  { data with
    storeSnapshot := data.storeSnapshot.map fun snapshot =>
      Function.update snapshot record.name (some record)
    liveStore := Function.update data.liveStore record.name (some record) }

def removeOwn (name : String) (data : FiberData) : FiberData :=
  { data with
    storeSnapshot := data.storeSnapshot.map fun snapshot => Function.update snapshot name none
    liveStore := Function.update data.liveStore name none }

/-- Provide a service in the scope of a context. The root label stays when the service
is refused. -/
def provide (app : App) (ctx : Context) (name : String) (checked : Bool) : App :=
  let app := ensureLabel app name
  match app.isolateLookup ctx name with
  | none => app
  | some label =>
    if acceptsEffects app ctx.fiber && (app.store.lookup label).isNone then
      let record : ImplRecord := ⟨app.recordCounter, name, ctx.fiber, checked⟩
      let app := { app with
        recordCounter := app.recordCounter + 1, store := (label, record) :: app.store }
      let app := app.modifyFiber ctx.fiber (insertOwn record)
      let app :=
        if (app.fibers[ctx.fiber]?.map FiberData.state) = some .active then
          notify host app ctx [name]
        else app
      registerEffect app ctx.fiber [.service ctx label name]
    else app

/-! ## Fibers -/

def addRuntime (runtimes : List (PluginKey × List FiberId)) (key : PluginKey) (id : FiberId) :
    List (PluginKey × List FiberId) :=
  if runtimes.any fun entry => entry.1 = key then
    runtimes.map fun entry => if entry.1 = key then (key, entry.2 ++ [id]) else entry
  else runtimes ++ [(key, [id])]

/-- A fiber leaves its runtime; a runtime without fibers is dropped. -/
def removeRuntime (runtimes : List (PluginKey × List FiberId)) (key : PluginKey) (id : FiberId) :
    List (PluginKey × List FiberId) :=
  (runtimes.map fun entry =>
    if entry.1 = key then (key, entry.2.filter fun fiber => fiber ≠ id) else entry).filter
      fun entry => entry.1 ≠ key || !entry.2.isEmpty

def newFiber (id : FiberId) (ctx : Context) (key : PluginKey) (inject : List String) : FiberData where
  uid := some id
  parent := some ctx.fiber
  ctx := { ctx with fiber := id }
  state := .pending
  inject := inject
  runtime := some key
  error := false
  epoch := .inactive
  storeSnapshot := none
  liveStore := fun _ => none
  disposables := []
  inertia := none
  applied := 0
  unloads := 0

/-- Load a plugin in a context. The fiber is published before its parent takes the
effect that disposes it, so it stays when the parent refuses the effect. -/
def plugin (app : App) (ctx : Context) (key : PluginKey) (inject : List String) : App :=
  match app.fibers[ctx.fiber]? with
  | none => app
  | some parent =>
    if parent.uid.isNone then app
    else
      let id := app.fibers.length
      let app := { app with
        fibers := app.fibers ++ [newFiber id ctx key inject]
        runtimes := addRuntime app.runtimes key id }
      if acceptsEffects app ctx.fiber then
        let app := registerEffect app ctx.fiber [.child id]
        refresh (notify host) (inject.foldl (fun app name => checkImpl host app id name) app) id
      else app

/-- A fiber leaves its runtime, if it has one. -/
def App.leaveRuntime (app : App) (id : FiberId) (data : FiberData) : App :=
  { app with
    runtimes := match data.runtime with
      | none => app.runtimes
      | some key => removeRuntime app.runtimes key id }

/-- A fiber that never loaded can own effects; they are disposed like those of a loaded
one. -/
def drain (app : App) (id : FiberId) : App :=
  match app.fibers[id]? with
  | none => app
  | some data =>
    if data.inertia.isNone && !data.disposables.isEmpty then
      startTransition (notify host) app id .spawnedUnload .unloading
    else app

/-- The part of a disposal before its first await. -/
def beginDispose (app : App) (id : FiberId) : App :=
  match app.fibers[id]? with
  | none => app
  | some data =>
    if data.uid.isNone then app
    else
      let app := (app.modifyFiber id fun data => { data with uid := none }).leaveRuntime id data
      drain host (setEpoch (notify host) app id .inactive) id

/-- Unload and load again with the current services. -/
def restart (app : App) (id : FiberId) : App :=
  match app.fibers[id]? with
  | none => app
  | some data =>
    if data.uid.isNone then app
    else refresh (notify host) (setEpoch (notify host) app id .inactive) id

/-- A new configuration restarts a fiber, through listeners when it is active. -/
def update (app : App) (id : FiberId) : App :=
  match app.fibers[id]? with
  | none => app
  | some data =>
    if data.uid.isNone then app
    else if data.state ≠ .active then
      let app := app.modifyFiber id fun data => { data with error := false }
      refresh (notify host) (setEpoch (notify host) app id .inactive) id
    else { app with updates := id :: app.updates }

/-! ## Disposal of effects -/

/-- The first disposal of an effect takes its disposers in reverse order. -/
def EffectState.beginDispose (unload : Option Nat) (effect : EffectState) : EffectState :=
  match effect.disposal with
  | .idle => { effect with disposal := .running effect.disposers.reverse none, begunBy := unload }
  | .running _ _ => effect

def EffectState.continue (left : List Disposer) (current : Option Waiting) (effect : EffectState) :
    EffectState :=
  { effect with disposal := .running left current }

/-- Start a disposer: what it does at once, and what it then waits for. -/
def startDisposer (app : App) : Disposer → App × Option Waiting
  | .user _ => (app, some .user)
  | .hook id => ({ app with hooks := app.hooks.filter fun hook => hook.id ≠ id }, none)
  | .service ctx label name =>
    let app := { app with store := app.store.filter fun entry => entry.1 ≠ label }
    (notify host app ctx [name], some (.woken (woken host app ctx [name]) ctx.fiber name))
  | .child fiber => (beginDispose host app fiber, some (.child fiber))

/-- The next piece of the disposal of an effect. A user disposer ends on its own. -/
def runDisposer (app : App) (id : EffectId) : Option App :=
  match app.effects[id]?.map EffectState.disposal with
  | some (.running (disposer :: left) none) =>
    let (next, current) := startDisposer host { app with ran := app.ran ++ [(id, disposer)] } disposer
    some (next.modifyEffect id (EffectState.continue left current))
  | some (.running left (some (.woken (fiber :: rest) provider name))) =>
    if (app.inertia fiber).isNone then
      some (app.modifyEffect id (EffectState.continue left (some (.woken rest provider name))))
    else none
  | some (.running left (some (.woken [] provider name))) =>
    some ((app.modifyFiber provider (removeOwn name)).modifyEffect id
      (EffectState.continue left none))
  | some (.running left (some (.child fiber))) =>
    if (app.inertia fiber).isNone then
      some ((app.modifyFiber fiber fun data => { data with state := .disposed }).modifyEffect id
        (EffectState.continue left none))
    else none
  | _ => none

/-! ## Steps -/

inductive Action where
  | isolate (ctx : Context) (name : String) (label : Option Label)
  | effect (ctx : Context) (tags : List Nat)
  | on (ctx : Context)
  | provide (ctx : Context) (name : String) (checked : Bool)
  | plugin (ctx : Context) (key : PluginKey) (inject : List String)
  | disposeEffect (effect : EffectId)
  | restart (id : FiberId)
  | update (id : FiberId)
  /-- The listeners of an update let it through. -/
  | applyUpdate (id : FiberId)
  | dispose (id : FiberId)
  /-- A call of `dispose` returns. -/
  | disposed (id : FiberId)
  /-- The first poll of a spawned task. -/
  | poll (id : FiberId)
  /-- The load resumes after its yield. -/
  | checkpoint (id : FiberId)
  /-- The configuration is resolved, or is not. -/
  | apply (id : FiberId)
  | failConfig (id : FiberId)
  /-- The body of the plugin ends. -/
  | applied (id : FiberId) (ok : Bool)
  | unloadNext (id : FiberId)
  | runDisposer (effect : EffectId)
  | userDisposed (effect : EffectId)
  deriving DecidableEq

/-- The next handle of an unload: begin its disposal, or go on once it is over. -/
def unloadNext (app : App) (id : FiberId) (data : FiberData) : List EffectId → Option App
  | [] => some (endUnload host app id)
  | handle :: rest =>
    match app.effects[handle]?.map EffectState.disposal with
    | some .idle => some (app.modifyEffect handle (EffectState.beginDispose (some data.unloads)))
    | some (.running [] none) =>
      some (app.modifyFiber id fun data => { data with inertia := some (.unloading rest) })
    | _ => none

/-- One piece of the lifecycle task of a fiber. -/
def taskStep (app : App) (id : FiberId) (data : FiberData) : Action → Option App
  | .poll _ =>
    match data.inertia with
    | some .spawnedLoad => some (app.modifyFiber id FiberData.beginLoad)
    | some .spawnedUnload => some (app.modifyFiber id FiberData.beginUnload)
    | _ => none
  | .checkpoint _ =>
    match data.inertia with
    | some (.checkpoint expected) =>
      -- Without a runtime record there is no plugin to apply.
      if data.epoch = expected ∧ (data.runtime.bind fun key => app.runtimes.lookup key).isSome then
        some (app.modifyFiber id fun data => { data with inertia := some .resolvingConfig })
      else some (endLoad host app id)
    | _ => none
  | .apply _ =>
    if data.inertia = some .resolvingConfig then
      some (app.modifyFiber id fun data => { data with inertia := some .applying })
    else none
  | .failConfig _ =>
    if data.inertia = some .resolvingConfig then some (failLoad host app id) else none
  | .applied _ ok =>
    if data.inertia = some .applying then
      if ok then
        some (endLoad host (app.modifyFiber id fun data =>
          { data with error := false, applied := data.applied + 1 }) id)
      else some (failLoad host app id)
    else none
  | .unloadNext _ =>
    match data.inertia with
    | some (.unloading handles) => unloadNext host app id data handles
    | _ => none
  | _ => none

def step (app : App) : Action → Option App
  | .isolate ctx name label => some (app.isolate ctx name label).1
  | .effect ctx tags => effect app ctx tags
  | .on ctx => on app ctx
  | .provide ctx name checked => some (provide host app ctx name checked)
  | .plugin ctx key inject => some (plugin host app ctx key inject)
  | .disposeEffect id => some (app.modifyEffect id (EffectState.beginDispose none))
  | .restart id => some (restart host app id)
  | .update id => some (update host app id)
  | .applyUpdate id =>
    if id ∈ app.updates then
      let app := { app with updates := app.updates.erase id }
      some (restart host (app.modifyFiber id fun data => { data with error := false }) id)
    else none
  | .dispose id => app.fibers[id]?.map fun _ =>
    { beginDispose host app id with disposing := id :: app.disposing }
  | .disposed id =>
    if id ∈ app.disposing ∧ (app.inertia id).isNone then
      some ({ app with disposing := app.disposing.erase id }.modifyFiber id fun data =>
        { data with state := .disposed })
    else none
  | .runDisposer id => runDisposer host app id
  | .userDisposed id =>
    match app.effects[id]?.map EffectState.disposal with
    | some (.running left (some .user)) =>
      some (app.modifyEffect id (EffectState.continue left none))
    | _ => none
  | .poll id => app.fibers[id]?.bind fun data => taskStep host app id data (.poll id)
  | .checkpoint id => app.fibers[id]?.bind fun data => taskStep host app id data (.checkpoint id)
  | .apply id => app.fibers[id]?.bind fun data => taskStep host app id data (.apply id)
  | .failConfig id => app.fibers[id]?.bind fun data => taskStep host app id data (.failConfig id)
  | .applied id ok => app.fibers[id]?.bind fun data => taskStep host app id data (.applied id ok)
  | .unloadNext id => app.fibers[id]?.bind fun data => taskStep host app id data (.unloadNext id)

end Cordis

end Keel
