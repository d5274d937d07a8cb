import Keel.Dsh.CordisNotify

/-! # What a step changes

Every step is a change of the app followed by notifications. A change moves one fiber, or
registers, provides or disposes something.
-/

namespace Keel

open List Option

namespace Cordis

/-! ## Changes of one fiber -/

namespace FiberData

def withTask (task : Task) (data : FiberData) : FiberData := { data with inertia := some task }

def withState (state : FiberState) (data : FiberData) : FiberData := { data with state }

def clearError (data : FiberData) : FiberData := { data with error := false }

def fail (data : FiberData) : FiberData := { data with error := true, epoch := .inactive }

def succeed (data : FiberData) : FiberData :=
  { data with error := false, applied := data.applied + 1 }

def dropSnapshot (data : FiberData) : FiberData := { data with storeSnapshot := none }

def pushEffect (effect : EffectId) (data : FiberData) : FiberData :=
  { data with disposables := data.disposables ++ [effect] }

def settle (data : FiberData) : FiberData :=
  { data with inertia := none, state := settledState data }

/-- The end of a load: unload when the epoch has become inactive, else settle. -/
def endLoad (data : FiberData) : FiberData :=
  match data.epoch with
  | .inactive => (data.withState .unloading).beginUnload
  | .active _ => data.settle

def retire (data : FiberData) : FiberData :=
  let data := ({ data with uid := none } : FiberData).withEpoch .inactive
  if data.inertia.isNone && !data.disposables.isEmpty then
    (data.withTask .spawnedUnload).withState .unloading
  else data

end FiberData

/-- The lifecycle changes of one fiber. -/
inductive Move (app : App) (id : FiberId) (data : FiberData) : Action → FiberData → Prop where
  | restart (huid : data.uid ≠ none) : Move app id data (.restart id) (data.withEpoch .inactive)
  | update (huid : data.uid ≠ none) (hstate : data.state ≠ .active) :
      Move app id data (.update id) (data.clearError.withEpoch .inactive)
  | applyUpdate (huid : data.uid ≠ none) :
      Move app id data (.applyUpdate id) (data.clearError.withEpoch .inactive)
  | applyUpdateDisposed (huid : data.uid = none) :
      Move app id data (.applyUpdate id) data.clearError
  | disposed (hmem : id ∈ app.disposing) (hinertia : data.inertia = none) :
      Move app id data (.disposed id) (data.withState .disposed)
  | pollLoad (hinertia : data.inertia = some .spawnedLoad) :
      Move app id data (.poll id) data.beginLoad
  | pollUnload (hinertia : data.inertia = some .spawnedUnload) :
      Move app id data (.poll id) data.beginUnload
  | resolve (hinertia : data.inertia = some (.checkpoint data.epoch)) :
      Move app id data (.checkpoint id) (data.withTask .resolvingConfig)
  | skip {expected : Epoch} (hinertia : data.inertia = some (.checkpoint expected))
      (hskip : data.epoch = expected →
        (data.runtime.bind fun key => app.runtimes.lookup key) = none) :
      Move app id data (.checkpoint id) data.endLoad
  | apply (hinertia : data.inertia = some .resolvingConfig) :
      Move app id data (.apply id) (data.withTask .applying)
  | failConfig (hinertia : data.inertia = some .resolvingConfig) :
      Move app id data (.failConfig id) data.fail.endLoad
  | succeed (hinertia : data.inertia = some .applying) :
      Move app id data (.applied id true) data.succeed.endLoad
  | fail (hinertia : data.inertia = some .applying) :
      Move app id data (.applied id false) data.fail.endLoad
  | nextHandle {handle : EffectId} {rest : List EffectId}
      (hinertia : data.inertia = some (.unloading (handle :: rest)))
      (hdone : app.effects[handle]?.map EffectState.disposal = some (.running [] none)) :
      Move app id data (.unloadNext id) (data.withTask (.unloading rest))
  | settle (hinertia : data.inertia = some (.unloading [])) (hepoch : data.epoch = .inactive) :
      Move app id data (.unloadNext id) data.dropSnapshot.settle
  | reload (hinertia : data.inertia = some (.unloading [])) (hepoch : data.epoch ≠ .inactive) :
      Move app id data (.unloadNext id) (data.dropSnapshot.withState .loading).beginLoad

/-- A move leaves what the fiber was created with, and its live store. -/
structure SameSetup (data data' : FiberData) : Prop where
  uid : data'.uid = data.uid
  parent : data'.parent = data.parent
  ctx : data'.ctx = data.ctx
  inject : data'.inject = data.inject
  runtime : data'.runtime = data.runtime
  liveStore : data'.liveStore = data.liveStore

theorem FiberData.sameSetup_withEpoch (data : FiberData) (epoch : Epoch) :
    SameSetup data (data.withEpoch epoch) := by
  have hsame := data.sameFiber_withEpoch epoch
  exact ⟨hsame.uid, hsame.parent, hsame.ctx, hsame.inject, hsame.runtime,
    data.withEpoch_liveStore epoch⟩

theorem FiberData.sameSetup_endLoad (data : FiberData) : SameSetup data data.endLoad := by
  unfold FiberData.endLoad
  split
  · exact ⟨rfl, rfl, rfl, rfl, rfl, rfl⟩
  · exact ⟨rfl, rfl, rfl, rfl, rfl, rfl⟩

variable {app app' : App} {id : FiberId} {data data' : FiberData} {action : Action} {task : Task}
  {label : Label} {effect : EffectId} {left : List Disposer}

theorem Move.sameSetup (hmove : Move app id data action data') : SameSetup data data' := by
  have hclear := data.clearError.sameSetup_withEpoch .inactive
  have hfail := data.fail.sameSetup_endLoad
  have hsucceed := data.succeed.sameSetup_endLoad
  cases hmove with
  | restart => exact data.sameSetup_withEpoch .inactive
  | update | applyUpdate => exact ⟨hclear.1, hclear.2, hclear.3, hclear.4, hclear.5, hclear.6⟩
  | skip => exact data.sameSetup_endLoad
  | failConfig => exact ⟨hfail.1, hfail.2, hfail.3, hfail.4, hfail.5, hfail.6⟩
  | succeed => exact ⟨hsucceed.1, hsucceed.2, hsucceed.3, hsucceed.4, hsucceed.5, hsucceed.6⟩
  | fail => exact ⟨hfail.1, hfail.2, hfail.3, hfail.4, hfail.5, hfail.6⟩
  | _ => exact ⟨rfl, rfl, rfl, rfl, rfl, rfl⟩

theorem FiberData.sameSetup_retire (data : FiberData) :
    SameSetup { data with uid := none } data.retire := by
  have hsame := ({ data with uid := none } : FiberData).sameSetup_withEpoch .inactive
  unfold FiberData.retire
  dsimp only
  split
  · exact ⟨hsame.uid, hsame.parent, hsame.ctx, hsame.inject, hsame.runtime, hsame.liveStore⟩
  · exact hsame

/-! ## Changes of an app -/

namespace App

def retire (app : App) (id : FiberId) (data : FiberData) : App :=
  (app.leaveRuntime id data).setFiber id data.retire

def publish (app : App) (ctx : Context) (key : PluginKey) (inject : List String) : App :=
  { app with
    fibers := app.fibers ++ [newFiber app.fibers.length ctx key inject]
    runtimes := addRuntime app.runtimes key app.fibers.length }

def putRecord (app : App) (label : Label) (record : ImplRecord) : App :=
  { app with
    recordCounter := app.recordCounter + 1
    store := (label, record) :: app.store }

/-- A service record is inserted for a fiber, which sees it at once. -/
def insertRecord (app : App) (label : Label) (record : ImplRecord) : App :=
  (app.putRecord label record).modifyFiber record.fiber (insertOwn record)

def start (app : App) (effect : EffectId) (disposer : Disposer) (left : List Disposer)
    (current : Option Waiting) : App :=
  { app with ran := app.ran ++ [(effect, disposer)] }.modifyEffect effect
    (EffectState.continue left current)

def disposal (app : App) (effect : EffectId) : Option Disposal :=
  app.effects[effect]?.map EffectState.disposal

/-- The fiber is disposed, or there is none. -/
def Gone (app : App) (id : FiberId) : Prop := ∀ data, app.fibers[id]? = some data → data.uid = none

end App

/-- What a step changes, apart from the notifications it sets off. -/
inductive Change (app : App) : Action → App → Prop where
  | refused (action : Action) (updates disposing : List FiberId)
      (hdisposing : disposing ⊆ app.disposing) :
      Change app action { app with updates, disposing }
  | isolate (ctx : Context) (name : String) (label : Option Label) (counter : Nat) :
      Change app (.isolate ctx name label) { app with labelCounter := counter }
  | effect (ctx : Context) (tags : List Nat) (haccepts : acceptsEffects app ctx.fiber) :
      Change app (.effect ctx tags) (registerEffect app ctx.fiber (tags.map .user))
  | on (ctx : Context) (haccepts : acceptsEffects app ctx.fiber) :
      Change app (.on ctx) (registerEffect
        { app with
          hookCounter := app.hookCounter + 1
          hooks := app.hooks ++ [Hook.mk (app.hookCounter + 1) ctx.fiber] }
        ctx.fiber [.hook (app.hookCounter + 1)])
  | provideRefused (ctx : Context) (name : String) (checked : Bool) :
      Change app (.provide ctx name checked) (ensureLabel app name)
  | provide (ctx : Context) (name : String) (checked : Bool) {label : Label}
      (haccepts : acceptsEffects app ctx.fiber)
      (hlabel : (ensureLabel app name).isolateLookup ctx name = some label)
      (hfree : app.store.lookup label = none) :
      Change app (.provide ctx name checked) (registerEffect
        ((ensureLabel app name).insertRecord label ⟨app.recordCounter, name, ctx.fiber, checked⟩)
        ctx.fiber [.service ctx label name])
  | plugin (ctx : Context) (key : PluginKey) (inject : List String)
      (haccepts : acceptsEffects app ctx.fiber) :
      Change app (.plugin ctx key inject)
        (registerEffect (app.publish ctx key inject) ctx.fiber [.child app.fibers.length])
  | orphan (ctx : Context) (key : PluginKey) (inject : List String) {parent : FiberData}
      (hparent : app.fibers[ctx.fiber]? = some parent) (huid : parent.uid ≠ none)
      (hstate : parent.state = .unloading) :
      Change app (.plugin ctx key inject) (app.publish ctx key inject)
  | move {id : FiberId} {data data' : FiberData} {action : Action}
      (updates disposing : List FiberId) (hdisposing : disposing ⊆ app.disposing)
      (hdata : app.fibers[id]? = some data) (hmove : Move app id data action data') :
      Change app action ({ app with updates, disposing }.setFiber id data')
  | dispose {id : FiberId} {data : FiberData} (hdata : app.fibers[id]? = some data)
      (huid : data.uid ≠ none) :
      Change app (.dispose id) { app.retire id data with disposing := id :: app.disposing }
  | joinDispose {id : FiberId} {data : FiberData} (hdata : app.fibers[id]? = some data)
      (huid : data.uid = none) :
      Change app (.dispose id) { app with disposing := id :: app.disposing }
  | disposeEffect (effect : EffectId) :
      Change app (.disposeEffect effect)
        (app.modifyEffect effect (EffectState.beginDispose none))
  | beginHandle {id : FiberId} {data : FiberData} {handle : EffectId} {rest : List EffectId}
      (hdata : app.fibers[id]? = some data)
      (hinertia : data.inertia = some (.unloading (handle :: rest)))
      (hidle : app.disposal handle = some .idle) :
      Change app (.unloadNext id)
        (app.modifyEffect handle (EffectState.beginDispose (some data.unloads)))
  | user {effect : EffectId} {tag : Nat} {left : List Disposer}
      (hdisposal : app.disposal effect = some (.running (.user tag :: left) none)) :
      Change app (.runDisposer effect) (app.start effect (.user tag) left (some .user))
  | hook {effect : EffectId} {hook : Nat} {left : List Disposer}
      (hdisposal : app.disposal effect = some (.running (.hook hook :: left) none)) :
      Change app (.runDisposer effect)
        { app.start effect (.hook hook) left none with
          hooks := app.hooks.filter fun other => other.id ≠ hook }
  | service {effect : EffectId} {ctx : Context} {label : Label} {name : String}
      {left : List Disposer} (woken : List FiberId)
      (hdisposal : app.disposal effect = some (.running (.service ctx label name :: left) none)) :
      Change app (.runDisposer effect)
        { app.start effect (.service ctx label name) left (some (.woken woken ctx.fiber name)) with
          store := app.store.filter fun entry => entry.1 ≠ label }
  | child {effect : EffectId} {child : FiberId} {data : FiberData} {left : List Disposer}
      (hdisposal : app.disposal effect = some (.running (.child child :: left) none))
      (hdata : app.fibers[child]? = some data) (huid : data.uid ≠ none) :
      Change app (.runDisposer effect)
        ((app.retire child data).start effect (.child child) left (some (.child child)))
  | joinChild {effect : EffectId} {child : FiberId} {left : List Disposer}
      (hdisposal : app.disposal effect = some (.running (.child child :: left) none))
      (hgone : app.Gone child) :
      Change app (.runDisposer effect)
        (app.start effect (.child child) left (some (.child child)))
  | wake {effect : EffectId} {left : List Disposer} {fiber : FiberId} {rest : List FiberId}
      {provider : FiberId} {name : String}
      (hdisposal : app.disposal effect =
        some (.running left (some (.woken (fiber :: rest) provider name)))) :
      Change app (.runDisposer effect)
        (app.modifyEffect effect (EffectState.continue left (some (.woken rest provider name))))
  | removed {effect : EffectId} {left : List Disposer} {provider : FiberId} {name : String}
      (hdisposal : app.disposal effect = some (.running left (some (.woken [] provider name)))) :
      Change app (.runDisposer effect)
        ((app.modifyFiber provider (removeOwn name)).modifyEffect effect
          (EffectState.continue left none))
  | childDisposed {effect : EffectId} {left : List Disposer} {child : FiberId}
      (hdisposal : app.disposal effect = some (.running left (some (.child child))))
      (hinertia : app.inertia child = none) :
      Change app (.runDisposer effect)
        ((app.modifyFiber child (FiberData.withState .disposed)).modifyEffect effect
          (EffectState.continue left none))
  | userDisposed {effect : EffectId} {left : List Disposer}
      (hdisposal : app.disposal effect = some (.running left (some .user))) :
      Change app (.userDisposed effect)
        (app.modifyEffect effect (EffectState.continue left none))

def App.Rested (app : App) : Prop :=
  ∀ (id : FiberId) data, app.fibers[id]? = some data → data.state = .active → data.inertia = none

/-! ## Every step is such a change -/

variable (host : Host)

theorem recheck_beginUnload {bound : String → Option ImplRecord} {uid : FiberId → Nat}
    (hinertia : data.inertia = some task) (hcheck : Recheck bound uid data data') :
    data'.inertia = some task ∧ Recheck bound uid data.beginUnload data'.beginUnload := by
  refine ⟨Rechecks.inertia (.single hcheck) hinertia, ?_⟩
  obtain ⟨live, hlive⟩ := hcheck
  have hflight : (data.withLive live).inertia = some task := hinertia
  have hunload : (data.beginUnload.withLive live).inertia =
      some (.unloading data.disposables.reverse) := rfl
  have hcheck : Recheck bound uid data.beginUnload _ := ⟨live, hlive⟩
  rw [FiberData.withEpoch_of_inertia hunload] at hcheck
  rw [FiberData.withEpoch_of_inertia hflight]
  exact hcheck

theorem recheck_pushEffect (effect : EffectId) {bound : String → Option ImplRecord}
    {uid : FiberId → Nat} (hcheck : Recheck bound uid data data') :
    Recheck bound uid (data.pushEffect effect) (data'.pushEffect effect) := by
  obtain ⟨live, hlive⟩ := hcheck
  have hcommutes : ∀ data : FiberData, ∀ epoch,
      (data.withEpoch epoch).pushEffect effect = (data.pushEffect effect).withEpoch epoch := by
    intro data epoch
    unfold FiberData.withEpoch
    simp only [apply_ite (FiberData.pushEffect effect)]
    rfl
  rw [hcommutes]
  exact ⟨live, hlive⟩

section
variable (hdata : app.fibers[id]? = some data)
include hdata

theorem settle_notified : Notified (app.setFiber id data.settle) (settle host app id data) := by
  have hstate := updateState_notified host
    (App.getElem?_setFiber_self hdata { data with inertia := none }) (settledState data)
  rw [App.setFiber_setFiber, ← App.modifyFiber_eq_setFiber hdata fun data =>
    { data with inertia := none }] at hstate
  exact hstate

theorem endLoad_notified (hinertia : data.inertia = some task) :
    Notified (app.setFiber id data.endLoad) (endLoad host app id) := by
  simp only [endLoad, hdata, FiberData.endLoad]
  cases data.epoch with
  | active _ => exact settle_notified host hdata
  | inactive =>
    have hstate := App.getElem?_setFiber_self hdata (data.withState .unloading)
    have hnotified : Notified (app.setFiber id (data.withState .unloading)) _ :=
      updateState_notified host hdata .unloading
    have hunload := hnotified.modifyFiber hstate
      FiberData.beginUnload (fun _ => ⟨rfl, rfl⟩) (fun data => data.inertia = some task) hinertia
      fun _ _ _ _ => recheck_beginUnload
    rwa [App.modifyFiber_eq_setFiber hstate, App.setFiber_setFiber] at hunload

theorem failLoad_notified (hinertia : data.inertia = some task) :
    Notified (app.setFiber id data.fail.endLoad) (failLoad host app id) := by
  have hend := endLoad_notified host (App.getElem?_setFiber_self hdata data.fail) hinertia
  rw [App.setFiber_setFiber, ← App.modifyFiber_eq_setFiber hdata FiberData.fail] at hend
  exact hend

end

theorem registerEffect_notified (hnotified : Notified app app')
    (hdata : app.fibers[id]? = some data) (disposers : List Disposer) :
    Notified (registerEffect app id disposers) (registerEffect app' id disposers) := by
  have hpush := hnotified.modifyFiber hdata (FiberData.pushEffect app.effects.length)
    (fun _ => ⟨rfl, rfl⟩) (fun _ => True) trivial
    fun _ _ _ _ _ hcheck => ⟨trivial, recheck_pushEffect _ hcheck⟩
  have hlength : app'.effects = app.effects := by
    rw [hnotified.rest]
  have heffects := hpush.map
    (fun app => { app with effects := app.effects ++ [EffectState.mk id disposers .idle none] })
    (fun _ _ => rfl) rfl rfl
  unfold registerEffect
  rw [hlength]
  exact hlength ▸ heffects

section
variable (hdata : app.fibers[id]? = some data) (huid : data.uid ≠ none)
include hdata huid

theorem restart_notified : Notified (app.setFiber id (data.withEpoch .inactive))
      (refresh (notify host) (setEpoch (notify host) app id .inactive) id) := by
  have hset := setEpoch_notified host hdata .inactive
  obtain ⟨data', hdata', hchecks, -⟩ :=
    hset.fibers id _ (App.getElem?_setFiber_self hdata _)
  have huid' : data'.uid ≠ none := by
    rwa [hchecks.sameFiber.uid, (FiberData.sameFiber_withEpoch data .inactive).uid]
  exact hset.trans (refresh_foldl_checkImpl_notified host hdata' huid'
    (forall_mem_nil (· ∈ data'.inject)))

/-- A fiber whose epoch changes has a task, so a disposal starts another one only where
nothing was notified. -/
theorem beginDispose_notified : Notified (app.retire id data) (beginDispose host app id) := by
  set gone : FiberData := { data with uid := none } with hgone
  set left := (app.leaveRuntime id data).setFiber id gone with hleft
  have hfound : left.fibers[id]? = some gone := App.getElem?_setFiber_self hdata gone
  have hbegin : beginDispose host app id =
      drain host (setEpoch (notify host) left id .inactive) id := by
    simp only [beginDispose, hdata, isNone_iff_eq_none, if_neg huid,
      App.modifyFiber_eq_setFiber hdata]
    rfl
  have hretire : app.retire id data = left.setFiber id data.retire := by
    rw [hleft, App.setFiber_setFiber]
    rfl
  rw [hbegin, hretire]
  by_cases hepoch : data.epoch = .inactive
  · have hset : setEpoch (notify host) left id .inactive = left := by
      simp only [setEpoch, hfound]
      exact if_pos hepoch
    have hsame : gone.withEpoch .inactive = gone := by
      rw [← hepoch]
      exact gone.withEpoch_self
    simp only [hset, drain, hfound, FiberData.retire, ← hgone, hsame]
    split
    · exact startTransition_notified host hfound .spawnedUnload .unloading
    · rw [App.setFiber_self hfound]
      exact .refl left
  · have hset := setEpoch_notified host hfound .inactive
    obtain ⟨task, htask⟩ : ∃ task, (gone.withEpoch .inactive).inertia = some task :=
      FiberData.withEpoch_inertia hepoch
    obtain ⟨found, hfound', hchecks, -⟩ :=
      hset.fibers id _ (App.getElem?_setFiber_self hfound (gone.withEpoch .inactive))
    simp only [drain, hfound', FiberData.retire, ← hgone, htask, hchecks.inertia htask]
    exact hset

end

theorem acceptsEffects_iff :
    acceptsEffects app id ↔
      ∃ data, app.fibers[id]? = some data ∧ data.uid ≠ none ∧ data.state ≠ .unloading := by
  unfold acceptsEffects
  cases app.fibers[id]? with
  | none => simp
  | some data => simp [isSome_iff_ne_none]

theorem ensureLabel_fibers (app : App) (name : String) :
    (ensureLabel app name).fibers = app.fibers := by
  unfold ensureLabel
  split
  · rfl
  · rfl

theorem ensureLabel_store (app : App) (name : String) :
    (ensureLabel app name).store = app.store := by
  unfold ensureLabel
  split
  · rfl
  · rfl

theorem ensureLabel_recordCounter (app : App) (name : String) :
    (ensureLabel app name).recordCounter = app.recordCounter := by
  unfold ensureLabel
  split
  · rfl
  · rfl

theorem registerEffect_eq (hdata : app.fibers[id]? = some data) (disposers : List Disposer) :
    registerEffect app id disposers =
      { app with effects := app.effects ++ [EffectState.mk id disposers .idle none] }.setFiber id
        (data.pushEffect app.effects.length) := by
  set effects := app.effects ++ [EffectState.mk id disposers .idle none]
  have hdata' : { app with effects }.fibers[id]? = some data := hdata
  exact App.modifyFiber_eq_setFiber hdata' _

theorem insertRecord_eq {record : ImplRecord} (hdata : app.fibers[record.fiber]? = some data) :
    app.insertRecord label record =
      (app.putRecord label record).setFiber record.fiber (insertOwn record data) := by
  have hput : (app.putRecord label record).fibers[record.fiber]? = some data := hdata
  rw [App.insertRecord, App.modifyFiber_eq_setFiber hput]

theorem provide_change (app : App) (ctx : Context) (name : String) (checked : Bool) :
    ∃ app₁, Change app (.provide ctx name checked) app₁ ∧
      Notified app₁ (provide host app ctx name checked) := by
  unfold provide
  dsimp only
  cases hlabel : (ensureLabel app name).isolateLookup ctx name with
  | none => exact ⟨_, .provideRefused ctx name checked, .refl _⟩
  | some label =>
    dsimp only
    split
    next hok =>
      rw [Bool.and_eq_true, isNone_iff_eq_none, ensureLabel_store] at hok
      have haccepts : acceptsEffects app ctx.fiber := by
        have hensured := hok.1
        rwa [acceptsEffects, ensureLabel_fibers] at hensured
      refine ⟨_, .provide ctx name checked haccepts hlabel hok.2, ?_⟩
      obtain ⟨data, hdata, -⟩ := acceptsEffects_iff.1 haccepts
      rw [← ensureLabel_fibers app name] at hdata
      rw [ensureLabel_recordCounter]
      set record : ImplRecord := ⟨app.recordCounter, name, ctx.fiber, checked⟩
      have hinserted : ((ensureLabel app name).insertRecord label record).fibers[ctx.fiber]? =
          some (insertOwn record data) := by
        rw [insertRecord_eq hdata]
        exact App.getElem?_setFiber_self hdata _
      refine registerEffect_notified ?_ hinserted _
      unfold App.insertRecord App.putRecord
      rw [ensureLabel_recordCounter]
      split
      · exact notify_notified host _ _ _
      · exact .refl _
    · exact ⟨_, .provideRefused ctx name checked, .refl _⟩

theorem plugin_change (app : App) (ctx : Context) (key : PluginKey) (inject : List String) :
    ∃ app₁, Change app (.plugin ctx key inject) app₁ ∧
      Notified app₁ (plugin host app ctx key inject) := by
  unfold plugin
  cases hparent : app.fibers[ctx.fiber]? with
  | none => exact ⟨app, .refused _ app.updates app.disposing (List.Subset.refl _), .refl _⟩
  | some parent =>
    dsimp only
    split
    · exact ⟨app, .refused _ app.updates app.disposing (List.Subset.refl _), .refl _⟩
    next huid =>
      obtain ⟨hlt, -⟩ := List.getElem?_eq_some_iff.mp hparent
      have hsame : acceptsEffects (app.publish ctx key inject) ctx.fiber =
          acceptsEffects app ctx.fiber := by
        unfold acceptsEffects App.publish
        rw [List.getElem?_append_left hlt]
      change ∃ app₁, _ ∧ Notified app₁ (if acceptsEffects (app.publish ctx key inject) ctx.fiber
        then _ else app.publish ctx key inject)
      rw [hsame]
      split
      next haccepts =>
        refine ⟨_, .plugin ctx key inject haccepts, ?_⟩
        have hnew : (registerEffect (app.publish ctx key inject) ctx.fiber
            [.child app.fibers.length]).fibers[app.fibers.length]? =
              some (newFiber app.fibers.length ctx key inject) := by
          simp only [registerEffect, App.modifyFiber, App.publish, List.getElem?_modify]
          simp [Nat.ne_of_lt hlt]
        exact refresh_foldl_checkImpl_notified host hnew (by simp [newFiber]) (by simp [newFiber])
      next haccepts =>
        refine ⟨_, .orphan ctx key inject hparent (by simpa using huid) ?_, .refl _⟩
        by_contra hstate
        exact haccepts (acceptsEffects_iff.2 ⟨parent, hparent, by simpa using huid, hstate⟩)

theorem Change.of_move (hdata : app.fibers[id]? = some data) (hmove : Move app id data action data')
    : Change app action (app.setFiber id data') :=
  .move app.updates app.disposing (List.Subset.refl _) hdata hmove

theorem Change.nothing (app : App) (action : Action) : Change app action app :=
  .refused action app.updates app.disposing (List.Subset.refl _)

theorem restart_change (app : App) (id : FiberId) :
    ∃ app₁, Change app (.restart id) app₁ ∧ Notified app₁ (restart host app id) := by
  unfold restart
  cases hdata : app.fibers[id]? with
  | none => exact ⟨app, .nothing app _, .refl _⟩
  | some data =>
    dsimp only
    split
    · exact ⟨app, .nothing app _, .refl _⟩
    next huid =>
      have huid : data.uid ≠ none := by simpa using huid
      exact ⟨_, .of_move hdata (.restart huid), restart_notified host hdata huid⟩

theorem restart_clearError_notified (hdata : app.fibers[id]? = some data) (huid : data.uid ≠ none) :
    Notified (app.setFiber id (data.clearError.withEpoch .inactive))
      (refresh (notify host)
        (setEpoch (notify host) (app.setFiber id data.clearError) id .inactive) id) := by
  have hclear := App.getElem?_setFiber_self hdata data.clearError
  simpa using restart_notified host hclear huid

theorem update_change (app : App) (id : FiberId) :
    ∃ app₁, Change app (.update id) app₁ ∧ Notified app₁ (update host app id) := by
  unfold update
  cases hdata : app.fibers[id]? with
  | none => exact ⟨app, .nothing app _, .refl _⟩
  | some data =>
    dsimp only
    split
    · exact ⟨app, .nothing app _, .refl _⟩
    next huid =>
      have huid : data.uid ≠ none := by simpa using huid
      split
      next hstate =>
        refine ⟨_, .of_move hdata (.update huid hstate), ?_⟩
        rw [App.modifyFiber_eq_setFiber hdata]
        exact restart_clearError_notified host hdata huid
      · exact ⟨_, .refused _ (id :: app.updates) app.disposing (List.Subset.refl _), .refl _⟩

theorem applyUpdate_change (app : App) (id : FiberId) (updates : List FiberId) :
    ∃ app₁, Change app (.applyUpdate id) app₁ ∧
      Notified app₁ (restart host ({ app with updates }.modifyFiber id FiberData.clearError) id) := by
  cases hdata : app.fibers[id]? with
  | none =>
    refine ⟨_, .refused _ updates app.disposing (List.Subset.refl _), ?_⟩
    have hnone : { app with updates }.fibers[id]? = none := hdata
    rw [App.modifyFiber_of_none hnone, restart, hnone]
    exact .refl _
  | some data =>
    have hdata' : { app with updates }.fibers[id]? = some data := hdata
    have hclear := App.getElem?_setFiber_self hdata' data.clearError
    rw [App.modifyFiber_eq_setFiber hdata', restart, hclear]
    dsimp only
    split
    next huid =>
      have huid : data.uid = none := by simpa [FiberData.clearError] using huid
      exact ⟨_, .move updates app.disposing (List.Subset.refl _) hdata (.applyUpdateDisposed huid),
        .refl _⟩
    next huid =>
      have huid : data.uid ≠ none := by simpa [FiberData.clearError] using huid
      exact ⟨_, .move updates app.disposing (List.Subset.refl _) hdata (.applyUpdate huid),
        restart_clearError_notified host hdata' huid⟩

theorem dispose_change (hdata : app.fibers[id]? = some data) :
    ∃ app₁, Change app (.dispose id) app₁ ∧
      Notified app₁ { beginDispose host app id with disposing := id :: app.disposing } := by
  by_cases huid : data.uid = none
  · refine ⟨_, .joinDispose hdata huid, ?_⟩
    have hsame : beginDispose host app id = app := by
      simp [beginDispose, hdata, huid]
    rw [hsame]
    exact .refl _
  · refine ⟨_, .dispose hdata huid, ?_⟩
    exact (beginDispose_notified host hdata huid).map
      (fun dispose => { dispose with disposing := id :: app.disposing })
      (fun _ _ => rfl) rfl rfl

theorem disposed_change (hmem : id ∈ app.disposing) (hinertia : app.inertia id = none) :
    Change app (.disposed id)
      ({ app with disposing := app.disposing.erase id }.modifyFiber id fun data =>
        { data with state := .disposed }) := by
  cases hdata : app.fibers[id]? with
  | none =>
    have hnone : { app with disposing := app.disposing.erase id }.fibers[id]? = none := hdata
    rw [App.modifyFiber_of_none hnone]
    exact .refused _ app.updates _ erase_subset
  | some data =>
    have hdata' : { app with disposing := app.disposing.erase id }.fibers[id]? = some data := hdata
    have hnone : data.inertia = none := by simpa [App.inertia, hdata] using hinertia
    rw [App.modifyFiber_eq_setFiber hdata']
    exact .move app.updates _ erase_subset hdata (.disposed hmem hnone)

theorem startDisposer_change {next : App} {disposer : Disposer} {current : Option Waiting}
    (hdisposal : app.disposal effect = some (.running (disposer :: left) none))
    (hstart : startDisposer host { app with ran := app.ran ++ [(effect, disposer)] } disposer =
      (next, current)) :
    ∃ app₁, Change app (.runDisposer effect) app₁ ∧
      Notified app₁ (next.modifyEffect effect (EffectState.continue left current)) := by
  cases disposer with
  | user tag =>
    cases hstart
    exact ⟨_, .user hdisposal, .refl _⟩
  | hook id =>
    cases hstart
    exact ⟨_, .hook hdisposal, .refl _⟩
  | service ctx label name =>
    cases hstart
    have hnotified := notify_notified host
      { app with
        ran := app.ran ++ [(effect, .service ctx label name)]
        store := app.store.filter fun entry => entry.1 ≠ label } ctx [name]
    exact ⟨_, .service _ hdisposal, hnotified.modifyEffect effect _⟩
  | child fiber =>
    cases hstart
    set ran := app.ran ++ [(effect, Disposer.child fiber)]
    by_cases hgone : app.Gone fiber
    · refine ⟨_, .joinChild hdisposal hgone, ?_⟩
      have hsame : beginDispose host { app with ran } fiber = { app with ran } := by
        unfold beginDispose
        cases hdata : app.fibers[fiber]? with
        | none => rfl
        | some data => simp [hgone data hdata]
      rw [hsame]
      exact .refl _
    · unfold App.Gone at hgone
      push Not at hgone
      obtain ⟨data, hdata, huid⟩ := hgone
      have hran : { app with ran }.fibers[fiber]? = some data := hdata
      exact ⟨_, .child hdisposal hdata huid,
        (beginDispose_notified host hran huid).modifyEffect effect _⟩

theorem runDisposer_change (hstep : runDisposer host app effect = some app') :
    ∃ app₁, Change app (.runDisposer effect) app₁ ∧ Notified app₁ app' := by
  unfold runDisposer at hstep
  split at hstep
  next disposer left hdisposal =>
    cases hstep
    exact startDisposer_change host hdisposal rfl
  next left fiber rest provider name hdisposal =>
    split at hstep
    · cases hstep
      exact ⟨_, .wake hdisposal, .refl _⟩
    · cases hstep
  next left provider name hdisposal =>
    cases hstep
    exact ⟨_, .removed hdisposal, .refl _⟩
  next left fiber hdisposal =>
    split at hstep
    next hinertia =>
      cases hstep
      exact ⟨_, .childDisposed hdisposal (by simpa using hinertia), .refl _⟩
    · cases hstep
  · cases hstep

theorem endUnload_eq (hdata : app.fibers[id]? = some data) :
    endUnload host app id =
      match data.epoch with
      | .inactive => settle host (app.setFiber id data.dropSnapshot) id data.dropSnapshot
      | .active _ =>
        (updateState (notify host) (app.setFiber id data.dropSnapshot) id .loading).modifyFiber id
          FiberData.beginLoad := by
  have hdrop : (app.modifyFiber id fun data => { data with storeSnapshot := none }) =
      app.setFiber id data.dropSnapshot := App.modifyFiber_eq_setFiber hdata _
  have hfound := App.getElem?_setFiber_self hdata data.dropSnapshot
  simp only [endUnload, hdrop, hfound]
  rfl

theorem unloadNext_change {handles : List EffectId} (hrested : app.Rested)
    (hdata : app.fibers[id]? = some data) (hinertia : data.inertia = some (.unloading handles))
    (hstep : unloadNext host app id data handles = some app') :
    ∃ app₁, Change app (.unloadNext id) app₁ ∧ Notified app₁ app' := by
  cases handles with
  | nil =>
    cases hstep
    have hdrop := App.getElem?_setFiber_self hdata data.dropSnapshot
    rw [endUnload_eq host hdata]
    split
    next hepoch =>
      refine ⟨_, .of_move hdata (.settle hinertia hepoch), ?_⟩
      simpa using settle_notified host hdrop
    next uids hepoch =>
      have hactive : data.epoch ≠ .inactive := by simp [hepoch]
      -- The fiber was unloading, so nobody hears that it loads.
      have hstate : data.dropSnapshot.state ≠ .active := fun hstate =>
        absurd ((hrested id data hdata hstate).symm.trans hinertia) (by simp)
      have hquiet : updateState (notify host) (app.setFiber id data.dropSnapshot) id .loading =
          app.setFiber id (data.dropSnapshot.withState .loading) := by
        simp only [updateState, hdrop, App.modifyFiber_eq_setFiber hdrop]
        rw [App.setFiber_setFiber, if_pos (by simp [hstate])]
        rfl
      refine ⟨_, .of_move hdata (.reload hinertia hactive), ?_⟩
      rw [hquiet, App.modifyFiber_eq_setFiber (App.getElem?_setFiber_self hdata _),
        App.setFiber_setFiber]
      exact .refl _
  | cons handle rest =>
    unfold unloadNext at hstep
    dsimp only at hstep
    split at hstep
    next hidle =>
      cases hstep
      exact ⟨_, .beginHandle hdata hinertia hidle, .refl _⟩
    next hdone =>
      cases hstep
      rw [App.modifyFiber_eq_setFiber hdata]
      exact ⟨_, .of_move hdata (.nextHandle hinertia hdone), .refl _⟩
    · cases hstep

section
variable (hdata : app.fibers[id]? = some data)
include hdata

theorem poll_change (hstep : taskStep host app id data (.poll id) = some app') :
    Change app (.poll id) app' := by
  unfold taskStep at hstep
  dsimp only at hstep
  split at hstep
  next hinertia =>
    cases hstep
    rw [App.modifyFiber_eq_setFiber hdata]
    exact .of_move hdata (.pollLoad hinertia)
  next hinertia =>
    cases hstep
    rw [App.modifyFiber_eq_setFiber hdata]
    exact .of_move hdata (.pollUnload hinertia)
  · cases hstep

theorem checkpoint_change (hstep : taskStep host app id data (.checkpoint id) = some app') :
    ∃ app₁, Change app (.checkpoint id) app₁ ∧ Notified app₁ app' := by
  unfold taskStep at hstep
  dsimp only at hstep
  split at hstep
  next expected hinertia =>
    split at hstep
    next hgo =>
      cases hstep
      rw [App.modifyFiber_eq_setFiber hdata]
      exact ⟨_, .of_move hdata (.resolve (hgo.1 ▸ hinertia)), .refl _⟩
    next hskip =>
      cases hstep
      refine ⟨_, .of_move hdata (.skip hinertia fun heq => ?_),
        endLoad_notified host hdata hinertia⟩
      rw [not_and, not_isSome_iff_eq_none] at hskip
      exact hskip heq
  · cases hstep

theorem applied_change {ok : Bool} (hstep : taskStep host app id data (.applied id ok) = some app') :
    ∃ app₁, Change app (.applied id ok) app₁ ∧ Notified app₁ app' := by
  unfold taskStep at hstep
  dsimp only at hstep
  split at hstep
  next hinertia =>
    cases ok with
    | true =>
      cases hstep
      refine ⟨_, .of_move hdata (.succeed hinertia), ?_⟩
      have hend := endLoad_notified host (App.getElem?_setFiber_self hdata data.succeed) hinertia
      rw [App.setFiber_setFiber, ← App.modifyFiber_eq_setFiber hdata FiberData.succeed] at hend
      exact hend
    | false =>
      cases hstep
      exact ⟨_, .of_move hdata (.fail hinertia), failLoad_notified host hdata hinertia⟩
  · cases hstep

end

theorem step_change (hrested : app.Rested) (hstep : step host app action = some app') :
    ∃ app₁, Change app action app₁ ∧ Notified app₁ app' := by
  have hexact : Change app action app' → ∃ app₁, Change app action app₁ ∧ Notified app₁ app' :=
    fun hchange => ⟨app', hchange, .refl app'⟩
  cases action with
  | isolate ctx name label =>
    cases hstep
    cases label with
    | none => exact hexact (.isolate ctx name none _)
    | some label => exact hexact (.isolate ctx name (some label) app.labelCounter)
  | effect ctx tags =>
    simp only [step, effect] at hstep
    split at hstep
    next haccepts =>
      cases hstep
      exact hexact (.effect ctx tags haccepts)
    · cases hstep
  | on ctx =>
    simp only [step, on] at hstep
    split at hstep
    next haccepts =>
      cases hstep
      exact hexact (.on ctx haccepts)
    · cases hstep
  | provide ctx name checked =>
    cases hstep
    exact provide_change host app ctx name checked
  | plugin ctx key inject =>
    cases hstep
    exact plugin_change host app ctx key inject
  | disposeEffect effect =>
    cases hstep
    exact hexact (.disposeEffect effect)
  | restart id =>
    cases hstep
    exact restart_change host app id
  | update id =>
    cases hstep
    exact update_change host app id
  | applyUpdate id =>
    simp only [step] at hstep
    split at hstep
    · cases hstep
      exact applyUpdate_change host app id _
    · cases hstep
  | dispose id =>
    obtain ⟨data, hdata, rfl⟩ := map_eq_some_iff.mp hstep
    exact dispose_change host hdata
  | disposed id =>
    simp only [step] at hstep
    split at hstep
    next hready =>
      cases hstep
      exact hexact (disposed_change hready.1 (isNone_iff_eq_none.mp hready.2))
    · cases hstep
  | runDisposer effect => exact runDisposer_change host hstep
  | userDisposed effect =>
    simp only [step] at hstep
    split at hstep
    next hdisposal =>
      cases hstep
      exact hexact (.userDisposed hdisposal)
    · cases hstep
  | poll id =>
    obtain ⟨data, hdata, htask⟩ := bind_eq_some_iff.mp hstep
    exact hexact (poll_change host hdata htask)
  | checkpoint id =>
    obtain ⟨data, hdata, htask⟩ := bind_eq_some_iff.mp hstep
    exact checkpoint_change host hdata htask
  | apply id =>
    obtain ⟨data, hdata, htask⟩ := bind_eq_some_iff.mp hstep
    simp only [taskStep] at htask
    split at htask
    next hinertia =>
      cases htask
      rw [App.modifyFiber_eq_setFiber hdata] at hexact ⊢
      exact hexact (.of_move hdata (.apply hinertia))
    · cases htask
  | failConfig id =>
    obtain ⟨data, hdata, htask⟩ := bind_eq_some_iff.mp hstep
    simp only [taskStep] at htask
    split at htask
    next hinertia =>
      cases htask
      exact ⟨_, .of_move hdata (.failConfig hinertia),
        failLoad_notified host hdata hinertia⟩
    · cases htask
  | applied id ok =>
    obtain ⟨data, hdata, htask⟩ := bind_eq_some_iff.mp hstep
    exact applied_change host hdata htask
  | unloadNext id =>
    obtain ⟨data, hdata, htask⟩ := bind_eq_some_iff.mp hstep
    simp only [taskStep] at htask
    split at htask
    next handles hinertia => exact unloadNext_change host hrested hdata hinertia htask
    · cases htask

theorem service_notified {ctx : Context} {name : String}
    (hdisposal : app.disposal effect = some (.running (.service ctx label name :: left) none))
    (hstep : runDisposer host app effect = some app') :
    ∃ app₁, Notified app₁ app' ∧ app₁.fibers = app.fibers ∧ app₁.runtimes = app.runtimes ∧
      app₁.rootIsolate = app.rootIsolate ∧
        app₁.store = app.store.filter fun entry => entry.1 ≠ label := by
  have hdisposal : app.effects[effect]?.map EffectState.disposal = _ := hdisposal
  simp only [runDisposer, hdisposal, startDisposer, some.injEq] at hstep
  subst hstep
  exact ⟨_, (notify_notified host _ ctx [name]).modifyEffect effect _, rfl, rfl, rfl, rfl⟩

theorem service_fresh {ctx : Context} {name : String}
    (hdisposal : app.disposal effect = some (.running (.service ctx label name :: left) none))
    (hstep : runDisposer host app effect = some app') (hregistered : id ∈ app.registered)
    (hdata : app.fibers[id]? = some data) (hinject : name ∈ data.inject)
    (hscope : app.isolateLookup data.ctx name = app.isolateLookup ctx name) :
    ∃ data', app'.fibers[id]? = some data' ∧
      Fresh (app'.bound data.ctx) data'.liveStore name := by
  have hdisposal : app.effects[effect]?.map EffectState.disposal = _ := hdisposal
  simp only [runDisposer, hdisposal, startDisposer, some.injEq] at hstep
  subst hstep
  set removal : App := { app with
    ran := app.ran ++ [(effect, .service ctx label name)]
    store := app.store.filter fun entry => entry.1 ≠ label }
  have hbound : (notify host removal ctx [name]).bound = removal.bound :=
    (notify_notified host removal ctx [name]).bound_eq
  have hfresh : ∃ data', (notify host removal ctx [name]).fibers[id]? = some data' ∧
      Fresh (removal.bound data.ctx) data'.liveStore name :=
    notify_fresh host hregistered hdata mem_cons_self hinject hscope
  rw [← hbound] at hfresh
  exact hfresh

end Cordis

end Keel
