import Keel.Dsh.CordisRegistry

/-! # Refused registrations

The registrations of a context with what they return. Each asks its fiber for an effect, and
the body of the effect does the work. A plugin publishes its fiber before it asks.
-/

namespace Keel

open List Option

namespace Cordis

inductive CordisError where
  | inactiveEffect
  | invalidConfig (issues : String)
  | serviceConflict (name : String) (provider : FiberId)
  | serviceInactive (name : String)
  | serviceMissing (name : String)
  | plugin (chain : String)
  deriving DecidableEq

/-- The body of an effect: what it does at once, and its disposers. -/
abbrev Body := App → Except CordisError (List Disposer) × App

theorem isolateLookup_ensureLabel_isSome (app : App) (ctx : Context) (name : String) :
    ((ensureLabel app name).isolateLookup ctx name).isSome := by
  unfold App.isolateLookup
  cases ctx.isolate.lookup name with
  | some label => rfl
  | none =>
    unfold ensureLabel
    cases hroot : app.rootIsolate.lookup name with
    | some label => simp [hroot]
    | none => simp

namespace Context

/-- The effect of a fiber that is neither disposed nor unloading. -/
def effectLabeled (ctx : Context) (app : App) (body : Body) : Except CordisError EffectId × App :=
  if acceptsEffects app ctx.fiber then
    match body app with
    | (.error error, app) => (.error error, app)
    | (.ok disposers, app) => (.ok app.effects.length, registerEffect app ctx.fiber disposers)
  else (.error .inactiveEffect, app)

/-- A listener, before or behind the others. -/
def registerHook (ctx : Context) (app : App) (prepend : Bool) : Except CordisError EffectId × App :=
  let app := { app with hookCounter := app.hookCounter + 1 }
  let hook : Hook := ⟨app.hookCounter, ctx.fiber⟩
  ctx.effectLabeled app fun app =>
    (.ok [.hook hook.id],
      { app with hooks := if prepend then hook :: app.hooks else app.hooks ++ [hook] })

def on (ctx : Context) (app : App) (prepend : Bool) : Except CordisError EffectId × App :=
  ctx.registerHook app prepend

def onWaterfall (ctx : Context) (app : App) (prepend : Bool) : Except CordisError EffectId × App :=
  ctx.registerHook app prepend

variable (host : Host)

/-- The body of `provide`, under the label of the service. -/
def provideBody (ctx : Context) (label : Label) (name : String) (checked : Bool) : Body := fun app =>
  match app.store.lookup label with
  | some existing => (.error (.serviceConflict name existing.fiber), app)
  | none =>
    let record : ImplRecord := ⟨app.recordCounter, name, ctx.fiber, checked⟩
    let app := { app with
      recordCounter := app.recordCounter + 1, store := (label, record) :: app.store }
    let app := app.modifyFiber ctx.fiber (insertOwn record)
    let app :=
      if (app.fibers[ctx.fiber]?.map FiberData.state) = some .active then notify host app ctx [name]
      else app
    (.ok [.service ctx label name], app)

def provide (ctx : Context) (app : App) (name : String) (checked : Bool) :
    Except CordisError EffectId × App :=
  let label := ((ensureLabel app name).isolateLookup ctx name).get
    (isolateLookup_ensureLabel_isSome app ctx name)
  ctx.effectLabeled (ensureLabel app name) (ctx.provideBody host label name checked)

/-- The first check of `plugin` is for the uid, that of the effect for the state too. -/
def plugin (ctx : Context) (app : App) (key : PluginKey) (inject : List String) :
    Except CordisError FiberId × App :=
  match app.fibers[ctx.fiber]? with
  | none => (.error .inactiveEffect, app)
  | some parent =>
    if parent.uid.isNone then (.error .inactiveEffect, app)
    else
      let id := app.fibers.length
      match ctx.effectLabeled (app.publish ctx key inject) fun app => (.ok [.child id], app) with
      | (.error error, app) => (.error error, app)
      | (.ok _, app) =>
        (.ok id,
          refresh (notify host) (inject.foldl (fun app name => checkImpl host app id name) app) id)

end Context

/-! ## The steps are these registrations -/

section Steps

variable (host : Host) (app : App) (ctx : Context)

theorem effectLabeled_of_refused {app : App} {ctx : Context} {body : Body}
    (hrefused : ¬ acceptsEffects app ctx.fiber) :
    ctx.effectLabeled app body = (.error .inactiveEffect, app) := if_neg hrefused

theorem effect_eq (tags : List Nat) : effect app ctx tags =
    match ctx.effectLabeled app fun app => (.ok (tags.map .user), app) with
    | (.ok _, next) => some next
    | (.error _, _) => none := by
  unfold effect Context.effectLabeled
  split
  · rfl
  · rfl

theorem on_eq : on app ctx =
    match ctx.on app false with
    | (.ok _, next) => some next
    | (.error _, _) => none := by
  unfold on Context.on Context.registerHook Context.effectLabeled
  dsimp only
  by_cases haccepts : acceptsEffects { app with hookCounter := app.hookCounter + 1 } ctx.fiber
  · rw [if_pos haccepts, if_pos haccepts]
    rfl
  · rw [if_neg haccepts, if_neg haccepts]

theorem provide_eq (name : String) (checked : Bool) :
    provide host app ctx name checked = (ctx.provide host app name checked).2 := by
  have hsome := isolateLookup_ensureLabel_isSome app ctx name
  obtain ⟨label, hlabel⟩ := isSome_iff_exists.mp hsome
  simp only [provide, Context.provide, Context.effectLabeled, Context.provideBody, hlabel,
    get_some]
  by_cases haccepts : acceptsEffects (ensureLabel app name) ctx.fiber
  · cases hfound : (ensureLabel app name).store.lookup label with
    | none | some existing => simp [haccepts]
  · simp [haccepts]

theorem plugin_eq (key : PluginKey) (inject : List String) :
    plugin host app ctx key inject = (ctx.plugin host app key inject).2 := by
  unfold plugin Context.plugin Context.effectLabeled
  cases app.fibers[ctx.fiber]? with
  | none => rfl
  | some parent =>
    dsimp only
    split
    · rfl
    · change (if acceptsEffects (app.publish ctx key inject) ctx.fiber then _ else _) = _
      split
      · rfl
      · rfl

end Steps

/-! ## Where fibers come from -/

/-- The fibers were made by the same registration. -/
structure SameOrigin (data data' : FiberData) : Prop where
  parent : data'.parent = data.parent
  ctx : data'.ctx = data.ctx
  runtime : data'.runtime = data.runtime
  inject : data'.inject = data.inject

def MadeBy (data : FiberData) : Action → Prop
  | .plugin ctx key inject => ∃ id, SameOrigin (newFiber id ctx key inject) data
  | _ => False

def KeepsFibers (app app' : App) : Prop :=
  ∀ (id : FiberId) data', app'.fibers[id]? = some data' →
    ∃ data, app.fibers[id]? = some data ∧ SameOrigin data data'

theorem SameOrigin.refl (data : FiberData) : SameOrigin data data := ⟨rfl, rfl, rfl, rfl⟩

theorem SameOrigin.trans {first second third : FiberData} (hfirst : SameOrigin first second)
    (hsecond : SameOrigin second third) : SameOrigin first third :=
  ⟨hsecond.parent.trans hfirst.parent, hsecond.ctx.trans hfirst.ctx,
    hsecond.runtime.trans hfirst.runtime, hsecond.inject.trans hfirst.inject⟩

theorem SameSetup.sameOrigin {data data' : FiberData} (hsame : SameSetup data data') :
    SameOrigin data data' := ⟨hsame.parent, hsame.ctx, hsame.runtime, hsame.inject⟩

variable {action : Action}

theorem MadeBy.of_sameOrigin {data data' : FiberData}
    (hmade : MadeBy data action) (hsame : SameOrigin data data') : MadeBy data' action := by
  cases action with
  | plugin ctx key inject => exact hmade.imp fun _ horigin => horigin.trans hsame
  | _ => exact hmade

namespace KeepsFibers

variable {app app' app'' : App}

theorem of_fibers (hfibers : app'.fibers = app.fibers) : KeepsFibers app app' :=
  fun id data' hdata' => ⟨data', hfibers ▸ hdata', .refl data'⟩

theorem trans (hfirst : KeepsFibers app app') (hsecond : KeepsFibers app' app'') :
    KeepsFibers app app'' := by
  intro id data'' hdata''
  obtain ⟨data', hdata', hlater⟩ := hsecond id data'' hdata''
  obtain ⟨data, hdata, hearlier⟩ := hfirst id data' hdata'
  exact ⟨data, hdata, hearlier.trans hlater⟩

theorem modifyFiber (app : App) (id : FiberId) {change : FiberData → FiberData}
    (hchange : ∀ data, SameOrigin data (change data)) :
      KeepsFibers app (app.modifyFiber id change) := by
  intro other data' hdata'
  simp only [App.modifyFiber, getElem?_modify] at hdata'
  obtain ⟨data, hdata, rfl⟩ := map_eq_some_iff.mp hdata'
  refine ⟨data, hdata, ?_⟩
  split
  · exact hchange data
  · exact .refl data

theorem setFiber {id : FiberId} {data data' : FiberData} (hdata : app.fibers[id]? = some data)
    (hsame : SameOrigin data data') : KeepsFibers app (app.setFiber id data') := by
  intro other found hfound
  by_cases hid : id = other
  · subst hid
    rw [App.getElem?_setFiber_self hdata, some.injEq] at hfound
    exact ⟨data, hdata, hfound ▸ hsame⟩
  · rw [App.getElem?_setFiber_of_ne hid] at hfound
    exact ⟨found, hfound, .refl found⟩

theorem registerEffect (app : App) (id : FiberId) (disposers : List Disposer) :
    KeepsFibers app (registerEffect app id disposers) := by
  have heffects : KeepsFibers app { app with
      effects := app.effects ++ [EffectState.mk id disposers .idle none] } := of_fibers rfl
  exact heffects.trans (modifyFiber _ id fun _ => ⟨rfl, rfl, rfl, rfl⟩)

theorem notified (hnotified : Notified app app') : KeepsFibers app app' := by
  intro id data' hdata'
  obtain ⟨data, hdata, hchecks, -⟩ := hnotified.fibers_of_after hdata'
  have hsame := hchecks.sameFiber
  exact ⟨data, hdata, hsame.parent, hsame.ctx, hsame.runtime, hsame.inject⟩

theorem retire {id : FiberId} {data : FiberData} (hdata : app.fibers[id]? = some data) :
    KeepsFibers app (app.retire id data) := by
  have hleft : KeepsFibers app (app.leaveRuntime id data) := of_fibers rfl
  have hsame := data.sameSetup_retire
  exact hleft.trans (setFiber hdata ⟨hsame.parent, hsame.ctx, hsame.runtime, hsame.inject⟩)

theorem insertRecord (app : App) (label : Label) (record : ImplRecord) :
    KeepsFibers app (app.insertRecord label record) := by
  have hput : KeepsFibers app (app.putRecord label record) := of_fibers rfl
  exact hput.trans (modifyFiber _ _ fun _ => ⟨rfl, rfl, rfl, rfl⟩)

end KeepsFibers

/-- Every fiber was there before, or is made by the action. -/
def Accounts (app : App) (action : Action) (app' : App) : Prop :=
  ∀ (id : FiberId) data', app'.fibers[id]? = some data' →
    (∃ data, app.fibers[id]? = some data ∧ SameOrigin data data') ∨ MadeBy data' action

theorem KeepsFibers.accounts {app app' : App} (hkeeps : KeepsFibers app app') (action : Action) :
    Accounts app action app' := fun id data' hdata' => .inl (hkeeps id data' hdata')

theorem accounts_publish (app : App) (ctx : Context) (key : PluginKey) (inject : List String) :
    Accounts app (.plugin ctx key inject) (app.publish ctx key inject) := by
  intro id data hdata
  simp only [App.publish, getElem?_append] at hdata
  split at hdata
  · exact .inl ⟨data, hdata, .refl data⟩
  · obtain ⟨-, rfl⟩ : id - app.fibers.length = 0 ∧
      newFiber app.fibers.length ctx key inject = data := by
      rw [getElem?_singleton, ite_none_right_eq_some, some.injEq] at hdata
      exact hdata
    exact .inr ⟨app.fibers.length, .refl _⟩

theorem Accounts.keeps {app app' app'' : App} (haccounts : Accounts app action app')
    (hkeeps : KeepsFibers app' app'') : Accounts app action app'' := by
  intro id data'' hdata''
  obtain ⟨data', hdata', hsame⟩ := hkeeps id data'' hdata''
  rcases haccounts id data' hdata' with ⟨data, hdata, hbefore⟩ | hmade
  · exact .inl ⟨data, hdata, hbefore.trans hsame⟩
  · exact .inr (hmade.of_sameOrigin hsame)

theorem Change.accounts {app app' : App} (hchange : Change app action app') :
    Accounts app action app' := by
  have hlabel (name : String) : KeepsFibers app (ensureLabel app name) :=
    .of_fibers (ensureLabel_fibers app name)
  cases hchange with
  | effect ctx tags => exact (KeepsFibers.registerEffect app ctx.fiber _).accounts _
  | on ctx =>
    have hhooks : KeepsFibers app { app with
        hookCounter := app.hookCounter + 1
        hooks := app.hooks ++ [Hook.mk (app.hookCounter + 1) ctx.fiber] } := .of_fibers rfl
    exact (hhooks.trans (.registerEffect _ ctx.fiber _)).accounts _
  | provideRefused ctx name => exact (hlabel name).accounts _
  | provide ctx name =>
    exact (((hlabel name).trans (.insertRecord _ _ _)).trans (.registerEffect _ _ _)).accounts _
  | plugin ctx key inject => exact (accounts_publish app ctx key inject).keeps (.registerEffect _ _ _)
  | orphan ctx key inject => exact accounts_publish app ctx key inject
  | move updates disposing _ hdata hmove =>
    have hrest : KeepsFibers app { app with updates, disposing } := .of_fibers rfl
    exact (hrest.trans (.setFiber hdata hmove.sameSetup.sameOrigin)).accounts _
  | dispose hdata | child _ hdata =>
    have hretired := KeepsFibers.retire hdata
    exact (hretired.trans (.of_fibers rfl)).accounts _
  | removed | childDisposed =>
    refine KeepsFibers.accounts (.trans (.modifyFiber app _ fun data => ?_) (.of_fibers rfl)) _
    exact ⟨rfl, rfl, rfl, rfl⟩
  | _ => exact (KeepsFibers.of_fibers rfl).accounts _

theorem step_accounts {host : Host} {app app' : App} (hregistry : Registry app)
    (hstep : step host app action = some app') : Accounts app action app' := by
  obtain ⟨app₁, hchange, hnotified⟩ := step_change host hregistry.rested hstep
  exact hchange.accounts.keeps (.notified hnotified)

/-- Every fiber of a run was there before, or is made by one of its actions. -/
theorem run_accounts {host : Host} {app final : App} {actions : List Action}
    (hregistry : Registry app) (hrun : Trace.run (step host) app actions = some final) :
    ∀ (id : FiberId) data', final.fibers[id]? = some data' →
      (∃ data, app.fibers[id]? = some data ∧ SameOrigin data data') ∨
        ∃ action ∈ actions, MadeBy data' action := by
  induction actions generalizing app with
  | nil =>
    rw [Trace.run_nil, some.injEq] at hrun
    exact fun id data hdata => .inl ⟨data, hrun ▸ hdata, .refl data⟩
  | cons action rest ih =>
    obtain ⟨next, hstep, hrest⟩ := Trace.run_cons_eq_some.1 hrun
    intro id data'' hdata''
    rcases ih (hregistry.step hstep) hrest id data'' hdata'' with
      ⟨data', hdata', hsame⟩ | ⟨later, hlater, hmade⟩
    · rcases step_accounts hregistry hstep id data' hdata' with ⟨data, hdata, hbefore⟩ | hmade
      · exact .inl ⟨data, hdata, hbefore.trans hsame⟩
      · exact .inr ⟨action, mem_cons_self, hmade.of_sameOrigin hsame⟩
    · exact .inr ⟨later, mem_cons_of_mem action hlater, hmade⟩

/-! ## Refusals -/

/-- One registration of a context. -/
inductive Registration where
  | plugin (ctx : Context) (key : PluginKey) (inject : List String)
  | provide (ctx : Context) (name : String) (checked : Bool)
  | on (ctx : Context) (prepend : Bool)
  | onWaterfall (ctx : Context) (prepend : Bool)
  | effectLabeled (ctx : Context) (body : Body)

def register (host : Host) (app : App) : Registration → Except CordisError Nat × App
  | .plugin ctx key inject => ctx.plugin host app key inject
  | .provide ctx name checked => ctx.provide host app name checked
  | .on ctx prepend => ctx.on app prepend
  | .onWaterfall ctx prepend => ctx.onWaterfall app prepend
  | .effectLabeled ctx body => ctx.effectLabeled app body

/-- The tables of the app, and the calls of `dispose` that wait. -/
structure Untouched (app next : App) : Prop where
  fibers : next.fibers = app.fibers
  runtimes : next.runtimes = app.runtimes
  hooks : next.hooks = app.hooks
  store : next.store = app.store
  effects : next.effects = app.effects
  disposing : next.disposing = app.disposing

/-- A refused registration touches nothing, and no fiber of a later state is its. -/
structure LeavesNoTrace (host : Host) (app : App) (call : Registration) : Prop where
  untouched : ∀ error, (register host app call).1 = .error error →
    Untouched app (register host app call).2
  never : ∀ error, (register host app call).1 = .error error → ∀ later final,
    Trace.run (step host) (register host app call).2 later = some final →
    ∀ (id : FiberId) data', final.fibers[id]? = some data' →
      (∃ data, app.fibers[id]? = some data ∧ SameOrigin data data') ∨
        ∃ action ∈ later, MadeBy data' action

/-- The fiber unloads, and is not disposed. -/
def App.Reloads (app : App) (id : FiberId) : Prop :=
  ∃ data, app.fibers[id]? = some data ∧ data.uid ≠ none ∧ data.state = .unloading

/-- A plugin is not loaded from a fiber that unloads without being disposed, and a body that
fails leaves the tables as they are. -/
def Clean (app : App) : Registration → Prop
  | .plugin ctx _ _ => ¬ app.Reloads ctx.fiber
  | .effectLabeled ctx body => acceptsEffects app ctx.fiber → ∀ error,
      (body app).1 = .error error → Untouched app (body app).2
  | .provide .. | .on .. | .onWaterfall .. => True

section Refusals

variable {host : Host} {app next : App} {ctx : Context} {error : CordisError}

theorem Untouched.refl (app : App) : Untouched app app := ⟨rfl, rfl, rfl, rfl, rfl, rfl⟩

theorem untouched_ensureLabel (app : App) (name : String) : Untouched app (ensureLabel app name) := by
  unfold ensureLabel
  split
  · exact .refl app
  · exact ⟨rfl, rfl, rfl, rfl, rfl, rfl⟩

theorem Untouched.registry (huntouched : Untouched app next) (hregistry : Registry app) :
    Registry next :=
  hregistry.congr huntouched.fibers huntouched.runtimes
    (huntouched.disposing ▸ List.Subset.refl _)

theorem effectLabeled_error {body : Body}
    (herror : (ctx.effectLabeled app body).1 = .error error) :
    (¬ acceptsEffects app ctx.fiber ∧ (ctx.effectLabeled app body).2 = app) ∨
      (acceptsEffects app ctx.fiber ∧ (body app).1 = .error error ∧
        (ctx.effectLabeled app body).2 = (body app).2) := by
  by_cases haccepts : acceptsEffects app ctx.fiber
  · refine .inr ⟨haccepts, ?_⟩
    rw [Context.effectLabeled, if_pos haccepts] at herror ⊢
    rcases hbody : body app with ⟨_ | disposers, next⟩
    · rw [hbody] at herror
      cases herror
      exact ⟨rfl, rfl⟩
    · rw [hbody] at herror
      cases herror
  · exact .inl ⟨haccepts, by rw [effectLabeled_of_refused haccepts]⟩

theorem registerHook_error {prepend : Bool}
    (herror : (ctx.registerHook app prepend).1 = .error error) :
    Untouched app (ctx.registerHook app prepend).2 := by
  rw [Context.registerHook] at herror ⊢
  rcases effectLabeled_error herror with ⟨-, hnext⟩ | ⟨-, hbody, -⟩
  · rw [hnext]
    exact ⟨rfl, rfl, rfl, rfl, rfl, rfl⟩
  · cases hbody

theorem provide_error {name : String} {checked : Bool}
    (herror : (ctx.provide host app name checked).1 = .error error) :
    Untouched app (ctx.provide host app name checked).2 := by
  rw [Context.provide] at herror ⊢
  rcases effectLabeled_error herror with ⟨-, hnext⟩ | ⟨-, hbody, hnext⟩
  · rw [hnext]
    exact untouched_ensureLabel app name
  · rw [hnext]
    unfold Context.provideBody at hbody ⊢
    split
    · exact untouched_ensureLabel app name
    next hfree =>
      rw [hfree] at hbody
      cases hbody

theorem plugin_error {key : PluginKey} {inject : List String}
    (herror : (ctx.plugin host app key inject).1 = .error error) :
    (¬ app.Reloads ctx.fiber ∧ (ctx.plugin host app key inject).2 = app) ∨
      (app.Reloads ctx.fiber ∧
        (ctx.plugin host app key inject).2 = app.publish ctx key inject) := by
  rw [Context.plugin] at herror ⊢
  cases hparent : app.fibers[ctx.fiber]? with
  | none =>
    refine .inl ⟨?_, rfl⟩
    rintro ⟨data, hdata, -⟩
    rw [hparent] at hdata
    cases hdata
  | some parent =>
    rw [hparent] at herror
    dsimp only at herror ⊢
    split at herror
    next huid =>
      rw [if_pos huid]
      refine .inl ⟨?_, rfl⟩
      rintro ⟨data, hdata, hlive, -⟩
      obtain rfl := mem_unique hparent hdata
      exact hlive (isNone_iff_eq_none.mp huid)
    next huid =>
      rw [if_neg huid]
      rw [isNone_iff_eq_none] at huid
      by_cases haccepts : acceptsEffects (app.publish ctx key inject) ctx.fiber
      · rw [Context.effectLabeled, if_pos haccepts] at herror
        cases herror
      · rw [effectLabeled_of_refused haccepts]
        refine .inr ⟨⟨parent, hparent, huid, ?_⟩, rfl⟩
        by_contra hstate
        exact haccepts (acceptsEffects_publish
          (acceptsEffects_iff.2 ⟨parent, hparent, huid, hstate⟩))

theorem plugin_of_reloads (hreloads : app.Reloads ctx.fiber) (key : PluginKey)
    (inject : List String) :
    ctx.plugin host app key inject = (.error .inactiveEffect, app.publish ctx key inject) := by
  obtain ⟨parent, hparent, huid, hstate⟩ := hreloads
  obtain ⟨hlt, -⟩ := List.getElem?_eq_some_iff.mp hparent
  have hrefused : ¬ acceptsEffects (app.publish ctx key inject) ctx.fiber := by
    rw [acceptsEffects_iff]
    rintro ⟨data, hdata, -, haccepted⟩
    rw [App.publish, List.getElem?_append_left hlt, hparent] at hdata
    exact haccepted (Option.some.inj hdata ▸ hstate)
  rw [Context.plugin, hparent]
  dsimp only
  rw [if_neg (fun hnone => huid (isNone_iff_eq_none.mp hnone)),
    effectLabeled_of_refused hrefused]

theorem LeavesNoTrace.of_untouched {call : Registration} (hregistry : Registry app)
    (huntouched : ∀ error, (register host app call).1 = .error error →
      Untouched app (register host app call).2) : LeavesNoTrace host app call where
  untouched := huntouched
  never error herror later final hrun := by
    have hsame := huntouched error herror
    have haccounts := run_accounts (hsame.registry hregistry) hrun
    rwa [hsame.fibers] at haccounts

/-- In every reachable state, a refused registration leaves no trace exactly if it is clean. -/
theorem leavesNoTrace_iff (host : Host) (before : List Action) (app : App)
    (hrun : Trace.run (step host) App.new before = some app) (call : Registration) :
    LeavesNoTrace host app call ↔ Clean app call := by
  have hregistry : Registry app :=
    Trace.run_invariant (fun _ _ _ hregistry hstep => hregistry.step hstep) .new hrun
  constructor
  · intro htrace
    cases call with
    | plugin ctx key inject =>
      intro hreloads
      have hplugin := @plugin_of_reloads host app ctx hreloads key inject
      have hfibers := (htrace.untouched .inactiveEffect
        (by rw [register, hplugin])).fibers
      rw [register, hplugin, App.publish] at hfibers
      simp at hfibers
    | effectLabeled ctx body =>
      intro haccepts error hbody
      have herror : ctx.effectLabeled app body = (.error error, (body app).2) := by
        rw [Context.effectLabeled, if_pos haccepts]
        rcases hresult : body app with ⟨_ | disposers, next⟩
        · rw [hresult] at hbody
          cases hbody
          rfl
        · rw [hresult] at hbody
          cases hbody
      have huntouched := htrace.untouched error (by rw [register, herror])
      rwa [register, herror] at huntouched
    | _ => trivial
  · intro hclean
    refine .of_untouched hregistry fun error herror => ?_
    cases call with
    | plugin ctx key inject =>
      rcases plugin_error herror with ⟨-, hnext⟩ | ⟨hreloads, -⟩
      · rw [register, hnext]
        exact .refl app
      · exact absurd hreloads hclean
    | provide ctx name checked => exact provide_error herror
    | on ctx prepend | onWaterfall ctx prepend => exact registerHook_error herror
    | effectLabeled ctx body =>
      rcases effectLabeled_error herror with ⟨-, hnext⟩ | ⟨haccepts, hbody, hnext⟩
      · rw [register, hnext]
        exact .refl app
      · rw [register, hnext]
        exact hclean haccepts error hbody

/-- The root provides a service; a plugin is loaded and restarted. -/
def restartedRun : List Action :=
  [.provide rootContext "log" false, .plugin rootContext 1 [], .poll 1, .checkpoint 1, .apply 1,
    .applied 1 true, .restart 1]

theorem leavesNoTrace_iff_conflict : ∃ app,
    Trace.run (step Host.plain) App.new restartedRun = some app ∧
      (register Host.plain app (.provide ⟨1, []⟩ "log" false)).1 = .error .inactiveEffect ∧
      (register Host.plain app (.provide rootContext "log" false)).1 =
        .error (.serviceConflict "log" 0) ∧
      LeavesNoTrace Host.plain app (.provide rootContext "log" false) :=
  ⟨_, rfl, rfl, rfl, (leavesNoTrace_iff Host.plain restartedRun _ rfl _).mpr trivial⟩

/-- The service of the rejected plugin comes, and its body runs. -/
def startedRun : List Action :=
  [.provide rootContext "db" false, .poll 2, .checkpoint 2, .apply 2, .applied 2 true]

/-- A plugin is refused by a fiber that unloads to reload. Its fiber stays, and is started when
its service comes. -/
theorem rejected_plugin_starts : ∃ app next final,
    Trace.run (step Host.plain) App.new restartedRun = some app ∧
      register Host.plain app (.plugin ⟨1, []⟩ 2 ["db"]) = (.error .inactiveEffect, next) ∧
      app.fibers.length = 2 ∧ next.fibers.length = 3 ∧ next.runtimes = [(1, [1]), (2, [2])] ∧
      Trace.run (step Host.plain) next startedRun = some final ∧
      final.fibers[2]?.map FiberData.applied = some 1 :=
  ⟨_, _, _, rfl, rfl, rfl, rfl, rfl, rfl, rfl⟩

end Refusals

end Cordis

end Keel
