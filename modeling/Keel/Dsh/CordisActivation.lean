import Keel.Dsh.CordisScopes
import Mathlib

/-! # Activation

A load takes a snapshot of the services of its fiber, yields, and applies the plugin
unless the epoch has changed. A fiber is sound when it is active only after exactly one
successful body, run with the services that are bound to it now.

The epoch can change from one activation to another while a load is in flight, and no
transition answers that. The runs where this does not happen activate soundly.
-/

namespace Keel

open List Option

namespace Cordis

namespace FiberData

def loaded (data : FiberData) (name : String) : Option ImplRecord :=
  data.storeSnapshot.bind fun snapshot => snapshot name

/-- The load has taken its snapshot, and its body has not ended. -/
def midLoad (data : FiberData) : Bool :=
  match data.inertia with
  | some (.checkpoint _) | some .resolvingConfig | some .applying => true
  | _ => false

/-- What is bound is what the load took. A service may have gone since. -/
def Kept (bound : String → Option ImplRecord) (data : FiberData) : Prop :=
  ∀ name ∈ data.inject, ∀ record, bound name = some record → data.loaded name = some record

/-- What a fiber has done by each point of its lifecycle. -/
def LifecycleAt (bound : String → Option ImplRecord) (data : FiberData) : Option Task → Prop
  | none =>
    if data.epoch = .inactive then data.applied = 0 else data.applied = 1 ∧ data.Kept bound
  | some .spawnedLoad => data.applied = 0
  | some .spawnedUnload => True
  | some (.checkpoint expected) =>
    data.applied = 0 ∧ (expected ≠ .inactive → data.Kept bound)
  | some .resolvingConfig => data.applied = 0 ∧ data.Kept bound
  | some .applying => data.applied = 0 ∧ data.Kept bound
  | some (.unloading _) => data.applied = 0

/-- The live store is part of what is bound, and an active epoch has all of it. -/
structure Coherent (bound : String → Option ImplRecord) (data : FiberData) : Prop where
  complete : data.epoch ≠ .inactive → ∀ name ∈ data.inject, data.liveStore name ≠ none
  live : ∀ name ∈ data.inject, ∀ record,
    data.liveStore name = some record → bound name = some record
  phase : data.LifecycleAt bound data.inertia

end FiberData

/-! ## Dependency checks -/

section Checks

variable {bound : String → Option ImplRecord} {uid : FiberId → Nat} {data data' : FiberData}

theorem FiberData.LifecycleAt.withEpoch (hphase : data.LifecycleAt bound data.inertia)
    (epoch : Epoch) :
    (data.withEpoch epoch).LifecycleAt bound (data.withEpoch epoch).inertia := by
  rcases FiberData.withEpoch_cases data epoch with ⟨-, heq⟩ | ⟨⟨task, htask⟩, heq⟩ |
    ⟨hinertia, hepoch, -, heq⟩ | ⟨-, -, heq⟩
  · rwa [heq]
  · rw [heq]
    change FiberData.LifecycleAt bound { data with epoch } data.inertia
    rw [htask] at hphase ⊢
    cases task with
    | _ => exact hphase
  · rw [heq]
    rw [hinertia, LifecycleAt, if_pos hepoch] at hphase
    exact hphase
  · rw [heq]
    trivial

section
variable (hcheck : Recheck bound uid data data')
include hcheck

theorem Recheck.complete (hepoch : data'.epoch ≠ .inactive) {name : String}
    (hname : name ∈ data'.inject) : data'.liveStore name ≠ none := by
  rw [hcheck.sameFiber.inject] at hname
  obtain ⟨live, -⟩ := hcheck
  rw [FiberData.withEpoch_epoch] at hepoch
  rw [FiberData.withEpoch_liveStore]
  obtain ⟨record, hrecord⟩ := epochOf_ne_inactive.1 hepoch name hname
  exact ne_none_iff_exists'.mpr ⟨record, hrecord⟩

theorem Recheck.phase (hphase : data.LifecycleAt bound data.inertia) :
    data'.LifecycleAt bound data'.inertia := by
  obtain ⟨live, -⟩ := hcheck
  have hlive : (data.withLive live).LifecycleAt bound (data.withLive live).inertia := hphase
  exact hlive.withEpoch _

theorem Recheck.live {name : String}
    (hlive : ∀ record, data.liveStore name = some record → bound name = some record)
    {record : ImplRecord} (hrecord : data'.liveStore name = some record) :
    bound name = some record := by
  obtain ⟨live, hlive'⟩ := hcheck
  rw [FiberData.withEpoch_liveStore] at hrecord
  change live name = some record at hrecord
  rcases hlive' name with heq | ⟨-, heq | ⟨heq, -⟩⟩
  · exact hlive record (heq ▸ hrecord)
  · exact heq ▸ hrecord
  · rw [heq] at hrecord
    cases hrecord

end

section
variable (hchecks : Rechecks bound uid data data')
include hchecks

theorem Rechecks.complete
    (hcomplete : data.epoch ≠ .inactive → ∀ name ∈ data.inject, data.liveStore name ≠ none)
    (hepoch : data'.epoch ≠ .inactive) {name : String} (hname : name ∈ data'.inject) :
    data'.liveStore name ≠ none := by
  cases hchecks with
  | refl => exact hcomplete hepoch name hname
  | tail _ hcheck => exact hcheck.complete hepoch hname

theorem Rechecks.phase (hphase : data.LifecycleAt bound data.inertia) :
    data'.LifecycleAt bound data'.inertia := by
  induction hchecks with
  | refl => exact hphase
  | tail _ hcheck ih => exact hcheck.phase ih

theorem Rechecks.live {name : String}
    (hlive : ∀ record, data.liveStore name = some record → bound name = some record)
    {record : ImplRecord} (hrecord : data'.liveStore name = some record) :
    bound name = some record := by
  induction hchecks generalizing record with
  | refl => exact hlive record hrecord
  | tail _ hcheck ih => exact hcheck.live (fun record hrecord => ih hrecord) hrecord

end

theorem FiberData.Coherent.rechecks (hcoherent : data.Coherent bound)
    (hchecks : Rechecks bound uid data data') : data'.Coherent bound :=
  ⟨fun hepoch _ => hchecks.complete hcoherent.complete hepoch,
    fun name hname _ => hchecks.live (hcoherent.live name (hchecks.sameFiber.inject ▸ hname)),
    hchecks.phase hcoherent.phase⟩

theorem Fresh.live {name : String} (hfresh : Fresh bound data.liveStore name)
    {record : ImplRecord} (hrecord : data.liveStore name = some record) :
    bound name = some record := by
  rcases hfresh with heq | ⟨heq, -⟩
  · exact heq ▸ hrecord
  · rw [heq] at hrecord
    cases hrecord

end Checks

/-! ## Lifecycle moves -/

/-- A load resumes with an active epoch exactly when it resumes with its own. -/
def FiberData.resumesExpected (data : FiberData) : Bool :=
  match data.inertia with
  | some (.checkpoint expected) => data.epoch = expected ↔ data.epoch ≠ .inactive
  | _ => true

theorem FiberData.epoch_eq_iff {data : FiberData} {expected : Epoch}
    (hresumes : data.resumesExpected) (hinertia : data.inertia = some (.checkpoint expected)) :
    data.epoch = expected ↔ data.epoch ≠ .inactive := by
  rw [FiberData.resumesExpected, hinertia] at hresumes
  exact of_decide_eq_true hresumes

section Moves

variable {bound : String → Option ImplRecord} {app : App} {id : FiberId}
variable {data data' : FiberData} {action : Action}

theorem FiberData.endLoad_epoch (data : FiberData) : data.endLoad.epoch = data.epoch := by
  unfold FiberData.endLoad
  split
  · rfl
  · rfl

theorem Move.epoch (hmove : Move app id data action data') :
    data'.epoch = .inactive ∨ data'.epoch = data.epoch := by
  cases hmove with
  | restart => exact .inl (data.withEpoch_epoch .inactive)
  | update | applyUpdate => exact .inl (data.clearError.withEpoch_epoch .inactive)
  | skip => exact .inr data.endLoad_epoch
  | failConfig => exact .inl data.fail.endLoad_epoch
  | succeed => exact .inr data.succeed.endLoad_epoch
  | fail => exact .inl data.fail.endLoad_epoch
  | _ => exact .inr rfl

theorem FiberData.LifecycleAt.endLoad
    (hsettles : data.epoch ≠ .inactive → data.applied = 1 ∧ data.Kept bound) :
    data.endLoad.LifecycleAt bound data.endLoad.inertia := by
  unfold FiberData.endLoad
  split
  · rfl
  next uids hepoch =>
    have hactive : data.epoch ≠ .inactive := by simp [hepoch]
    exact (if_neg hactive).mpr (hsettles hactive)

theorem FiberData.LifecycleAt.beginLoad (happlied : data.applied = 0)
    (hcomplete : data.epoch ≠ .inactive → ∀ name ∈ data.inject, data.liveStore name ≠ none)
    (hlive : ∀ name ∈ data.inject, ∀ record,
      data.liveStore name = some record → bound name = some record) :
    data.beginLoad.LifecycleAt bound data.beginLoad.inertia := by
  refine ⟨happlied, fun hepoch name hname record hrecord => ?_⟩
  -- An active epoch has every service live, and what is live is bound.
  obtain ⟨live, hfound⟩ := ne_none_iff_exists'.mp (hcomplete hepoch name hname)
  have hbound := hlive name hname live hfound
  change data.liveStore name = some record
  rw [hfound, ← hbound, hrecord]

variable (hmove : Move app id data action data') (hcoherent : data.Coherent bound)
    (hresumes : action = .checkpoint id → data.resumesExpected)
    (hruntime : (data.runtime.bind fun key => app.runtimes.lookup key) ≠ none)
include hmove hcoherent hresumes hruntime

theorem Move.phase : data'.LifecycleAt bound data'.inertia := by
  have hphase := hcoherent.phase
  cases hmove with
  | restart => exact hphase.withEpoch .inactive
  | update | applyUpdate =>
    have hclear : data.clearError.LifecycleAt bound data.clearError.inertia := hphase
    exact hclear.withEpoch .inactive
  | applyUpdateDisposed | disposed => exact hphase
  | pollLoad hinertia =>
    rw [hinertia] at hphase
    exact .beginLoad hphase hcoherent.complete hcoherent.live
  | pollUnload => rfl
  | resolve hinertia =>
    rw [hinertia] at hphase
    have hactive := (FiberData.epoch_eq_iff (hresumes rfl) hinertia).mp rfl
    exact ⟨hphase.1, hphase.2 hactive⟩
  | skip hinertia hskip =>
    refine FiberData.LifecycleAt.endLoad fun hactive => ?_
    exact absurd (hskip ((FiberData.epoch_eq_iff (hresumes rfl) hinertia).mpr hactive)) hruntime
  | apply hinertia =>
    rw [hinertia] at hphase
    exact hphase
  | failConfig => exact FiberData.LifecycleAt.endLoad fun hactive => absurd rfl hactive
  | succeed hinertia =>
    rw [hinertia] at hphase
    refine FiberData.LifecycleAt.endLoad fun _ => ⟨?_, hphase.2⟩
    exact congrArg (· + 1) hphase.1
  | fail => exact FiberData.LifecycleAt.endLoad fun hactive => absurd rfl hactive
  | nextHandle hinertia =>
    rw [hinertia] at hphase
    exact hphase
  | settle hinertia hepoch =>
    rw [hinertia] at hphase
    exact (if_pos hepoch).mpr hphase
  | reload hinertia =>
    rw [hinertia] at hphase
    have hreload : (data.dropSnapshot.withState .loading).applied = 0 := hphase
    exact .beginLoad hreload hcoherent.complete hcoherent.live

theorem Move.coherent : data'.Coherent bound := by
  have hsame := hmove.sameSetup
  refine ⟨fun hepoch name hname => ?_, ?_, hmove.phase hcoherent hresumes hruntime⟩
  · rw [hsame.liveStore]
    rw [hsame.inject] at hname
    rcases hmove.epoch with hinactive | heq
    · exact absurd hinactive hepoch
    · exact hcoherent.complete (heq ▸ hepoch) name hname
  · rw [hsame.liveStore, hsame.inject]
    exact hcoherent.live

end Moves

/-! ## Changes of an app -/

/-- No service that a loading fiber misses is provided before its body ends. -/
def NoLateProvide (app : App) : Action → Prop
  | .provide ctx name _ => ∀ data ∈ app.fibers, data.midLoad → name ∈ data.inject →
      (ensureLabel app name).isolateLookup data.ctx name =
        (ensureLabel app name).isolateLookup ctx name → app.bound data.ctx name ≠ none
  | _ => True

/-- Loads resume with an active epoch only when they began with it. -/
def ResumesInEpoch (app : App) : Action → Prop
  | .checkpoint id => ∀ data ∈ app.fibers[id]?, data.resumesExpected
  | _ => True

/-- The scopes of a step are respected, and the loads in flight are not disturbed. -/
structure Undisturbed (owner : Label → String) (app : App) (action : Action) : Prop where
  respects : RespectsScopes owner app action
  late : NoLateProvide app action
  resumes : ResumesInEpoch app action

instance (app : App) (action : Action) : Decidable (NoLateProvide app action) := by
  unfold NoLateProvide
  rcases action <;> infer_instance

instance (app : App) (action : Action) : Decidable (ResumesInEpoch app action) := by
  unfold ResumesInEpoch
  rcases action <;> infer_instance

instance (owner : Label → String) (app : App) (action : Action) :
    Decidable (Undisturbed owner app action) :=
  decidable_of_iff
    (RespectsScopes owner app action ∧ NoLateProvide app action ∧ ResumesInEpoch app action)
    ⟨fun h => ⟨h.1, h.2.1, h.2.2⟩, fun h => ⟨h.respects, h.late, h.resumes⟩⟩

/-- Plugin fibers that are not disposed are coherent with what is bound. -/
def App.Coheres (app : App) : Prop :=
  ∀ (id : FiberId) data, app.fibers[id]? = some data → data.uid ≠ none → data.runtime ≠ none →
    data.Coherent (app.bound data.ctx)

theorem FiberData.LifecycleAt.imp {bound bound' : String → Option ImplRecord}
    {data data' : FiberData} (hkept : data.Kept bound → data'.Kept bound')
    (happlied : data'.applied = data.applied) (hepoch : data'.epoch = data.epoch) :
    ∀ {inertia}, data.LifecycleAt bound inertia → data'.LifecycleAt bound' inertia
  | none, hphase => by
      by_cases hinactive : data.epoch = .inactive
      · have hidle : data.applied = 0 := (if_pos hinactive).mp hphase
        exact (if_pos (hepoch.trans hinactive)).mpr (happlied.trans hidle)
      · have hactive : data.applied = 1 ∧ data.Kept bound := (if_neg hinactive).mp hphase
        exact (if_neg (hepoch ▸ hinactive)).mpr ⟨happlied.trans hactive.1, hkept hactive.2⟩
  | some .spawnedLoad, hphase => happlied.trans hphase
  | some .spawnedUnload, _ => trivial
  | some (.checkpoint _), hphase =>
    ⟨happlied.trans hphase.1, fun hactive => hkept (hphase.2 hactive)⟩
  | some .resolvingConfig, hphase | some .applying, hphase =>
    ⟨happlied.trans hphase.1, hkept hphase.2⟩
  | some (.unloading _), hphase => happlied.trans hphase

namespace FiberData.Coherent

variable {bound bound' : String → Option ImplRecord} {data data' : FiberData}

variable (hcoherent : data.Coherent bound)
include hcoherent

theorem congr (hbound : ∀ name ∈ data.inject, bound' name = bound name) : data.Coherent bound' := by
  have hkept : data.Kept bound → data.Kept bound' := fun hkept name hname record hrecord =>
    hkept name hname record (hbound name hname ▸ hrecord)
  exact ⟨hcoherent.complete, fun name hname => hbound name hname ▸ hcoherent.live name hname,
    hcoherent.phase.imp hkept rfl rfl⟩

theorem congr_stores (hinject : data'.inject = data.inject) (hepoch : data'.epoch = data.epoch)
    (hinertia : data'.inertia = data.inertia) (happlied : data'.applied = data.applied)
    (hlive : ∀ name ∈ data.inject, data'.liveStore name = data.liveStore name)
    (hloaded : ∀ name ∈ data.inject, data'.loaded name = data.loaded name) :
    data'.Coherent bound := by
  have hkept : data.Kept bound → data'.Kept bound := fun hkept name hname record hrecord => by
    rw [hinject] at hname
    rw [hloaded name hname]
    exact hkept name hname record hrecord
  refine ⟨fun hactive name hname => ?_, fun name hname => ?_, ?_⟩
  · rw [hinject] at hname
    rw [hlive name hname]
    exact hcoherent.complete (hepoch ▸ hactive) name hname
  · rw [hinject] at hname
    rw [hlive name hname]
    exact hcoherent.live name hname
  · rw [hinertia]
    exact hcoherent.phase.imp hkept happlied hepoch

theorem appear (name : String) (hfree : bound name = none)
    (hidle : name ∈ data.inject → ¬ data.midLoad)
    (hbound : ∀ other ∈ data.inject, other ≠ name → bound' other = bound other) :
    data.Coherent bound' := by
  by_cases hname : name ∈ data.inject
  · have hmissing : data.liveStore name = none := by
      by_contra hlive
      obtain ⟨record, hrecord⟩ := ne_none_iff_exists'.mp hlive
      rw [hcoherent.live name hname record hrecord] at hfree
      cases hfree
    have hinactive : data.epoch = .inactive := by
      by_contra hactive
      exact hcoherent.complete hactive name hname hmissing
    refine ⟨hcoherent.complete, fun other hother record hrecord => ?_, ?_⟩
    · by_cases heq : other = name
      · rw [heq, hmissing] at hrecord
        cases hrecord
      · exact hbound other hother heq ▸ hcoherent.live other hother record hrecord
    · have hphase := hcoherent.phase
      have hnotLoading := hidle hname
      unfold midLoad at hnotLoading
      cases hinertia : data.inertia with
      | none =>
        rw [hinertia, LifecycleAt, if_pos hinactive] at hphase
        exact (if_pos hinactive).mpr hphase
      | some task =>
        rw [hinertia] at hphase
        cases task with
        | spawnedLoad => exact hphase
        | spawnedUnload => trivial
        | unloading => exact hphase
        | checkpoint | resolvingConfig | applying => simp [hinertia] at hnotLoading
  · exact hcoherent.congr fun other hother => hbound other hother fun heq => hname (heq ▸ hother)

end FiberData.Coherent

namespace App.Coheres

variable {app app' : App}

variable (hcoheres : app.Coheres)
include hcoheres

theorem notified (hnotified : Notified app app') : app'.Coheres := by
  intro id data' hdata' huid hruntime
  obtain ⟨data, hdata, hchecks, -⟩ := hnotified.fibers_of_after hdata'
  have hsame := hchecks.sameFiber
  rw [hnotified.bound_eq, hsame.ctx]
  exact (hcoheres id data hdata (hsame.uid ▸ huid) (hsame.runtime ▸ hruntime)).rechecks hchecks

theorem congr (hfibers : app'.fibers = app.fibers) (hbound : app'.bound = app.bound) :
    app'.Coheres := by
  unfold App.Coheres
  rw [hfibers, hbound]
  exact hcoheres

theorem setFiber {id : FiberId} {data data' : FiberData} (hdata : app.fibers[id]? = some data)
    (hdata' : data'.uid ≠ none → data'.runtime ≠ none → data'.Coherent (app.bound data'.ctx)) :
    (app.setFiber id data').Coheres := by
  intro other found hfound
  by_cases hid : id = other
  · subst hid
    rw [App.getElem?_setFiber_self hdata, Option.some.injEq] at hfound
    exact hfound ▸ hdata'
  · rw [App.getElem?_setFiber_of_ne hid] at hfound
    exact hcoheres other found hfound

theorem modifyFiber (id : FiberId) (change : FiberData → FiberData)
    (hchange : ∀ data, app.fibers[id]? = some data → (change data).uid = data.uid ∧
      (change data).ctx = data.ctx ∧ (change data).runtime = data.runtime ∧
        ∀ bound, data.Coherent bound → (change data).Coherent bound) :
    (app.modifyFiber id change).Coheres := by
  cases hdata : app.fibers[id]? with
  | none =>
    rw [App.modifyFiber_of_none hdata]
    exact hcoheres
  | some data =>
    rw [App.modifyFiber_eq_setFiber hdata]
    obtain ⟨hsame, hctx, hplugin, hcoherent⟩ := hchange data hdata
    refine hcoheres.setFiber hdata fun huid hruntime => ?_
    rw [hctx]
    exact hcoherent _ (hcoheres id data hdata (hsame ▸ huid) (hplugin ▸ hruntime))

theorem registerEffect (id : FiberId) (disposers : List Disposer) :
    (registerEffect app id disposers).Coheres := by
  have hbase : ({ app with
      effects := app.effects ++ [EffectState.mk id disposers .idle none] } : App).Coheres :=
    hcoheres.congr rfl rfl
  exact hbase.modifyFiber id _ fun _ _ =>
    ⟨rfl, rfl, rfl, fun _ hcoherent => ⟨hcoherent.complete, hcoherent.live, hcoherent.phase⟩⟩

theorem publish (ctx : Context) (key : PluginKey) (inject : List String) :
    (app.publish ctx key inject).Coheres := by
  intro id data hdata
  simp only [App.publish, getElem?_append] at hdata
  split at hdata
  · exact hcoheres id data hdata
  · obtain rfl := mem_singleton.mp (mem_of_getElem? hdata)
    refine fun _ _ => ⟨fun hepoch => absurd rfl hepoch, fun _ _ record hrecord => ?_, ?_⟩
    · cases hrecord
    · simp [FiberData.LifecycleAt, newFiber]

theorem retire {id : FiberId} {data : FiberData} (hdata : app.fibers[id]? = some data) :
    (app.retire id data).Coheres := by
  have hbase : (app.leaveRuntime id data).Coheres := hcoheres.congr rfl rfl
  exact hbase.setFiber hdata fun huid => absurd data.sameSetup_retire.uid huid

theorem insertRecord {owner : Label → String} (hscoped : Scoped owner app) {label : Label}
    {record : ImplRecord} (howner : owner label = record.name)
    (hfree : app.store.lookup label = none)
    (hforeign : ∀ data, app.fibers[record.fiber]? = some data → record.name ∉ data.inject)
    (hlate : ∀ (id : FiberId) data, app.fibers[id]? = some data → data.midLoad →
      record.name ∈ data.inject → app.isolateLookup data.ctx record.name ≠ some label) :
    (app.insertRecord label record).Coheres := by
  have hput : (app.putRecord label record).Coheres := by
    intro id data hdata huid hruntime
    have hcoherent := hcoheres id data hdata huid hruntime
    have hlabel : ∀ name, app.isolateLookup data.ctx name = some label → name = record.name :=
      fun name hlookup =>
        (isolateLookup_owner hscoped.root (hscoped.fibers id data hdata) hlookup).symm.trans howner
    have hbound : ∀ name, app.isolateLookup data.ctx name ≠ some label →
        (app.insertRecord label record).bound data.ctx name = app.bound data.ctx name :=
      fun name hlookup => (bound_insertRecord data.ctx name).trans (if_neg hlookup)
    by_cases hscope : app.isolateLookup data.ctx record.name = some label
    · refine hcoherent.appear record.name ?_ (fun hname hload => ?_) fun other _ hother => ?_
      · simp [App.bound, hscope, hfree]
      · exact hlate id data hdata hload hname hscope
      · exact hbound other fun hlookup => hother (hlabel other hlookup)
    · refine hcoherent.congr fun other _ => hbound other fun hlookup => hscope ?_
      rw [← hlabel other hlookup, hlookup]
  refine hput.modifyFiber record.fiber _ fun data hdata => ⟨rfl, rfl, rfl, fun bound hcoherent => ?_⟩
  have hname := hforeign data hdata
  refine hcoherent.congr_stores rfl rfl rfl rfl (fun other hother => ?_) fun other hother => ?_
  · exact Function.update_of_ne (fun heq : other = record.name => hname (heq ▸ hother)) _ _
  · have hne : other ≠ record.name := fun heq => hname (heq ▸ hother)
    cases hsnapshot : data.storeSnapshot with
    | none => simp [FiberData.loaded, insertOwn, hsnapshot]
    | some snapshot => simp [FiberData.loaded, insertOwn, hsnapshot, Function.update_of_ne hne]

theorem removeOwn {provider : FiberId} {name : String} (hforeign : app.Foreign provider name) :
    (app.modifyFiber provider (removeOwn name)).Coheres := by
  obtain ⟨found, hfound, hname⟩ := hforeign
  refine hcoheres.modifyFiber provider _ fun data hdata => ⟨rfl, rfl, rfl, fun bound hcoherent => ?_⟩
  obtain rfl := mem_unique hfound hdata
  refine hcoherent.congr_stores rfl rfl rfl rfl (fun other hother => ?_) fun other hother => ?_
  · exact Function.update_of_ne (fun heq : other = name => hname (heq ▸ hother)) _ _
  · have hne : other ≠ name := fun heq => hname (heq ▸ hother)
    cases hsnapshot : found.storeSnapshot with
    | none => simp [FiberData.loaded, Cordis.removeOwn, hsnapshot]
    | some snapshot =>
      simp [FiberData.loaded, Cordis.removeOwn, hsnapshot, Function.update_of_ne hne]

end App.Coheres

/-- The action starts the removal of a service. -/
def RemovesService (app : App) (action : Action) (ctx : Context) (label : Label) (name : String) :
    Prop :=
  ∃ effect left, action = .runDisposer effect ∧
    app.disposal effect = some (.running (.service ctx label name :: left) none)

theorem Registry.runtime_lookup {app : App} (hregistry : Registry app) {id : FiberId}
    {data : FiberData} (hdata : app.fibers[id]? = some data) (huid : data.uid ≠ none)
    (hruntime : data.runtime ≠ none) :
    (data.runtime.bind fun key => app.runtimes.lookup key) ≠ none := by
  obtain ⟨key, hkey⟩ := ne_none_iff_exists'.mp hruntime
  rw [hkey]
  exact ((hregistry.registered key id).mpr ⟨data, hdata, huid, hkey⟩).lookup

variable {owner : Label → String}

theorem App.Coheres.change {app app' : App} {action : Action}
    (hcoheres : app.Coheres) (hregistry : Registry app) (hscoped : Scoped owner app)
    (hundisturbed : Undisturbed owner app action) (hchange : Change app action app')
    (hservice : ∀ ctx label name, ¬ RemovesService app action ctx label name) : app'.Coheres := by
  cases hchange with
  | refused | isolate => exact hcoheres.congr rfl rfl
  | effect ctx => exact hcoheres.registerEffect ctx.fiber _
  | on ctx =>
    have hbase : ({ app with
        hookCounter := app.hookCounter + 1
        hooks := app.hooks ++ [Hook.mk (app.hookCounter + 1) ctx.fiber] } : App).Coheres :=
      hcoheres.congr rfl rfl
    exact hbase.registerEffect ctx.fiber _
  | provideRefused ctx name =>
    exact hcoheres.congr (ensureLabel_fibers app name)
      (bound_ensureLabel hscoped hundisturbed.respects.2.1)
  | @provide ctx name checked label _ hlabel hfree =>
    have hrespects := hundisturbed.respects
    have hensured := hscoped.ensureLabel hrespects.2.1
    have hbound := bound_ensureLabel hscoped hrespects.2.1
    have hbase : (ensureLabel app name).Coheres :=
      hcoheres.congr (ensureLabel_fibers app name) hbound
    refine App.Coheres.registerEffect (hbase.insertRecord hensured ?_ ?_ ?_ ?_) ctx.fiber _
    · exact isolateLookup_owner hensured.root hrespects.1 hlabel
    · rwa [ensureLabel_store]
    · rw [ensureLabel_fibers]
      exact hrespects.2.2
    · rw [ensureLabel_fibers]
      intro id data hdata hload hname hscope
      refine hundisturbed.late data (mem_of_getElem? hdata) hload hname
        (hscope.trans hlabel.symm) ?_
      have hscope' : (ensureLabel app name).isolateLookup data.ctx name = some label := hscope
      rw [← hbound, App.bound, hscope', bind_some, ensureLabel_store]
      exact hfree
  | plugin ctx => exact (hcoheres.publish ctx _ _).registerEffect ctx.fiber _
  | orphan ctx => exact hcoheres.publish ctx _ _
  | @move id data data' action updates disposing _ hdata hmove =>
    have hbase : ({ app with updates, disposing } : App).Coheres := hcoheres.congr rfl rfl
    refine hbase.setFiber hdata fun huid hruntime => ?_
    have hsame := hmove.sameSetup
    rw [hsame.uid] at huid
    rw [hsame.runtime] at hruntime
    rw [hsame.ctx]
    refine hmove.coherent (hcoheres id data hdata huid hruntime) (fun hcheckpoint => ?_)
      (hregistry.runtime_lookup hdata huid hruntime)
    have hresumes := hundisturbed.resumes
    rw [hcheckpoint] at hresumes
    exact hresumes data hdata
  | dispose hdata => exact (hcoheres.retire hdata).congr rfl rfl
  | joinDispose | disposeEffect | beginHandle | user | hook => exact hcoheres.congr rfl rfl
  | @service effect ctx label name left _ hdisposal =>
    exact absurd ⟨effect, left, rfl, hdisposal⟩ (hservice ctx label name)
  | child _ hdata => exact (hcoheres.retire hdata).congr rfl rfl
  | joinChild | wake => exact hcoheres.congr rfl rfl
  | removed hdisposal =>
    exact (hcoheres.removeOwn (hscoped.woken _ _ _ _ _ hdisposal)).congr rfl rfl
  | @childDisposed _ _ child =>
    have hbase : (app.modifyFiber child (FiberData.withState .disposed)).Coheres :=
      hcoheres.modifyFiber child _ fun _ _ => ⟨rfl, rfl, rfl, fun _ hcoherent =>
        ⟨hcoherent.complete, hcoherent.live, hcoherent.phase⟩⟩
    exact hbase.congr rfl rfl
  | userDisposed => exact hcoheres.congr rfl rfl

theorem App.Coheres.removeService {app app' : App} {host : Host}
    {effect : EffectId} {ctx : Context} {label : Label} {name : String} {left : List Disposer}
    (hcoheres : app.Coheres) (hregistry : Registry app) (hscoped : Scoped owner app)
    (hdisposal : app.disposal effect = some (.running (.service ctx label name :: left) none))
    (hstep : runDisposer host app effect = some app') : app'.Coheres := by
  obtain ⟨app₁, hnotified, hfibers, hruntimes, hroot, hstore⟩ :=
    service_notified host hdisposal hstep
  obtain ⟨found, hfound, -⟩ := map_eq_some_iff.mp hdisposal
  have hpending : .service ctx label name ∈ found.pending := by
    rw [pending_eq hfound hdisposal]
    exact mem_cons_self
  obtain ⟨hlabel, howner, -⟩ := hscoped.services effect found hfound ctx label name hpending
  intro id data' hdata' huid hruntime
  obtain ⟨data, hdata, hchecks, -⟩ := hnotified.fibers_of_after hdata'
  rw [hfibers] at hdata
  have hsame := hchecks.sameFiber
  rw [hsame.uid] at huid
  rw [hsame.runtime] at hruntime
  have hcoherent := hcoheres id data hdata huid hruntime
  have hbound := bound_filter hroot hstore data.ctx
  rw [hnotified.bound_eq, hsame.ctx]
  refine ⟨fun hepoch _ => hchecks.complete hcoherent.complete hepoch,
    fun other hother record hrecord => ?_, ?_⟩
  · by_cases hscope : app.isolateLookup data.ctx other = some label
    · obtain rfl : other = name :=
        (isolateLookup_owner hscoped.root (hscoped.fibers id data hdata) hscope).symm.trans howner
      have hregistered := hregistry.mem_registered hdata huid hruntime
      obtain ⟨checked, hchecked, hfresh⟩ := service_fresh host hdisposal hstep hregistered hdata
        (hsame.inject ▸ hother) (hscope.trans hlabel.symm)
      obtain rfl := mem_unique hdata' hchecked
      rw [hnotified.bound_eq] at hfresh
      exact hfresh.live hrecord
    · refine hchecks.live (fun live hlive => ?_) hrecord
      rw [hbound, if_neg hscope]
      exact hcoherent.live other (hsame.inject ▸ hother) live hlive
  · refine hchecks.phase (hcoherent.phase.imp (fun hkept other hother record hrecord => ?_) rfl rfl)
    rw [hbound] at hrecord
    split at hrecord
    · cases hrecord
    · exact hkept other hother record hrecord

/-! ## Runs -/

structure Activating (owner : Label → String) (app : App) : Prop where
  registry : Registry app
  scopes : Scoped owner app
  coheres : app.Coheres

theorem Activating.new (owner : Label → String) : Activating owner App.new := by
  refine ⟨.new, .new owner, fun id data hdata _ hruntime => ?_⟩
  obtain ⟨-, rfl⟩ : id = 0 ∧ _ = data := by
    simpa [App.new, getElem?_singleton] using hdata
  exact absurd rfl hruntime

theorem Activating.step {owner : Label → String} {host : Host} {app app' : App} {action : Action}
    (hactivating : Activating owner app) (hundisturbed : Undisturbed owner app action)
    (hstep : step host app action = some app') : Activating owner app' := by
  obtain ⟨hregistry, hscoped, hcoheres⟩ := hactivating
  refine ⟨hregistry.step hstep, hscoped.step hregistry hundisturbed.respects hstep, ?_⟩
  by_cases hservice : ∃ ctx label name, RemovesService app action ctx label name
  · obtain ⟨ctx, label, name, effect, left, rfl, hdisposal⟩ := hservice
    exact hcoheres.removeService hregistry hscoped hdisposal hstep
  · obtain ⟨app₁, hchange, hnotified⟩ := step_change host hregistry.rested hstep
    refine (hcoheres.change hregistry hscoped hundisturbed hchange ?_).notified hnotified
    exact fun ctx label name hremoves => hservice ⟨ctx, label, name, hremoves⟩

/-- The successful body of an active fiber, and the records it ran with. -/
structure FiberData.Sound (bound : String → Option ImplRecord) (data : FiberData) : Prop where
  applied : data.applied = 1
  idle : data.inertia ≠ some .applying
  loaded : ∀ name ∈ data.inject, ∃ record,
    data.loaded name = some record ∧ bound name = some record

/-- Every settled active plugin fiber is sound. -/
def App.ActivatesSoundly (app : App) : Prop :=
  ∀ (id : FiberId) data, app.fibers[id]? = some data → data.runtime ≠ none →
    data.inertia = none → data.state = .active → data.Sound (app.bound data.ctx)

theorem Activating.sound {app : App} (hactivating : Activating owner app) :
    app.ActivatesSoundly := by
  intro id data hdata hruntime hinertia hstate
  obtain ⟨huid, hepoch⟩ :=
    (hactivating.registry.regular id data hdata).rested hinertia hstate
  have hcoherent := hactivating.coheres id data hdata huid hruntime
  have hphase := hcoherent.phase
  rw [hinertia] at hphase
  obtain ⟨happlied, hkept⟩ : data.applied = 1 ∧ data.Kept (app.bound data.ctx) :=
    (if_neg hepoch).mp hphase
  refine ⟨happlied, by simp [hinertia], fun name hname => ?_⟩
  obtain ⟨record, hrecord⟩ := ne_none_iff_exists'.mp (hcoherent.complete hepoch name hname)
  have hbound := hcoherent.live name hname record hrecord
  exact ⟨record, hkept name hname record hbound, hbound⟩

/-- In a run whose loads are not disturbed, a plugin fiber is active only after one
successful body with the services that are bound to it. -/
theorem undisturbed_activates_soundly (owner : Label → String) (host : Host) (trace : List Action)
    (app : App) (hguarded : Trace.Guarded (step host) (Undisturbed owner) App.new trace)
    (hrun : Trace.run (step host) App.new trace = some app) : app.ActivatesSoundly :=
  (Trace.guarded_invariant (fun _ _ _ => Activating.step) (.new owner) hguarded hrun).sound

/-- A dependent of a root service loads. -/
def dependentRun : List Action := [
  .provide rootContext "foo" false, .plugin rootContext 0 ["foo"], .poll 1, .checkpoint 1,
  .apply 1, .applied 1 true]

theorem dependent_activates_soundly : ∃ app data,
    Trace.run (step Host.plain) App.new dependentRun = some app ∧ app.fibers[1]? = some data ∧
      data.state = .active ∧ data.Sound (app.bound data.ctx) := by
  have hview : ((Trace.run (step Host.plain) App.new dependentRun).bind fun app =>
      app.fibers[1]?.map fun data => (data.runtime, data.inertia, data.state)) =
        some (some 0, none, .active) := by decide +kernel
  obtain ⟨app, hrun, hview⟩ := bind_eq_some_iff.mp hview
  obtain ⟨data, hdata, hview⟩ := map_eq_some_iff.mp hview
  simp only [Prod.mk.injEq] at hview
  obtain ⟨hruntime, hinertia, hstate⟩ := hview
  have hguarded : Trace.Guarded (step Host.plain) (Undisturbed fun _ => "foo") App.new
      dependentRun := by decide +kernel
  exact ⟨app, data, hrun, hdata, hstate,
    undisturbed_activates_soundly _ _ _ app hguarded hrun 1 data hdata (by simp [hruntime])
      hinertia hstate⟩

/-- A service goes while its dependent is loading, and another plugin provides it again
before the load resumes. -/
def swappedServiceRun : List Action := [
  .plugin rootContext 0 [], .poll 1, .checkpoint 1, .apply 1, .applied 1 true,
  .provide rootContext "foo" false, .plugin rootContext 1 ["foo"], .poll 2,
  .disposeEffect 1, .runDisposer 1, .provide ⟨1, []⟩ "foo" false, .checkpoint 2]

theorem swapped_service_skips_body : ¬ ∀ (host : Host) (trace : List Action) (app : App),
    Trace.run (step host) App.new trace = some app → app.ActivatesSoundly := by
  intro hsound
  have hview : ((Trace.run (step Host.plain) App.new swappedServiceRun).bind fun app =>
      app.fibers[2]?.map fun data => (data.runtime, data.inertia, data.state, data.applied)) =
        some (some 1, none, .active, 0) := by decide +kernel
  obtain ⟨app, hrun, hview⟩ := bind_eq_some_iff.mp hview
  obtain ⟨data, hdata, hview⟩ := map_eq_some_iff.mp hview
  simp only [Prod.mk.injEq] at hview
  obtain ⟨hruntime, hinertia, hstate, happlied⟩ := hview
  have hone := (hsound _ _ app hrun 2 data hdata (by simp [hruntime]) hinertia hstate).applied
  rw [happlied] at hone
  cases hone

end Cordis

end Keel
