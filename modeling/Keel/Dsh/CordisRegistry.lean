import Keel.Dsh.CordisSteps

/-! # Fibers and runtimes in every run

A fiber is registered with its runtime until its disposal begins, and a disposed fiber
never activates again. A fiber is active only between its tasks.
-/

namespace Keel

open List Option

namespace Cordis

/-! ## Runtimes -/

/-- A fiber is in a runtime record of a plugin. -/
def Registers (runtimes : List (PluginKey × List FiberId)) (key : PluginKey) (id : FiberId) :
    Prop :=
  ∃ ids, (key, ids) ∈ runtimes ∧ id ∈ ids

variable {id : FiberId} {runtimes : List (PluginKey × List FiberId)} {key : PluginKey}

theorem mem_registered {app : App} :
    id ∈ app.registered ↔ ∃ key, Registers app.runtimes key id := by
  simp [App.registered, Registers]

theorem Registers.lookup (hregisters : Registers runtimes key id) : runtimes.lookup key ≠ none := by
  obtain ⟨ids, hmem, -⟩ := hregisters
  intro hnone
  exact absurd rfl (lookup_eq_none_iff.mp hnone _ hmem |> bne_iff_ne.mp)

theorem registers_addRuntime {other : PluginKey} {fiber : FiberId} :
    Registers (addRuntime runtimes key id) other fiber ↔
      Registers runtimes other fiber ∨ other = key ∧ fiber = id := by
  unfold addRuntime
  split
  next hany =>
    obtain ⟨⟨found, ids⟩, hfound, hkey⟩ := any_eq_true.mp hany
    obtain rfl : found = key := by simpa using hkey
    simp only [Registers, List.mem_map]
    grind
  · simp only [Registers, mem_append, mem_singleton, Prod.mk.injEq]
    grind

theorem registers_removeRuntime {other : PluginKey} {fiber : FiberId} :
    Registers (removeRuntime runtimes key id) other fiber ↔
      Registers runtimes other fiber ∧ ¬ (other = key ∧ fiber = id) := by
  simp only [Registers, removeRuntime, mem_filter, List.mem_map, ne_eq]
  constructor
  · grind
  · rintro ⟨⟨ids, hmem, hfiber⟩, hother⟩
    by_cases hkey : other = key
    · refine ⟨ids.filter fun fiber => fiber ≠ id, ⟨⟨(other, ids), hmem, by simp [hkey]⟩, ?_⟩, ?_⟩
      · simpa [hkey] using ⟨fiber, hfiber, fun hid => hother ⟨hkey, hid⟩⟩
      · grind
    · exact ⟨ids, ⟨⟨(other, ids), hmem, by simp [hkey]⟩, by simp [hkey]⟩, hfiber⟩

/-! ## The lifecycle of one fiber -/

/-- The possible combinations of the lifecycle fields of a fiber. -/
structure FiberData.Regular (data : FiberData) : Prop where
  disposed : data.uid = none → data.epoch = .inactive
  rested : data.inertia = none → data.state = .active → data.uid ≠ none ∧ data.epoch ≠ .inactive
  busy : ∀ task, data.inertia = some task → data.state ≠ .active
  spawnedUnload : data.inertia = some .spawnedUnload → data.state = .unloading
  unloading : ∀ handles, data.inertia = some (.unloading handles) →
    data.state = .unloading ∧ data.disposables = []

section Moves

attribute [local simp] FiberData.withState FiberData.withTask FiberData.beginLoad
  FiberData.beginUnload FiberData.settle FiberData.fail Cordis.newFiber

namespace FiberData

theorem withEpoch_cases (data : FiberData) (epoch : Epoch) :
    (data.epoch = epoch ∧ data.withEpoch epoch = data) ∨
    ((∃ task, data.inertia = some task) ∧ data.withEpoch epoch = { data with epoch }) ∨
    (data.inertia = none ∧ data.epoch = .inactive ∧ epoch ≠ .inactive ∧ data.withEpoch epoch =
      { data with epoch, inertia := some .spawnedLoad, state := .loading }) ∨
    (data.inertia = none ∧ data.epoch ≠ .inactive ∧ data.withEpoch epoch =
      { data with epoch, inertia := some .spawnedUnload, state := .unloading }) := by
  unfold withEpoch
  split
  next heq => exact .inl ⟨heq, rfl⟩
  next hne =>
    split
    next hsome => exact .inr (.inl ⟨isSome_iff_exists.mp hsome, rfl⟩)
    next hnone =>
      rw [not_isSome_iff_eq_none] at hnone
      split
      next hload => exact .inr (.inr (.inl ⟨hnone, hload.2, hload.1, rfl⟩))
      next hunload =>
        refine .inr (.inr (.inr ⟨hnone, fun hinactive => hunload ⟨?_, hinactive⟩, rfl⟩))
        rw [← hinactive]
        exact Ne.symm hne

variable {data : FiberData}

theorem Regular.withEpoch (hregular : data.Regular) {epoch : Epoch}
    (hepoch : data.uid = none → epoch = .inactive) : (data.withEpoch epoch).Regular := by
  rcases withEpoch_cases data epoch with ⟨-, heq⟩ | ⟨⟨task, htask⟩, heq⟩ | ⟨-, -, -, heq⟩ |
    ⟨-, -, heq⟩
  · rwa [heq]
  · rw [heq]
    exact ⟨hepoch, by simp [htask], hregular.busy, hregular.spawnedUnload, hregular.unloading⟩
  · rw [heq]
    exact ⟨hepoch, by simp, by simp, by simp, by simp⟩
  · rw [heq]
    exact ⟨hepoch, by simp, by simp, by simp, by simp⟩

theorem Regular.rechecks {bound : String → Option ImplRecord} {uid : FiberId → Nat}
    {data' : FiberData} (hregular : data.Regular) (huid : data.uid ≠ none)
    (hchecks : Rechecks bound uid data data') : data'.Regular := by
  induction hchecks with
  | refl => exact hregular
  | tail hchecks hcheck ih =>
    obtain ⟨live, -⟩ := hcheck
    have hlive : (FiberData.withLive live _).Regular :=
      ⟨ih.disposed, ih.rested, ih.busy, ih.spawnedUnload, ih.unloading⟩
    exact hlive.withEpoch fun hnone => absurd ((Rechecks.sameFiber hchecks).uid.symm.trans hnone) huid

theorem Regular.settle (hregular : data.Regular) : data.settle.Regular := by
  refine ⟨hregular.disposed, fun _ hactive => ?_, by simp, by simp, by simp⟩
  change settledState data = .active at hactive
  unfold settledState at hactive
  split at hactive
  · cases hactive
  next huid =>
    split at hactive
    · cases hactive
    · split at hactive
      next hepoch => exact ⟨fun hnone => huid (isNone_iff_eq_none.mpr hnone), hepoch⟩
      · cases hactive

theorem Regular.beginUnload (hregular : data.Regular)
    (hstate : data.state = .unloading) : data.beginUnload.Regular :=
  ⟨hregular.disposed, by simp, by simp [hstate], by simp, by simp [hstate]⟩

theorem Regular.endLoad (hregular : data.Regular)
    (hinertia : ∃ task, data.inertia = some task ∧ task ≠ .spawnedUnload ∧
      ∀ handles, task ≠ .unloading handles) : data.endLoad.Regular := by
  unfold FiberData.endLoad
  split
  next hepoch =>
    obtain ⟨task, htask, hspawned, hunloading⟩ := hinertia
    refine Regular.beginUnload ⟨fun _ => hepoch, ?_, ?_, ?_, ?_⟩ rfl
    all_goals simp_all [FiberData.withState]
  · exact hregular.settle

theorem Regular.retire (hregular : data.Regular) : data.retire.Regular := by
  have hgone : (({ data with uid := none } : FiberData).withEpoch .inactive).Regular := by
    rcases withEpoch_cases { data with uid := none } .inactive with ⟨hepoch, heq⟩ |
      ⟨⟨task, htask⟩, heq⟩ | ⟨-, -, hne, -⟩ | ⟨-, -, heq⟩
    · rw [heq]
      refine ⟨fun _ => hepoch, fun hinertia hactive => ?_, hregular.busy, hregular.spawnedUnload,
        hregular.unloading⟩
      exact absurd hepoch (hregular.rested hinertia hactive).2
    · rw [heq]
      refine ⟨fun _ => rfl, fun hinertia => ?_, hregular.busy, hregular.spawnedUnload,
        hregular.unloading⟩
      exact absurd (hinertia.symm.trans htask) (by simp)
    · exact absurd rfl hne
    · rw [heq]
      exact ⟨fun _ => rfl, by simp, by simp, by simp, by simp⟩
  unfold FiberData.retire
  dsimp only
  split
  · exact ⟨hgone.disposed, by simp, by simp, by simp, by simp⟩
  · exact hgone

theorem Regular.newFiber (id : FiberId) (ctx : Context) (key : PluginKey) (inject : List String) :
    (newFiber id ctx key inject).Regular :=
  ⟨fun _ => rfl, by simp, by simp, by simp, by simp⟩

end FiberData

theorem Move.regular {app : App} {data data' : FiberData} {action : Action}
    (hmove : Move app id data action data') (hregular : data.Regular) : data'.Regular := by
  have hclear : data.clearError.Regular :=
    ⟨hregular.disposed, hregular.rested, hregular.busy, hregular.spawnedUnload, hregular.unloading⟩
  cases hmove with
  | restart => exact hregular.withEpoch fun _ => rfl
  | update | applyUpdate => exact hclear.withEpoch fun _ => rfl
  | applyUpdateDisposed => exact hclear
  | disposed _ hinertia =>
    refine ⟨hregular.disposed, by simp, ?_, ?_, ?_⟩
    all_goals simp [hinertia]
  | pollLoad hinertia =>
    refine ⟨hregular.disposed, by simp, fun _ _ => ?_, ?_, ?_⟩
    · exact hregular.busy _ hinertia
    all_goals simp
  | pollUnload hinertia => exact hregular.beginUnload (hregular.spawnedUnload hinertia)
  | resolve hinertia =>
    refine ⟨hregular.disposed, by simp, fun _ _ => ?_, ?_, ?_⟩
    · exact hregular.busy _ hinertia
    all_goals simp
  | skip hinertia => exact hregular.endLoad ⟨_, hinertia, by simp, by simp⟩
  | apply hinertia =>
    refine ⟨hregular.disposed, by simp, fun _ _ => ?_, ?_, ?_⟩
    · exact hregular.busy _ hinertia
    all_goals simp
  | failConfig hinertia =>
    have hfail : data.fail.Regular := ⟨fun _ => rfl, by simp [hinertia],
      hregular.busy, hregular.spawnedUnload, hregular.unloading⟩
    exact hfail.endLoad ⟨_, hinertia, by simp, by simp⟩
  | succeed hinertia =>
    have hsucceed : data.succeed.Regular := ⟨hregular.disposed, hregular.rested,
      hregular.busy, hregular.spawnedUnload, hregular.unloading⟩
    exact hsucceed.endLoad ⟨_, hinertia, by simp, by simp⟩
  | fail hinertia =>
    have hfail : data.fail.Regular := ⟨fun _ => rfl, by simp [hinertia],
      hregular.busy, hregular.spawnedUnload, hregular.unloading⟩
    exact hfail.endLoad ⟨_, hinertia, by simp, by simp⟩
  | nextHandle hinertia =>
    obtain ⟨hstate, hdisposables⟩ := hregular.unloading _ hinertia
    refine ⟨hregular.disposed, by simp, ?_, ?_, ?_⟩
    all_goals simp [hstate, hdisposables]
  | settle =>
    have hdrop : data.dropSnapshot.Regular := ⟨hregular.disposed, hregular.rested,
      hregular.busy, hregular.spawnedUnload, hregular.unloading⟩
    exact hdrop.settle
  | reload =>
    exact ⟨hregular.disposed, by simp, by simp, by simp, by simp⟩

end Moves

/-! ## Registrations -/

theorem acceptsEffects_insertRecord {app : App} {label : Label} {record : ImplRecord} :
    acceptsEffects (app.insertRecord label record) id ↔ acceptsEffects app id := by
  simp only [acceptsEffects_iff, App.insertRecord, App.modifyFiber, App.putRecord,
    getElem?_modify]
  by_cases hid : record.fiber = id
  · simp [hid, insertOwn]
  · simp [hid]

theorem acceptsEffects_publish {app : App} {ctx : Context} {inject : List String}
    (haccepts : acceptsEffects app id) : acceptsEffects (app.publish ctx key inject) id := by
  obtain ⟨data, hdata, haccepted⟩ := acceptsEffects_iff.1 haccepts
  obtain ⟨hlt, -⟩ := List.getElem?_eq_some_iff.mp hdata
  exact acceptsEffects_iff.2 ⟨data, (List.getElem?_append_left hlt).trans hdata, haccepted⟩

/-! ## Every run -/

/-- The fibers of the runtimes are the plugin fibers not yet disposed. -/
structure Registry (app : App) : Prop where
  regular : ∀ (id : FiberId) data, app.fibers[id]? = some data → data.Regular
  registered : ∀ key id, Registers app.runtimes key id ↔
    ∃ data, app.fibers[id]? = some data ∧ data.uid ≠ none ∧ data.runtime = some key
  disposing : ∀ id ∈ app.disposing, ∃ data, app.fibers[id]? = some data ∧ data.uid = none

namespace Registry

variable {app app' : App}

theorem new : Registry App.new := by
  have hroot : ∀ (id : FiberId) data, App.new.fibers[id]? = some data →
      data.uid = some 0 ∧ data.runtime = none ∧ data.Regular := by
    intro id data hdata
    obtain ⟨-, rfl⟩ : id = 0 ∧ _ = data := by
      simpa [App.new, getElem?_singleton] using hdata
    exact ⟨rfl, rfl, by simp, by simp, by simp, by simp, by simp⟩
  refine ⟨fun id data hdata => (hroot id data hdata).2.2, fun key id => ?_, ?_⟩
  · simp only [Registers, App.new, not_mem_nil, false_and, exists_false, false_iff]
    rintro ⟨data, hdata, -, hruntime⟩
    rw [(hroot id data hdata).2.1] at hruntime
    cases hruntime
  · exact fun _ hid => absurd hid not_mem_nil

theorem congr (hregistry : Registry app) (hfibers : app'.fibers = app.fibers)
    (hruntimes : app'.runtimes = app.runtimes) (hdisposing : app'.disposing ⊆ app.disposing) :
    Registry app' := by
  refine ⟨?_, ?_, ?_⟩
  · rw [hfibers]
    exact hregistry.regular
  · rw [hfibers, hruntimes]
    exact hregistry.registered
  · rw [hfibers]
    exact fun id hid => hregistry.disposing id (hdisposing hid)

theorem rested (hregistry : Registry app) : app.Rested := by
  intro id data hdata hactive
  by_contra hinertia
  obtain ⟨task, htask⟩ := ne_none_iff_exists'.mp hinertia
  exact (hregistry.regular id data hdata).busy task htask hactive

variable {id : FiberId} {data : FiberData}

section
variable (hregistry : Registry app)
include hregistry

theorem uid_ne_none (hdata : app.fibers[id]? = some data) (hregistered : id ∈ app.registered) :
    data.uid ≠ none := by
  obtain ⟨key, hregisters⟩ := mem_registered.1 hregistered
  obtain ⟨found, hfound, huid, -⟩ := (hregistry.registered key id).mp hregisters
  obtain rfl := mem_unique hdata hfound
  exact huid

theorem mem_registered (hdata : app.fibers[id]? = some data) (huid : data.uid ≠ none)
    (hruntime : data.runtime ≠ none) : id ∈ app.registered := by
  obtain ⟨key, hkey⟩ := ne_none_iff_exists'.mp hruntime
  exact Cordis.mem_registered.2 ⟨key, (hregistry.registered key id).mpr ⟨data, hdata, huid, hkey⟩⟩

theorem setFiber {data' : FiberData} (hdata : app.fibers[id]? = some data)
    (hregular : data'.Regular) (huid : data'.uid = data.uid)
    (hruntime : data'.runtime = data.runtime) : Registry (app.setFiber id data') := by
  refine ⟨fun other found hfound => ?_, fun key other => ?_, fun other hother => ?_⟩
  · by_cases hid : id = other
    · subst hid
      rw [App.getElem?_setFiber_self hdata, some.injEq] at hfound
      exact hfound ▸ hregular
    · rw [App.getElem?_setFiber_of_ne hid] at hfound
      exact hregistry.regular other found hfound
  · refine (hregistry.registered key other).trans ?_
    by_cases hid : id = other
    · subst hid
      rw [App.getElem?_setFiber_self hdata, hdata]
      simp [huid, hruntime]
    · rw [App.getElem?_setFiber_of_ne hid]
  · obtain ⟨found, hfound, hnone⟩ := hregistry.disposing other hother
    by_cases hid : id = other
    · subst hid
      obtain rfl := mem_unique hdata hfound
      exact ⟨data', App.getElem?_setFiber_self hdata data', huid.trans hnone⟩
    · exact ⟨found, (App.getElem?_setFiber_of_ne hid data').trans hfound, hnone⟩

theorem modifyFiber {change : FiberData → FiberData}
    (hchange : ∀ data, app.fibers[id]? = some data → data.Regular → (change data).Regular ∧
      (change data).uid = data.uid ∧ (change data).runtime = data.runtime) :
    Registry (app.modifyFiber id change) := by
  cases hdata : app.fibers[id]? with
  | none =>
    rw [App.modifyFiber_of_none hdata]
    exact hregistry
  | some data =>
    rw [App.modifyFiber_eq_setFiber hdata]
    obtain ⟨hregular, huid, hruntime⟩ := hchange data hdata (hregistry.regular id data hdata)
    exact hregistry.setFiber hdata hregular huid hruntime

theorem registerEffect {id : FiberId} (haccepts : acceptsEffects app id) (disposers : List Disposer) :
    Registry (registerEffect app id disposers) := by
  obtain ⟨data, hdata, -, hstate⟩ := acceptsEffects_iff.1 haccepts
  rw [registerEffect_eq hdata]
  have hregular := hregistry.regular id data hdata
  have hbase : Registry { app with effects :=
    app.effects ++ [EffectState.mk id disposers .idle none] } :=
    hregistry.congr rfl rfl (List.Subset.refl _)
  refine hbase.setFiber hdata ⟨hregular.disposed, hregular.rested, hregular.busy,
    hregular.spawnedUnload, fun handles hinertia => ?_⟩ rfl rfl
  exact absurd (hregular.unloading handles hinertia).1 hstate

theorem publish (ctx : Context) (key : PluginKey) (inject : List String) :
    Registry (app.publish ctx key inject) := by
  have hfibers : ∀ (id : FiberId) data, (app.publish ctx key inject).fibers[id]? = some data ↔
      app.fibers[id]? = some data ∨
        id = app.fibers.length ∧ data = newFiber app.fibers.length ctx key inject := by
    intro id data
    simp only [App.publish, getElem?_append]
    split
    next hlt => exact ⟨.inl, fun h => h.resolve_right fun hid => absurd hid.1 (Nat.ne_of_lt hlt)⟩
    next hge =>
      rw [getElem?_eq_none_iff.mpr (Nat.le_of_not_lt hge), getElem?_singleton]
      simp only [Nat.not_lt] at hge
      grind
  refine ⟨fun id data hdata => ?_, fun other id => ?_, fun id hid => ?_⟩
  · rcases (hfibers id data).mp hdata with hold | ⟨-, rfl⟩
    · exact hregistry.regular id data hold
    · exact .newFiber _ ctx key inject
  · refine registers_addRuntime.trans ?_
    rw [hregistry.registered other id]
    constructor
    · rintro (⟨data, hdata, huid, hruntime⟩ | ⟨rfl, rfl⟩)
      · exact ⟨data, (hfibers id data).mpr (.inl hdata), huid, hruntime⟩
      · exact ⟨_, (hfibers _ _).mpr (.inr ⟨rfl, rfl⟩), by simp [newFiber], rfl⟩
    · rintro ⟨data, hdata, huid, hruntime⟩
      rcases (hfibers id data).mp hdata with hold | ⟨rfl, rfl⟩
      · exact .inl ⟨data, hold, huid, hruntime⟩
      · exact .inr ⟨(Option.some.inj hruntime).symm, rfl⟩
  · obtain ⟨data, hdata, huid⟩ := hregistry.disposing id hid
    exact ⟨data, (hfibers id data).mpr (.inl hdata), huid⟩

theorem retire (hdata : app.fibers[id]? = some data) : Registry (app.retire id data) := by
  have hretired : data.retire.uid = none := data.sameSetup_retire.uid
  have hself : (app.retire id data).fibers[id]? = some data.retire :=
    App.getElem?_setFiber_self hdata _
  have hother : ∀ other, id ≠ other → (app.retire id data).fibers[other]? = app.fibers[other]? :=
    fun other hid => App.getElem?_setFiber_of_ne hid _
  refine ⟨fun other found hfound => ?_, fun key other => ?_, fun other hmem => ?_⟩
  · by_cases hid : id = other
    · subst hid
      rw [hself, some.injEq] at hfound
      exact hfound ▸ (hregistry.regular id data hdata).retire
    · exact hregistry.regular other found (hother other hid ▸ hfound)
  · have hruntimes : Registers (app.retire id data).runtimes key other ↔
        Registers app.runtimes key other ∧ ¬ (data.runtime = some key ∧ other = id) := by
      cases hruntime : data.runtime with
      | none => simp [App.retire, App.leaveRuntime, App.setFiber, hruntime]
      | some own =>
        simp only [App.retire, App.leaveRuntime, App.setFiber, hruntime,
          registers_removeRuntime, some.injEq]
        rw [eq_comm (a := own)]
    rw [hruntimes, hregistry.registered key other]
    by_cases hid : id = other
    · subst hid
      rw [hself, hdata]
      simp only [some.injEq, and_true, exists_eq_left', hretired, ne_eq, not_true_eq_false,
        false_and, iff_false]
      exact fun h => h.2 h.1.2
    · rw [hother other hid]
      simp [Ne.symm hid]
  · obtain ⟨found, hfound, hnone⟩ := hregistry.disposing other hmem
    by_cases hid : id = other
    · subst hid
      exact ⟨_, hself, hretired⟩
    · exact ⟨found, (hother other hid).trans hfound, hnone⟩

theorem notified (hnotified : Notified app app') : Registry app' := by
  have hruntimes : app'.runtimes = app.runtimes := by
    rw [hnotified.rest]
  have hdisposing : app'.disposing = app.disposing := by
    rw [hnotified.rest]
  refine ⟨fun id data' hdata' => ?_, fun key id => ?_, fun id hid => ?_⟩
  · obtain ⟨data, hdata, hchecks, hout⟩ := hnotified.fibers_of_after hdata'
    have hregular := hregistry.regular id data hdata
    by_cases huid : data.uid = none
    · have hunregistered : id ∉ app.registered := fun hregistered =>
        hregistry.uid_ne_none hdata hregistered huid
      rw [hout huid hunregistered]
      exact hregular
    · exact hregular.rechecks huid hchecks
  · rw [hruntimes, hregistry.registered key id]
    constructor
    · rintro ⟨data, hdata, huid, hruntime⟩
      obtain ⟨data', hdata', hchecks, -⟩ := hnotified.fibers id data hdata
      have hsame := hchecks.sameFiber
      exact ⟨data', hdata', hsame.uid ▸ huid, hsame.runtime.trans hruntime⟩
    · rintro ⟨data', hdata', huid, hruntime⟩
      obtain ⟨data, hdata, hchecks, -⟩ := hnotified.fibers_of_after hdata'
      have hsame := hchecks.sameFiber
      exact ⟨data, hdata, hsame.uid ▸ huid, hsame.runtime.symm.trans hruntime⟩
  · obtain ⟨data, hdata, huid⟩ := hregistry.disposing id (hdisposing ▸ hid)
    obtain ⟨data', hdata', hchecks, -⟩ := hnotified.fibers id data hdata
    exact ⟨data', hdata', hchecks.sameFiber.uid.trans huid⟩

theorem ensureLabel (name : String) : Registry (ensureLabel app name) := by
  unfold Cordis.ensureLabel
  split
  · exact hregistry
  · exact hregistry.congr rfl rfl (List.Subset.refl _)

theorem insertRecord (label : Label) (record : ImplRecord) :
    Registry (app.insertRecord label record) := by
  have hbase : Registry (app.putRecord label record) :=
    hregistry.congr rfl rfl (List.Subset.refl _)
  exact hbase.modifyFiber fun _ _ hregular =>
    ⟨⟨hregular.disposed, hregular.rested, hregular.busy, hregular.spawnedUnload,
      hregular.unloading⟩, rfl, rfl⟩

theorem change {action : Action} (hchange : Change app action app') : Registry app' := by
  cases hchange with
  | refused _ _ _ hdisposing => exact hregistry.congr rfl rfl hdisposing
  | isolate => exact hregistry.congr rfl rfl (List.Subset.refl _)
  | effect ctx tags haccepts => exact hregistry.registerEffect haccepts _
  | on ctx haccepts =>
    have hbase : Registry { app with
        hookCounter := app.hookCounter + 1
        hooks := app.hooks ++ [Hook.mk (app.hookCounter + 1) ctx.fiber] } :=
      hregistry.congr rfl rfl (List.Subset.refl _)
    exact hbase.registerEffect haccepts _
  | provideRefused ctx name => exact hregistry.ensureLabel name
  | provide ctx name checked haccepts =>
    have haccepts : acceptsEffects (Cordis.ensureLabel app name) ctx.fiber := by
      rwa [acceptsEffects, ensureLabel_fibers]
    exact ((hregistry.ensureLabel name).insertRecord _ _).registerEffect
      (acceptsEffects_insertRecord.2 haccepts) _
  | plugin ctx key inject haccepts =>
    exact (hregistry.publish ctx key inject).registerEffect (acceptsEffects_publish haccepts) _
  | orphan ctx key inject => exact hregistry.publish ctx key inject
  | move updates disposing hdisposing hdata hmove =>
    have hbase : Registry { app with updates, disposing } := hregistry.congr rfl rfl hdisposing
    have hregular := hregistry.regular _ _ hdata
    exact hbase.setFiber hdata (hmove.regular hregular) hmove.sameSetup.uid hmove.sameSetup.runtime
  | @dispose id data hdata huid =>
    have hretired := hregistry.retire hdata
    refine ⟨hretired.regular, hretired.registered, fun other hother => ?_⟩
    rcases mem_cons.mp hother with rfl | hmem
    · exact ⟨_, App.getElem?_setFiber_self hdata _, data.sameSetup_retire.uid⟩
    · exact hretired.disposing other hmem
  | joinDispose hdata huid =>
    refine ⟨hregistry.regular, hregistry.registered, fun other hother => ?_⟩
    rcases mem_cons.mp hother with rfl | hmem
    · exact ⟨_, hdata, huid⟩
    · exact hregistry.disposing other hmem
  | disposeEffect | beginHandle | user | hook | service =>
    exact hregistry.congr rfl rfl (List.Subset.refl _)
  | child _ hdata => exact (hregistry.retire hdata).congr rfl rfl (List.Subset.refl _)
  | joinChild | wake => exact hregistry.congr rfl rfl (List.Subset.refl _)
  | @removed _ _ provider name =>
    have hbase : Registry (app.modifyFiber provider (removeOwn name)) :=
      hregistry.modifyFiber fun _ _ hregular =>
        ⟨⟨hregular.disposed, hregular.rested, hregular.busy, hregular.spawnedUnload,
          hregular.unloading⟩, rfl, rfl⟩
    exact hbase.congr rfl rfl (List.Subset.refl _)
  | @childDisposed _ _ child _ hinertia =>
    have hbase : Registry (app.modifyFiber child (FiberData.withState .disposed)) := by
      refine hregistry.modifyFiber fun data hdata hregular => ?_
      rw [App.inertia, hdata] at hinertia
      have hnone : data.inertia = none := hinertia
      refine ⟨⟨hregular.disposed, ?_, ?_, ?_, ?_⟩, rfl, rfl⟩
      all_goals simp [FiberData.withState, hnone]
    exact hbase.congr rfl rfl (List.Subset.refl _)
  | userDisposed => exact hregistry.congr rfl rfl (List.Subset.refl _)

end

theorem step (hregistry : Registry app) {host : Host} {action : Action}
    (hstep : step host app action = some app') : Registry app' := by
  obtain ⟨app₁, hchange, hnotified⟩ := step_change host hregistry.rested hstep
  exact (hregistry.change hchange).notified hnotified

end Registry

/-- In whatever order the tasks run, the runtimes keep to the plugin fibers not yet disposed. -/
theorem registry_always (host : Host) (actions : List Action) :
    Trace.Always (step host) Registry App.new actions :=
  Trace.always_of_invariant (fun _ hregistry => hregistry)
    (fun _ _ _ hregistry => hregistry.step) .new

end Cordis

end Keel
