import Mathlib.Logic.Relation
import Keel.Dsh.Cordis

/-! # Notifications

A notification checks one fiber after another, and a fiber that stops being active
notifies in turn. Whatever it sets off, all that happens to a fiber is a sequence of
dependency checks against the bindings of that moment. The other fields of the app stay,
and so do the bindings, since only fibers change.
-/

namespace Keel

open List Option

namespace Cordis

namespace App

/-! ## Fibers of an app -/

def setFiber (app : App) (id : FiberId) (data : FiberData) : App :=
  { app with fibers := app.fibers.set id data }

variable {id : FiberId} {data : FiberData}

theorem modifyFiber_eq_setFiber {app : App}
    (hdata : app.fibers[id]? = some data) (change : FiberData → FiberData) :
    app.modifyFiber id change = app.setFiber id (change data) := by
  simp only [modifyFiber, setFiber, App.mk.injEq, and_true]
  ext1 other
  rw [List.getElem?_modify, List.getElem?_set]
  by_cases hid : id = other
  · subst hid
    obtain ⟨hlt, rfl⟩ := List.getElem?_eq_some_iff.mp hdata
    simp [hlt]
  · simp [hid]

theorem modifyFiber_of_none {app : App} (hnone : app.fibers[id]? = none)
    (change : FiberData → FiberData) : app.modifyFiber id change = app := by
  simp only [modifyFiber, modify_eq_self (getElem?_eq_none_iff.mp hnone)]

@[simp] theorem setFiber_setFiber (app : App) (id : FiberId) (first second : FiberData) :
    (app.setFiber id first).setFiber id second = app.setFiber id second := by
  simp [setFiber]

theorem getElem?_setFiber_self {app : App} (hdata : app.fibers[id]? = some data)
    (changed : FiberData) : (app.setFiber id changed).fibers[id]? = some changed := by
  obtain ⟨hlt, -⟩ := List.getElem?_eq_some_iff.mp hdata
  simp [setFiber, hlt]

theorem getElem?_setFiber_of_ne {app : App} {other : FiberId} (hne : id ≠ other)
    (changed : FiberData) : (app.setFiber id changed).fibers[other]? = app.fibers[other]? := by
  simp [setFiber, hne]

@[simp] theorem length_setFiber (app : App) (id : FiberId) (data : FiberData) :
    (app.setFiber id data).fibers.length = app.fibers.length := by
  simp [setFiber]

@[simp] theorem bound_setFiber (app : App) (id : FiberId) (data : FiberData) :
    (app.setFiber id data).bound = app.bound := rfl

theorem setFiber_self {app : App}
    (hdata : app.fibers[id]? = some data) : app.setFiber id data = app := by
  obtain ⟨hlt, rfl⟩ := List.getElem?_eq_some_iff.mp hdata
  simp [setFiber]

/-- The uid of a provider as an epoch records it. -/
def uid (app : App) (id : FiberId) : Nat := (app.fibers[id]?.bind FiberData.uid).getD u64Max

theorem uid_setFiber {app : App} (hdata : app.fibers[id]? = some data) (changed : FiberData)
    (huid : changed.uid = data.uid) : (app.setFiber id changed).uid = app.uid := by
  funext other
  unfold uid
  by_cases hid : id = other
  · subst hid
    rw [getElem?_setFiber_self hdata, hdata]
    simp [huid]
  · rw [getElem?_setFiber_of_ne hid]

end App

/-! ## Dependency checks of one fiber -/

/-- The epoch of a live store, given the uids of the providers. -/
def epochOf (uid : FiberId → Nat) (inject : List String) (live : String → Option ImplRecord) :
    Epoch :=
  if inject.all fun name => (live name).isSome then
    .active <| inject.filterMap fun name => (live name).map fun record => uid record.fiber
  else .inactive

theorem epochOf_ne_inactive {uid : FiberId → Nat} {inject : List String}
    {live : String → Option ImplRecord} :
    epochOf uid inject live ≠ .inactive ↔ ∀ name ∈ inject, ∃ record, live name = some record := by
  unfold epochOf
  split
  next hall => simpa [isSome_iff_exists] using hall
  next hall => simpa [isSome_iff_exists] using hall

def FiberData.withLive (live : String → Option ImplRecord) (data : FiberData) : FiberData :=
  { data with liveStore := live }

/-- What applying an epoch does to the data of the fiber. -/
def FiberData.withEpoch (epoch : Epoch) (data : FiberData) : FiberData :=
  if data.epoch = epoch then data
  else if data.inertia.isSome then { data with epoch }
  else if epoch ≠ .inactive ∧ data.epoch = .inactive then
    { data with epoch, inertia := some .spawnedLoad, state := .loading }
  else { data with epoch, inertia := some .spawnedUnload, state := .unloading }

/-- A dependency check leaves the entry of a name, or replaces it by what is bound. A
service with an availability check can be refused. -/
def Checked (bound : String → Option ImplRecord) (data : FiberData)
    (live : String → Option ImplRecord) : Prop :=
  ∀ name, live name = data.liveStore name ∨
    name ∈ data.inject ∧ (live name = bound name ∨
      live name = none ∧ ∃ record, bound name = some record ∧ record.checked)

/-- Dependency checks of a fiber, and the epoch that follows from them. -/
inductive Recheck (bound : String → Option ImplRecord) (uid : FiberId → Nat) (data : FiberData) :
    FiberData → Prop where
  | intro (live : String → Option ImplRecord) (hlive : Checked bound data live) :
      Recheck bound uid data ((data.withLive live).withEpoch (epochOf uid data.inject live))

abbrev Rechecks (bound : String → Option ImplRecord) (uid : FiberId → Nat) :
    FiberData → FiberData → Prop :=
  Relation.ReflTransGen (Recheck bound uid)

/-- The fields an epoch does not touch. -/
structure SameFiber (data data' : FiberData) : Prop where
  uid : data'.uid = data.uid
  parent : data'.parent = data.parent
  ctx : data'.ctx = data.ctx
  inject : data'.inject = data.inject
  runtime : data'.runtime = data.runtime
  error : data'.error = data.error
  storeSnapshot : data'.storeSnapshot = data.storeSnapshot
  disposables : data'.disposables = data.disposables
  applied : data'.applied = data.applied
  unloads : data'.unloads = data.unloads

theorem SameFiber.refl (data : FiberData) : SameFiber data data := by
  constructor <;> rfl

theorem SameFiber.trans {first second third : FiberData} (hfirst : SameFiber first second)
    (hsecond : SameFiber second third) : SameFiber first third := by
  cases hfirst
  cases hsecond
  constructor <;> simp_all only

section
variable (data : FiberData) (epoch : Epoch)
include data epoch

theorem FiberData.sameFiber_withEpoch : SameFiber data (data.withEpoch epoch) := by
  unfold FiberData.withEpoch
  split
  · exact .refl data
  split
  · constructor <;> rfl
  split
  · constructor <;> rfl
  · constructor <;> rfl

@[simp] theorem FiberData.withEpoch_epoch : (data.withEpoch epoch).epoch = epoch := by
  unfold FiberData.withEpoch
  split
  next heq => exact heq
  split
  · rfl
  split
  · rfl
  · rfl

@[simp] theorem FiberData.withEpoch_liveStore :
    (data.withEpoch epoch).liveStore = data.liveStore := by
  unfold FiberData.withEpoch
  split
  · rfl
  split
  · rfl
  split
  · rfl
  · rfl

end

theorem FiberData.withEpoch_self (data : FiberData) : data.withEpoch data.epoch = data :=
  if_pos rfl

variable {data data' : FiberData} {bound : String → Option ImplRecord} {name : String}
  {id : FiberId}

theorem FiberData.withEpoch_of_inertia {task : Task} (hinertia : data.inertia = some task)
    (epoch : Epoch) : data.withEpoch epoch = { data with epoch } := by
  unfold FiberData.withEpoch
  split
  next heq => rw [← heq]
  · simp [hinertia]

theorem FiberData.withEpoch_inertia {epoch : Epoch}
    (hne : data.epoch ≠ epoch) : ∃ task, (data.withEpoch epoch).inertia = some task := by
  unfold FiberData.withEpoch
  rw [if_neg hne]
  split
  next hsome => exact isSome_iff_exists.mp hsome
  · split
    · exact ⟨_, rfl⟩
    · exact ⟨_, rfl⟩

theorem Recheck.sameFiber {uid : FiberId → Nat} (hcheck : Recheck bound uid data data') :
    SameFiber data data' := by
  obtain ⟨live, hlive⟩ := hcheck
  have hlive : SameFiber data (data.withLive live) := by constructor <;> rfl
  exact hlive.trans (FiberData.sameFiber_withEpoch _ _)

theorem Rechecks.sameFiber {uid : FiberId → Nat} (hchecks : Rechecks bound uid data data') :
    SameFiber data data' := by
  induction hchecks with
  | refl => exact .refl data
  | tail _ hcheck ih => exact ih.trans hcheck.sameFiber

theorem Rechecks.inertia {uid : FiberId → Nat} {task : Task} (hchecks : Rechecks bound uid data data')
    (hinertia : data.inertia = some task) : data'.inertia = some task := by
  induction hchecks with
  | refl => exact hinertia
  | tail _ hcheck ih =>
    obtain ⟨live, -⟩ := hcheck
    have hflight : (FiberData.withLive live _).inertia = some task := ih
    rw [FiberData.withEpoch_of_inertia hflight]
    exact ih

/-- The entry of a name is what is bound, unless its availability check refused it. -/
def Fresh (bound : String → Option ImplRecord) (live : String → Option ImplRecord)
    (name : String) : Prop :=
  live name = bound name ∨
    live name = none ∧ ∃ record, bound name = some record ∧ record.checked

theorem Rechecks.fresh {uid : FiberId → Nat} (hchecks : Rechecks bound uid data data')
    (hfresh : Fresh bound data.liveStore name) : Fresh bound data'.liveStore name := by
  induction hchecks with
  | refl => exact hfresh
  | tail _ hcheck ih =>
    obtain ⟨live, hlive⟩ := hcheck
    rw [FiberData.withEpoch_liveStore]
    change Fresh bound live name
    rcases hlive name with heq | ⟨-, hnew⟩
    · rw [Fresh, heq]
      exact ih
    · exact hnew

/-! ## What a notification changes -/

/-- Only fibers change, each by dependency checks, and a disposed fiber only while it is
registered. -/
structure Notified (app app' : App) : Prop where
  rest : app' = { app with fibers := app'.fibers }
  length : app'.fibers.length = app.fibers.length
  fibers : ∀ id data, app.fibers[id]? = some data → ∃ data', app'.fibers[id]? = some data' ∧
    Rechecks (app.bound data.ctx) app.uid data data' ∧
      (data.uid = none → id ∉ app.registered → data' = data)

namespace Notified

variable {app app' app'' : App}

theorem refl (app : App) : Notified app app :=
  ⟨rfl, rfl, fun _ data hdata => ⟨data, hdata, .refl, fun _ _ => rfl⟩⟩

section
variable (hnotified : Notified app app')
include hnotified

theorem bound_eq : app'.bound = app.bound := by
  rw [hnotified.rest]
  rfl

theorem registered_eq : app'.registered = app.registered := by
  rw [hnotified.rest]
  rfl

theorem uid_eq : app'.uid = app.uid := by
  funext id
  unfold App.uid
  cases hdata : app.fibers[id]? with
  | none =>
    have hnone : app'.fibers[id]? = none := by
      rw [getElem?_eq_none_iff, hnotified.length]
      exact getElem?_eq_none_iff.mp hdata
    rw [hnone]
  | some data =>
    obtain ⟨data', hdata', hchecks, -⟩ := hnotified.fibers id data hdata
    rw [hdata']
    simp [hchecks.sameFiber.uid]

end

theorem trans (hfirst : Notified app app') (hsecond : Notified app' app'') :
    Notified app app'' := by
  refine ⟨?_, hsecond.length.trans hfirst.length, ?_⟩
  · rw [hsecond.rest, hfirst.rest]
  · intro id data hdata
    obtain ⟨data', hdata', hchecks, hsame⟩ := hfirst.fibers id data hdata
    obtain ⟨data'', hdata'', hchecks', hsame'⟩ := hsecond.fibers id data' hdata'
    rw [hfirst.bound_eq, hfirst.uid_eq, hchecks.sameFiber.ctx] at hchecks'
    refine ⟨data'', hdata'', hchecks.trans hchecks', fun huid hout => ?_⟩
    rw [hsame' (hchecks.sameFiber.uid.trans huid) (hfirst.registered_eq ▸ hout), hsame huid hout]

theorem fibers_of_after (hnotified : Notified app app') {id : FiberId} {data' : FiberData}
    (hdata' : app'.fibers[id]? = some data') : ∃ data, app.fibers[id]? = some data ∧
      Rechecks (app.bound data.ctx) app.uid data data' ∧
        (data.uid = none → id ∉ app.registered → data' = data) := by
  obtain ⟨hlt, -⟩ := List.getElem?_eq_some_iff.mp hdata'
  rw [hnotified.length] at hlt
  have hdata : app.fibers[id]? = some app.fibers[id] := List.getElem?_eq_getElem hlt
  obtain ⟨again, hagain, hchecks⟩ := hnotified.fibers id _ hdata
  rw [hdata', some.injEq] at hagain
  subst hagain
  exact ⟨_, hdata, hchecks⟩

theorem of_recheck {id : FiberId} {data data' : FiberData} (hdata : app.fibers[id]? = some data)
    (hreach : id ∈ app.registered ∨ data.uid ≠ none)
    (hcheck : Recheck (app.bound data.ctx) app.uid data data') :
    Notified app (app.setFiber id data') := by
  refine ⟨rfl, App.length_setFiber app id data', fun other found hfound => ?_⟩
  by_cases hid : id = other
  · subst hid
    rw [hdata, some.injEq] at hfound
    subst hfound
    exact ⟨data', App.getElem?_setFiber_self hdata data', .single hcheck,
      fun huid hout => absurd hreach (not_or.mpr ⟨hout, not_not_intro huid⟩)⟩
  · exact ⟨found, (App.getElem?_setFiber_of_ne hid data').trans hfound, .refl, fun _ _ => rfl⟩

section
variable (hnotified : Notified app app')
include hnotified

/-- A change of a fiber that dependency checks do not see can be made before them. -/
theorem modifyFiber {id : FiberId} {data : FiberData} (hdata : app.fibers[id]? = some data)
    (change : FiberData → FiberData)
    (hsame : ∀ data, (change data).uid = data.uid ∧ (change data).ctx = data.ctx)
    (property : FiberData → Prop) (hproperty : property data)
    (hcommutes : ∀ bound uid data data', property data → Recheck bound uid data data' →
      property data' ∧ Recheck bound uid (change data) (change data')) :
    Notified (app.modifyFiber id change) (app'.modifyFiber id change) := by
  have hchange : ∀ {bound uid data'}, Rechecks bound uid data data' →
      property data' ∧ Rechecks bound uid (change data) (change data') := by
    intro bound uid data' hchecks
    induction hchecks with
    | refl => exact ⟨hproperty, .refl⟩
    | tail _ hcheck ih =>
      obtain ⟨hnext, hchecked⟩ := hcommutes _ _ _ _ ih.1 hcheck
      exact ⟨hnext, ih.2.tail hchecked⟩
  obtain ⟨found, hfound, -⟩ := hnotified.fibers id data hdata
  rw [App.modifyFiber_eq_setFiber hdata, App.modifyFiber_eq_setFiber hfound]
  refine ⟨?_, ?_, fun other start hstart => ?_⟩
  · rw [hnotified.rest]
    rfl
  · simp [hnotified.length]
  · rw [App.bound_setFiber, App.uid_setFiber hdata (change data) (hsame data).1]
    by_cases hid : id = other
    · subst hid
      rw [App.getElem?_setFiber_self hdata, some.injEq] at hstart
      subst hstart
      obtain ⟨final, hfinal, hchecks, hout⟩ := hnotified.fibers id data hdata
      obtain rfl := mem_unique hfound hfinal
      refine ⟨change found, App.getElem?_setFiber_self hfound _, ?_, fun huid hreg => ?_⟩
      · rw [(hsame data).2]
        exact (hchange hchecks).2
      · rw [hout ((hsame data).1.symm.trans huid) hreg]
    · rw [App.getElem?_setFiber_of_ne hid] at hstart ⊢
      exact hnotified.fibers other start hstart

theorem map (change : App → App)
    (hfibers : ∀ app fibers, change { app with fibers } = { change app with fibers })
    (hbound : (change app).bound = app.bound)
    (hregistered : (change app).registered = app.registered) :
    Notified (change app) (change app') := by
  have hsame : ∀ app : App, (change app).fibers = app.fibers := fun app =>
    (congrArg App.fibers (hfibers app app.fibers) :)
  have huid : (change app).uid = app.uid := by
    funext id
    rw [App.uid, App.uid, hsame]
  refine ⟨?_, by rw [hsame, hsame, hnotified.length], ?_⟩
  · rw [hsame]
    conv_lhs => rw [hnotified.rest]
    exact hfibers app app'.fibers
  · rw [hbound, hregistered, huid, hsame, hsame]
    exact hnotified.fibers

theorem modifyEffect (effect : EffectId) (change : EffectState → EffectState) :
    Notified (app.modifyEffect effect change) (app'.modifyEffect effect change) :=
  hnotified.map (fun app => app.modifyEffect effect change) (fun _ _ => rfl) rfl rfl

end

theorem foldl {check : App → FiberId → App}
    (hcheck : ∀ app id, id ∈ app.registered → Notified app (check app id)) (ids : List FiberId)
    (hids : ∀ id ∈ ids, id ∈ app.registered) : Notified app (ids.foldl check app) := by
  induction ids generalizing app with
  | nil => exact refl app
  | cons id rest ih =>
    have hhead := hcheck app id (hids id mem_cons_self)
    refine hhead.trans (ih fun other hother => ?_)
    rw [hhead.registered_eq]
    exact hids other (mem_cons_of_mem _ hother)

end Notified

/-! ## The framework's functions -/

section Parametric

variable {notify : App → Context → List String → App}
variable (hnotify : ∀ app ctx names, Notified app (notify app ctx names))

variable {id : FiberId} {data : FiberData}

include hnotify in
theorem updateState_notified_of {app : App}
    (hdata : app.fibers[id]? = some data) (state : FiberState) :
    Notified (app.setFiber id { data with state }) (updateState notify app id state) := by
  simp only [updateState, hdata, App.modifyFiber_eq_setFiber hdata]
  split
  · exact .refl _
  · split
    · exact .refl _
    · exact hnotify _ _ _

include hnotify in
theorem startTransition_notified_of {app : App}
    (hdata : app.fibers[id]? = some data) (task : Task) (state : FiberState) :
    Notified (app.setFiber id { data with inertia := some task, state })
      (startTransition notify app id task state) := by
  unfold startTransition
  rw [App.modifyFiber_eq_setFiber hdata]
  simpa using updateState_notified_of hnotify
    (App.getElem?_setFiber_self hdata { data with inertia := some task }) state

include hnotify in
theorem setEpoch_notified_of {app : App} (hdata : app.fibers[id]? = some data) (epoch : Epoch) :
    Notified (app.setFiber id (data.withEpoch epoch)) (setEpoch notify app id epoch) := by
  simp only [setEpoch, hdata, FiberData.withEpoch]
  split
  · rw [App.setFiber_self hdata]; exact .refl app
  · rw [App.modifyFiber_eq_setFiber hdata]
    split
    · exact .refl _
    · have hepoch := App.getElem?_setFiber_self hdata { data with epoch }
      split
      · simpa using startTransition_notified_of hnotify hepoch .spawnedLoad .loading
      · simpa using startTransition_notified_of hnotify hepoch .spawnedUnload .unloading

include hnotify in
theorem refresh_notified_of {app : App} (hdata : app.fibers[id]? = some data) :
    Notified (app.setFiber id (data.withEpoch (epochOf app.uid data.inject data.liveStore)))
      (refresh notify app id) := by
  simp only [refresh, hdata]
  exact setEpoch_notified_of hnotify hdata _

end Parametric

variable (host : Host)

theorem checkImpl_eq {app : App} (hdata : app.fibers[id]? = some data) (name : String) :
    ∃ live, checkImpl host app id name = app.setFiber id (data.withLive live) ∧
      Fresh (app.bound data.ctx) live name ∧
      ∀ other, other ≠ name → live other = data.liveStore other := by
  simp only [checkImpl, hdata, App.modifyFiber_eq_setFiber hdata]
  refine ⟨_, rfl, ?_, fun other hother => Function.update_of_ne hother _ _⟩
  unfold Fresh
  rw [Function.update_self]
  cases hbound : app.bound data.ctx name with
  | none => exact .inl rfl
  | some record =>
    dsimp only
    split
    next hchecked =>
      split
      · exact .inl rfl
      · exact .inr ⟨rfl, record, rfl, hchecked⟩
    · exact .inl rfl

theorem foldl_checkImpl {app : App} (hdata : app.fibers[id]? = some data) (names : List String) :
    ∃ live, names.foldl (fun app name => checkImpl host app id name) app =
        app.setFiber id (data.withLive live) ∧
      (∀ name ∈ names, Fresh (app.bound data.ctx) live name) ∧
      ∀ name, name ∉ names → live name = data.liveStore name := by
  induction names generalizing app data with
  | nil => exact ⟨data.liveStore, (App.setFiber_self hdata).symm, by simp, by simp⟩
  | cons first rest ih =>
    obtain ⟨live, heq, hfresh, hother⟩ := checkImpl_eq host hdata first
    have hdata' := App.getElem?_setFiber_self hdata (data.withLive live)
    obtain ⟨final, hfold, hrest, hout⟩ := ih hdata'
    rw [App.setFiber_setFiber] at hfold
    refine ⟨final, by rw [foldl_cons, heq]; exact hfold, ?_, ?_⟩
    · intro name hname
      by_cases hin : name ∈ rest
      · exact hrest name hin
      · obtain rfl : name = first := (mem_cons.mp hname).resolve_right hin
        rw [Fresh, hout name hin]
        exact hfresh
    · intro name hname
      rw [mem_cons, not_or] at hname
      rw [hout name hname.2]
      exact hother name hname.1

theorem matching_subset_inject {app : App} {ctx : Context} {names : List String}
    (hname : name ∈ matching app ctx names data) :
    name ∈ data.inject := by
  simp only [matching, mem_filter, Bool.and_eq_true, contains_iff_mem] at hname
  exact hname.2.1

theorem refresh_foldl_checkImpl_notified_of {notify : App → Context → List String → App}
    (hnotify : ∀ app ctx names, Notified app (notify app ctx names)) {app : App}
    (hdata : app.fibers[id]? = some data)
    (hreach : id ∈ app.registered ∨ data.uid ≠ none) {names : List String}
    (hnames : ∀ name ∈ names, name ∈ data.inject) :
    Notified app
      (refresh notify (names.foldl (fun app name => checkImpl host app id name) app) id) := by
  obtain ⟨live, heq, hfresh, hother⟩ := foldl_checkImpl host hdata names
  rw [heq]
  have hdata' := App.getElem?_setFiber_self hdata (data.withLive live)
  have hrefresh := refresh_notified_of hnotify hdata'
  rw [App.setFiber_setFiber, App.uid_setFiber hdata (data.withLive live) rfl]
    at hrefresh
  refine Notified.trans (Notified.of_recheck hdata hreach ⟨live, ?_⟩) hrefresh
  intro name
  by_cases hname : name ∈ names
  · exact .inr ⟨hnames name hname, hfresh name hname⟩
  · exact .inl (hother name hname)

theorem notifyFiber_notified_of {notify : App → Context → List String → App}
    (hnotify : ∀ app ctx names, Notified app (notify app ctx names)) (ctx : Context)
    (names : List String) (app : App) (id : FiberId) (hregistered : id ∈ app.registered) :
    Notified app (notifyFiber host notify ctx names app id) := by
  unfold notifyFiber
  cases hdata : app.fibers[id]? with
  | none => exact .refl app
  | some data =>
    dsimp only
    split
    · exact .refl app
    · exact refresh_foldl_checkImpl_notified_of host hnotify hdata (.inl hregistered)
        fun _ => matching_subset_inject

theorem candidates_registered {app : App} : id ∈ host.candidates app ↔ id ∈ app.registered :=
  (host.perm_candidates app).mem_iff

theorem notifyDepth_notified (depth : Nat) (app : App) (ctx : Context) (names : List String) :
    Notified app (notifyDepth host depth app ctx names) := by
  induction depth generalizing app ctx names with
  | zero => exact .refl app
  | succ depth ih =>
    exact .foldl (notifyFiber_notified_of host ih ctx names) _
      fun id hid => (candidates_registered host).mp hid

theorem notify_notified (app : App) (ctx : Context) (names : List String) :
    Notified app (notify host app ctx names) :=
  notifyDepth_notified host _ app ctx names

/-- A notified fiber has the entry of the name checked, whatever else happens. -/
theorem notifyFiber_fresh_of {notify : App → Context → List String → App}
    (hnotify : ∀ app ctx names, Notified app (notify app ctx names)) {ctx : Context}
    {names : List String} {app : App}
    (hdata : app.fibers[id]? = some data) (hname : name ∈ matching app ctx names data) :
    ∃ data', (notifyFiber host notify ctx names app id).fibers[id]? = some data' ∧
      Fresh (app.bound data.ctx) data'.liveStore name := by
  obtain ⟨live, heq, hfresh, -⟩ := foldl_checkImpl host hdata (matching app ctx names data)
  have hdata' := App.getElem?_setFiber_self hdata (data.withLive live)
  obtain ⟨data', hfound, hchecks, -⟩ :=
    (refresh_notified_of hnotify hdata').fibers id _ (App.getElem?_setFiber_self hdata' _)
  refine ⟨data', ?_, ?_⟩
  · have hnonempty : (matching app ctx names data).isEmpty = false := by
      rw [isEmpty_eq_false_iff]
      exact ne_nil_of_mem hname
    simp only [notifyFiber, hdata, hnonempty, heq]
    exact hfound
  · have hctx := (FiberData.sameFiber_withEpoch (data.withLive live)
      (epochOf (app.setFiber id (data.withLive live)).uid data.inject live)).ctx
    refine Rechecks.fresh (hctx ▸ hchecks) ?_
    rw [FiberData.withEpoch_liveStore]
    exact hfresh name hname

/-- After a notification, every registered fiber that injects a service in its scope has
the entry checked. -/
theorem notify_fresh {app : App} {ctx : Context} {names : List String}
    (hregistered : id ∈ app.registered)
    (hdata : app.fibers[id]? = some data) (hname : name ∈ names) (hinject : name ∈ data.inject)
    (hscope : app.isolateLookup data.ctx name = app.isolateLookup ctx name) :
    ∃ data', (notify host app ctx names).fibers[id]? = some data' ∧
      Fresh (app.bound data.ctx) data'.liveStore name := by
  have hnotify := notifyDepth_notified host app.fibers.length
  obtain ⟨before, after, hsplit⟩ :=
    append_of_mem ((candidates_registered host).mpr hregistered)
  have hmem : ∀ other ∈ before ++ id :: after, other ∈ app.registered := fun other hother =>
    (candidates_registered host).mp (hsplit ▸ hother)
  have hcheck := notifyFiber_notified_of host hnotify ctx names
  have hbefore := Notified.foldl hcheck before fun other hother =>
    hmem other (mem_append_left _ hother)
  obtain ⟨data₁, hdata₁, hchecks₁, -⟩ := hbefore.fibers id data hdata
  set app₁ := before.foldl (notifyFiber host (notifyDepth host app.fibers.length) ctx names) app
  have hlookup : app₁.isolateLookup = app.isolateLookup := by
    rw [hbefore.rest]
    rfl
  have hmatching : name ∈ matching app₁ ctx names data₁ := by
    simp only [matching, mem_filter, hlookup, hchecks₁.sameFiber.ctx,
      hchecks₁.sameFiber.inject, hscope]
    exact ⟨hname, by simpa using hinject⟩
  obtain ⟨data₂, hdata₂, hfresh⟩ := notifyFiber_fresh_of host hnotify hdata₁ hmatching
  have hstep := hcheck app₁ id (hbefore.registered_eq ▸ hregistered)
  obtain ⟨again, hagain, hchecks₂, -⟩ := hstep.fibers id data₁ hdata₁
  obtain rfl := mem_unique hdata₂ hagain
  have hafter := Notified.foldl hcheck after fun other hother => by
    rw [hstep.registered_eq, hbefore.registered_eq]
    exact hmem other (mem_append_right _ (mem_cons_of_mem _ hother))
  obtain ⟨data₃, hdata₃, hchecks₃, -⟩ := hafter.fibers id data₂ hdata₂
  refine ⟨data₃, ?_, ?_⟩
  · rw [notify, notifyDepth, hsplit, foldl_append]
    exact hdata₃
  · rw [hstep.bound_eq, hbefore.bound_eq, hchecks₂.sameFiber.ctx, hchecks₁.sameFiber.ctx]
      at hchecks₃
    rw [hbefore.bound_eq, hchecks₁.sameFiber.ctx] at hfresh
    exact hchecks₃.fresh hfresh

theorem updateState_notified {app : App} (hdata : app.fibers[id]? = some data) (state : FiberState)
    : Notified (app.setFiber id { data with state }) (updateState (notify host) app id state) :=
  updateState_notified_of (notify_notified host) hdata state

theorem startTransition_notified {app : App}
    (hdata : app.fibers[id]? = some data) (task : Task) (state : FiberState) :
    Notified (app.setFiber id { data with inertia := some task, state })
      (startTransition (notify host) app id task state) :=
  startTransition_notified_of (notify_notified host) hdata task state

theorem setEpoch_notified {app : App} (hdata : app.fibers[id]? = some data) (epoch : Epoch) :
    Notified (app.setFiber id (data.withEpoch epoch)) (setEpoch (notify host) app id epoch) :=
  setEpoch_notified_of (notify_notified host) hdata epoch

theorem refresh_foldl_checkImpl_notified {app : App} (hdata : app.fibers[id]? = some data)
    (huid : data.uid ≠ none) {names : List String} (hnames : ∀ name ∈ names, name ∈ data.inject) :
    Notified app
      (refresh (notify host) (names.foldl (fun app name => checkImpl host app id name) app) id) :=
  refresh_foldl_checkImpl_notified_of host (notify_notified host) hdata (.inr huid) hnames

/-! ## The depth of notifications

Only a fiber that stops being active notifies in turn, and no notification makes one
active. The bound on the depth is therefore never reached.
-/

theorem FiberData.withEpoch_state {epoch : Epoch}
    (hactive : (data.withEpoch epoch).state = .active) : data.state = .active := by
  unfold FiberData.withEpoch at hactive
  split at hactive
  · exact hactive
  split at hactive
  · exact hactive
  split at hactive
  · cases hactive
  · cases hactive

theorem Rechecks.state {uid : FiberId → Nat} (hchecks : Rechecks bound uid data data')
    (hactive : data'.state = .active) : data.state = .active := by
  induction hchecks with
  | refl => exact hactive
  | tail _ hcheck ih =>
    obtain ⟨live, -⟩ := hcheck
    exact ih (FiberData.withEpoch_state hactive : (FiberData.withLive live _).state = .active)

section Congruence

variable {first second : App → Context → List String → App}

end Congruence

end Cordis

end Keel
