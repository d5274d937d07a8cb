import Keel.Dsh.CordisRegistry

/-! # Service scopes

A context finds a service under the label of its scope. Labels are chosen by callers, so
two names can share one; the results here are about runs where each label belongs to one
name. There a notification about a name reaches every fiber bound to its record. In these
runs no fiber provides a service that it injects, so its own services and the ones it
depends on do not overwrite each other.
-/

namespace Keel

open List Option

namespace Cordis

/-- Each label is used for the name that owns it. -/
def Owns (owner : Label → String) (labels : List (String × Label)) : Prop :=
  ∀ entry ∈ labels, owner entry.2 = entry.1

def App.Foreign (app : App) (id : FiberId) (name : String) : Prop :=
  ∃ data, app.fibers[id]? = some data ∧ name ∉ data.inject

/-- The labels an action brings in are used for the names that own them, and a fiber
provides for others. -/
def RespectsScopes (owner : Label → String) (app : App) : Action → Prop
  | .provide ctx name _ => Owns owner ctx.isolate ∧
      (app.rootIsolate.lookup name = none → owner (app.labelCounter + 1) = name) ∧
      ∀ data ∈ app.fibers[ctx.fiber]?, name ∉ data.inject
  | .plugin ctx _ _ => Owns owner ctx.isolate
  | _ => True

instance (owner : Label → String) (app : App) (action : Action) :
    Decidable (RespectsScopes owner app action) := by
  unfold RespectsScopes Owns
  cases action with
  | provide => infer_instance
  | plugin => infer_instance
  | _ => exact isTrue trivial

/-- The disposers of an effect that have not started. -/
def EffectState.pending (effect : EffectState) : List Disposer :=
  match effect.disposal with
  | .idle => effect.disposers
  | .running left _ => left

/-- Each label is used for one name, and the disposer of a service knows its label. The
fiber that provides it does not inject it. -/
structure Scoped (owner : Label → String) (app : App) : Prop where
  fibers : ∀ (id : FiberId) data, app.fibers[id]? = some data → Owns owner data.ctx.isolate
  root : Owns owner app.rootIsolate
  store : ∀ entry ∈ app.store,
    owner entry.1 = entry.2.name ∧ app.rootIsolate.lookup entry.2.name ≠ none
  services : ∀ (id : EffectId) effect, app.effects[id]? = some effect →
    ∀ ctx label name, .service ctx label name ∈ effect.pending →
      app.isolateLookup ctx name = some label ∧ owner label = name ∧ app.Foreign ctx.fiber name
  woken : ∀ (id : EffectId) left ids provider name,
    app.disposal id = some (.running left (some (.woken ids provider name))) →
      app.Foreign provider name

section Lookups

variable {owner : Label → String} {app : App}

theorem mem_of_lookup {α β : Type} [BEq α] [LawfulBEq α] {entries : List (α × β)} {key : α}
    {value : β} (hlookup : entries.lookup key = some value) : (key, value) ∈ entries := by
  obtain ⟨before, after, rfl, -⟩ := lookup_eq_some_iff.mp hlookup
  exact mem_append_right _ mem_cons_self

variable {ctx : Context} {name : String} {label : Label}

theorem isolateLookup_owner (hroot : Owns owner app.rootIsolate) (hctx : Owns owner ctx.isolate)
    (hlookup : app.isolateLookup ctx name = some label) : owner label = name := by
  unfold App.isolateLookup at hlookup
  split at hlookup
  next found hfound =>
    cases hlookup
    exact hctx _ (mem_of_lookup hfound)
  · exact hroot _ (mem_of_lookup hlookup)

theorem rootIsolate_ensureLabel (app : App) (name : String) :
    (ensureLabel app name).rootIsolate =
      if app.rootIsolate.lookup name = none then
        (name, app.labelCounter + 1) :: app.rootIsolate
      else app.rootIsolate := by
  unfold ensureLabel
  cases hlookup : app.rootIsolate.lookup name with
  | none | some label => simp

theorem isolateLookup_ensureLabel {other : String}
    (hlookup : app.isolateLookup ctx other = some label) :
    (ensureLabel app name).isolateLookup ctx other = some label := by
  unfold App.isolateLookup at hlookup ⊢
  split at hlookup
  · exact hlookup
  next hnone =>
    rw [rootIsolate_ensureLabel]
    split
    next hmissing =>
      have hne : other ≠ name := by
        rintro rfl
        rw [hmissing] at hlookup
        cases hlookup
      rwa [lookup_cons, beq_false_of_ne hne]
    · exact hlookup

theorem lookup_filter_fst_ne {α : Type} (entries : List (Label × α)) (label key : Label) :
    (entries.filter fun entry => entry.1 ≠ label).lookup key =
      if key = label then none else entries.lookup key := by
  induction entries with
  | nil => simp
  | cons entry rest ih => grind

theorem bound_ensureLabel (hscoped : Scoped owner app)
    (hfresh : app.rootIsolate.lookup name = none → owner (app.labelCounter + 1) = name) :
    (ensureLabel app name).bound = app.bound := by
  funext ctx other
  unfold App.bound
  rw [ensureLabel_store]
  cases hlookup : app.isolateLookup ctx other with
  | some label => rw [isolateLookup_ensureLabel hlookup]
  | none =>
    cases hnew : (ensureLabel app name).isolateLookup ctx other with
    | none => rfl
    | some label =>
      rw [bind_none, bind_some]
      unfold App.isolateLookup at hlookup hnew
      rw [rootIsolate_ensureLabel] at hnew
      by_contra hfound
      obtain ⟨record, hrecord⟩ := ne_none_iff_exists'.mp hfound
      have hstore := hscoped.store _ (mem_of_lookup hrecord)
      grind

theorem bound_insertRecord {record : ImplRecord} (ctx : Context) (other : String) :
    (app.insertRecord label record).bound ctx other =
      if app.isolateLookup ctx other = some label then some record else app.bound ctx other := by
  change (app.isolateLookup ctx other).bind (List.lookup · ((label, record) :: app.store)) = _
  unfold App.bound
  cases app.isolateLookup ctx other with
  | none => simp
  | some found => grind

theorem bound_filter {app' : App} (hroot : app'.rootIsolate = app.rootIsolate)
    (hstore : app'.store = app.store.filter fun entry => entry.1 ≠ label) (ctx : Context)
    (other : String) :
    app'.bound ctx other =
      if app.isolateLookup ctx other = some label then none else app.bound ctx other := by
  have hlookup : app'.isolateLookup ctx other = app.isolateLookup ctx other := by
    rw [App.isolateLookup, App.isolateLookup, hroot]
  unfold App.bound
  rw [hlookup, hstore]
  cases app.isolateLookup ctx other with
  | none => simp
  | some found =>
    rw [bind_some, bind_some, lookup_filter_fst_ne]
    simp

end Lookups

/-! ## Every run -/

theorem pending_eq {app : App} {id : EffectId} {effect : EffectState} {left : List Disposer}
    {current : Option Waiting} (heffect : app.effects[id]? = some effect)
    (hdisposal : app.disposal id = some (.running left current)) : effect.pending = left := by
  simp only [App.disposal, heffect, map_some, Option.some.injEq] at hdisposal
  simp only [EffectState.pending, hdisposal]

theorem pending_beginDispose (effect : EffectState) (unload : Option Nat) (disposer : Disposer) :
    disposer ∈ (effect.beginDispose unload).pending ↔ disposer ∈ effect.pending := by
  cases hdisposal : effect.disposal with
  | idle | running left current => simp [EffectState.pending, EffectState.beginDispose, hdisposal]

namespace Scoped

variable {owner : Label → String} {app app' : App}

theorem new (owner : Label → String) : Scoped owner App.new := by
  refine ⟨fun id data hdata entry hentry => ?_, ?_, ?_, ?_, ?_⟩
  · obtain ⟨-, rfl⟩ : id = 0 ∧ _ = data := by
      simpa [App.new, getElem?_singleton] using hdata
    exact absurd hentry not_mem_nil
  · exact fun _ hentry => absurd hentry not_mem_nil
  · exact fun _ hentry => absurd hentry not_mem_nil
  · exact fun _ _ heffect => by simp [App.new] at heffect
  · exact fun _ _ _ _ _ hdisposal => by simp [App.new, App.disposal] at hdisposal

section
variable (hscoped : Scoped owner app)
include hscoped

theorem congr_fibers (hrest : app' = { app with fibers := app'.fibers })
    (hlength : app'.fibers.length = app.fibers.length)
    (hfibers : ∀ (id : FiberId) data data', app.fibers[id]? = some data →
      app'.fibers[id]? = some data' → data'.ctx = data.ctx ∧ data'.inject = data.inject) :
    Scoped owner app' := by
  have hbefore : ∀ (id : FiberId) data', app'.fibers[id]? = some data' →
      ∃ data, app.fibers[id]? = some data := fun id data' hdata' => by
    obtain ⟨hlt, -⟩ := List.getElem?_eq_some_iff.mp hdata'
    exact ⟨_, List.getElem?_eq_getElem (hlength ▸ hlt)⟩
  have hforeign : ∀ id name, app.Foreign id name → app'.Foreign id name := by
    rintro id name ⟨data, hdata, hname⟩
    obtain ⟨hlt, -⟩ := List.getElem?_eq_some_iff.mp hdata
    have hdata' : app'.fibers[id]? = some _ := List.getElem?_eq_getElem (hlength ▸ hlt)
    exact ⟨_, hdata', (hfibers id data _ hdata hdata').2 ▸ hname⟩
  refine ⟨fun id data' hdata' => ?_, ?_, ?_, ?_, ?_⟩
  · obtain ⟨data, hdata⟩ := hbefore id data' hdata'
    exact (hfibers id data data' hdata hdata').1 ▸ hscoped.fibers id data hdata
  · rw [hrest]
    exact hscoped.root
  · rw [hrest]
    exact hscoped.store
  · intro id effect heffect ctx label name hmem
    rw [hrest] at heffect
    obtain ⟨hlookup, howner, hname⟩ := hscoped.services id effect heffect ctx label name hmem
    refine ⟨?_, howner, hforeign _ _ hname⟩
    rw [hrest]
    exact hlookup
  · intro id left ids provider name hdisposal
    rw [hrest] at hdisposal
    exact hforeign _ _ (hscoped.woken id left ids provider name hdisposal)

theorem notified (hnotified : Notified app app') : Scoped owner app' := by
  refine hscoped.congr_fibers hnotified.rest hnotified.length fun id data data' hdata hdata' => ?_
  obtain ⟨found, hfound, hchecks, -⟩ := hnotified.fibers id data hdata
  obtain rfl := mem_unique hdata' hfound
  exact ⟨hchecks.sameFiber.ctx, hchecks.sameFiber.inject⟩

theorem modifyFiber (id : FiberId) (change : FiberData → FiberData)
    (hchange : ∀ data, app.fibers[id]? = some data →
      (change data).ctx = data.ctx ∧ (change data).inject = data.inject) :
    Scoped owner (app.modifyFiber id change) := by
  refine hscoped.congr_fibers rfl (by simp [App.modifyFiber]) fun other data data' hdata hdata' => ?_
  simp only [App.modifyFiber, getElem?_modify, hdata] at hdata'
  obtain rfl : _ = data' := Option.some.inj hdata'
  split
  next hid => exact hchange data (hid ▸ hdata)
  · exact ⟨rfl, rfl⟩

theorem setFiber {id : FiberId} {data data' : FiberData} (hdata : app.fibers[id]? = some data)
    (hctx : data'.ctx = data.ctx) (hinject : data'.inject = data.inject) :
    Scoped owner (app.setFiber id data') := by
  have hmodify := hscoped.modifyFiber id (fun _ => data') fun found hfound => by
    obtain rfl := mem_unique hdata hfound
    exact ⟨hctx, hinject⟩
  rwa [App.modifyFiber_eq_setFiber hdata] at hmodify

theorem congr_rest (hfibers : app'.fibers = app.fibers) (hroot : app'.rootIsolate = app.rootIsolate)
    (hstore : app'.store ⊆ app.store) (heffects : app'.effects = app.effects) :
    Scoped owner app' := by
  have hlookup : app'.isolateLookup = app.isolateLookup := by
    funext ctx name
    rw [App.isolateLookup, App.isolateLookup, hroot]
  refine ⟨?_, ?_, fun entry hentry => ?_, ?_, ?_⟩
  · rw [hfibers]
    exact hscoped.fibers
  · rw [hroot]
    exact hscoped.root
  · rw [hroot]
    exact hscoped.store entry (hstore hentry)
  · simp only [hlookup, heffects, App.Foreign, hfibers]
    exact hscoped.services
  · simp only [App.disposal, heffects, App.Foreign, hfibers]
    exact hscoped.woken

theorem modifyEffect (id : EffectId) {change : EffectState → EffectState}
    (hpending : ∀ effect, app.effects[id]? = some effect →
      ∀ disposer ∈ (change effect).pending, disposer ∈ effect.pending)
    (hwoken : ∀ effect, app.effects[id]? = some effect → ∀ left ids provider name,
      (change effect).disposal = .running left (some (.woken ids provider name)) →
        app.Foreign provider name) : Scoped owner (app.modifyEffect id change) := by
  refine ⟨hscoped.fibers, hscoped.root, hscoped.store, ?_, ?_⟩
  · intro other changed hchanged ctx label name hmem
    simp only [App.modifyEffect, getElem?_modify] at hchanged
    obtain ⟨effect, heffect, rfl⟩ := map_eq_some_iff.mp hchanged
    refine hscoped.services other effect heffect ctx label name ?_
    split at hmem
    next hid =>
      subst hid
      exact hpending effect heffect _ hmem
    · exact hmem
  · intro other left ids provider name hdisposal
    obtain ⟨changed, hchanged, hrunning⟩ := map_eq_some_iff.mp hdisposal
    simp only [App.modifyEffect, getElem?_modify] at hchanged
    obtain ⟨effect, heffect, rfl⟩ := map_eq_some_iff.mp hchanged
    split at hrunning
    next hid =>
      subst hid
      exact hwoken effect heffect left ids provider name hrunning
    · exact hscoped.woken other left ids provider name
        (map_eq_some_iff.mpr ⟨effect, heffect, hrunning⟩)

theorem registerEffect (id : FiberId) {disposers : List Disposer}
    (hdisposers : ∀ ctx label name, .service ctx label name ∈ disposers →
      app.isolateLookup ctx name = some label ∧ owner label = name ∧
        app.Foreign ctx.fiber name) : Scoped owner (registerEffect app id disposers) := by
  have hbase : Scoped owner
      { app with effects := app.effects ++ [EffectState.mk id disposers .idle none] } := by
    have hnew : ∀ (other : EffectId) effect,
        (app.effects ++ [EffectState.mk id disposers .idle none])[other]? = some effect →
          app.effects[other]? = some effect ∨ effect = EffectState.mk id disposers .idle none := by
      intro other effect heffect
      rw [getElem?_append] at heffect
      split at heffect
      · exact .inl heffect
      · exact .inr (mem_singleton.mp (mem_of_getElem? heffect))
    refine ⟨hscoped.fibers, hscoped.root, hscoped.store, ?_, ?_⟩
    · intro other effect heffect ctx label name hmem
      rcases hnew other effect heffect with hold | rfl
      · exact hscoped.services other effect hold ctx label name hmem
      · exact hdisposers ctx label name hmem
    · intro other left ids provider name hdisposal
      obtain ⟨effect, heffect, hrunning⟩ := map_eq_some_iff.mp hdisposal
      rcases hnew other effect heffect with hold | rfl
      · exact hscoped.woken other left ids provider name
          (map_eq_some_iff.mpr ⟨effect, hold, hrunning⟩)
      · cases hrunning
  exact hbase.modifyFiber id _ fun _ _ => ⟨rfl, rfl⟩

theorem ensureLabel {name : String}
    (hfresh : app.rootIsolate.lookup name = none → owner (app.labelCounter + 1) = name) :
    Scoped owner (ensureLabel app name) := by
  have heffects : (Cordis.ensureLabel app name).effects = app.effects := by
    unfold Cordis.ensureLabel
    split
    · rfl
    · rfl
  refine ⟨?_, ?_, ?_, ?_, ?_⟩
  · rw [ensureLabel_fibers]
    exact hscoped.fibers
  · intro entry hentry
    rw [rootIsolate_ensureLabel] at hentry
    have hroot := hscoped.root entry
    grind
  · rw [ensureLabel_store, rootIsolate_ensureLabel]
    intro entry hentry
    have hstore := hscoped.store entry hentry
    grind
  · rw [heffects]
    intro id effect heffect ctx label other hmem
    obtain ⟨hlookup, howner, hforeign⟩ :=
      hscoped.services id effect heffect ctx label other hmem
    refine ⟨isolateLookup_ensureLabel hlookup, howner, ?_⟩
    rwa [App.Foreign, ensureLabel_fibers]
  · simp only [App.disposal, heffects, App.Foreign, ensureLabel_fibers]
    exact hscoped.woken

theorem insertRecord {label : Label} {record : ImplRecord} (howner : owner label = record.name)
    (hroot : app.rootIsolate.lookup record.name ≠ none) :
    Scoped owner (app.insertRecord label record) := by
  have hbase : Scoped owner (app.putRecord label record) := by
    refine ⟨hscoped.fibers, hscoped.root, fun entry hentry => ?_, hscoped.services, hscoped.woken⟩
    rcases mem_cons.mp hentry with rfl | hmem
    · exact ⟨howner, hroot⟩
    · exact hscoped.store entry hmem
  exact hbase.modifyFiber record.fiber _ fun _ _ => ⟨rfl, rfl⟩

theorem publish {ctx : Context} (hctx : Owns owner ctx.isolate) (key : PluginKey)
    (inject : List String) : Scoped owner (app.publish ctx key inject) := by
  have hforeign : ∀ id name, app.Foreign id name → (app.publish ctx key inject).Foreign id name := by
    rintro id name ⟨data, hdata, hname⟩
    obtain ⟨hlt, -⟩ := List.getElem?_eq_some_iff.mp hdata
    exact ⟨data, (List.getElem?_append_left hlt).trans hdata, hname⟩
  refine ⟨fun id data hdata => ?_, hscoped.root, hscoped.store, ?_, ?_⟩
  · simp only [App.publish, List.getElem?_append] at hdata
    split at hdata
    · exact hscoped.fibers id data hdata
    · obtain rfl := List.mem_singleton.mp (List.mem_of_getElem? hdata)
      exact hctx
  · intro id effect heffect ctx label name hmem
    obtain ⟨hlookup, howner, hname⟩ := hscoped.services id effect heffect ctx label name hmem
    exact ⟨hlookup, howner, hforeign _ _ hname⟩
  · exact fun id left ids provider name hdisposal =>
      hforeign _ _ (hscoped.woken id left ids provider name hdisposal)

theorem retire {id : FiberId} {data : FiberData} (hdata : app.fibers[id]? = some data) :
    Scoped owner (app.retire id data) := by
  have hbase : Scoped owner (app.leaveRuntime id data) :=
    hscoped.congr_rest rfl rfl (List.Subset.refl _) rfl
  exact hbase.setFiber hdata data.sameSetup_retire.ctx data.sameSetup_retire.inject

theorem proceed {id : EffectId} {left rest : List Disposer} {current next : Option Waiting}
    (hdisposal : app.disposal id = some (.running left current))
    (hrest : ∀ disposer ∈ rest, disposer ∈ left)
    (hnext : ∀ ids provider name, next = some (.woken ids provider name) →
      app.Foreign provider name) :
    Scoped owner (app.modifyEffect id (EffectState.continue rest next)) := by
  refine hscoped.modifyEffect id (fun effect heffect other hmem => ?_) ?_
  · rw [pending_eq heffect hdisposal]
    exact hrest other hmem
  · intro effect _ left' ids provider name hrunning
    exact hnext ids provider name (Disposal.running.inj hrunning).2

theorem start {id : EffectId} {disposer : Disposer} {left : List Disposer}
    (current : Option Waiting)
    (hdisposal : app.disposal id = some (.running (disposer :: left) none))
    (hcurrent : ∀ ids provider name, current = some (.woken ids provider name) →
      app.Foreign provider name) : Scoped owner (app.start id disposer left current) := by
  have hbase : Scoped owner { app with ran := app.ran ++ [(id, disposer)] } :=
    hscoped.congr_rest rfl rfl (List.Subset.refl _) rfl
  exact hbase.proceed hdisposal (fun _ => mem_cons_of_mem _) hcurrent

theorem beginDispose (id : EffectId) (unload : Option Nat) :
    Scoped owner (app.modifyEffect id (EffectState.beginDispose unload)) := by
  refine hscoped.modifyEffect id (fun effect _ disposer => ?_) ?_
  · exact (pending_beginDispose effect unload disposer).mp
  · intro effect heffect left ids provider name hrunning
    cases hdisposal : effect.disposal with
    | idle => simp [EffectState.beginDispose, hdisposal] at hrunning
    | running left' current =>
      simp only [EffectState.beginDispose, hdisposal] at hrunning
      exact hscoped.woken id left ids provider name
        (map_eq_some_iff.mpr ⟨effect, heffect, hdisposal.trans hrunning⟩)

theorem change {action : Action} (hrespects : RespectsScopes owner app action)
    (hchange : Change app action app') : Scoped owner app' := by
  have hquiet : ∀ ids provider name,
      (none : Option Waiting) = some (.woken ids provider name) → app.Foreign provider name :=
    fun _ _ _ hnone => by cases hnone
  cases hchange with
  | refused | isolate => exact hscoped.congr_rest rfl rfl (List.Subset.refl _) rfl
  | effect => exact hscoped.registerEffect _ (by simp)
  | on ctx =>
    have hbase : Scoped owner { app with
        hookCounter := app.hookCounter + 1
        hooks := app.hooks ++ [Hook.mk (app.hookCounter + 1) ctx.fiber] } :=
      hscoped.congr_rest rfl rfl (List.Subset.refl _) rfl
    exact hbase.registerEffect _ (by simp)
  | provideRefused ctx name => exact hscoped.ensureLabel hrespects.2.1
  | @provide ctx name checked label haccepts hlabel =>
    have hensured := hscoped.ensureLabel hrespects.2.1
    have howner := isolateLookup_owner hensured.root hrespects.1 hlabel
    have hroot : (Cordis.ensureLabel app name).rootIsolate.lookup name ≠ none := by
      rw [rootIsolate_ensureLabel]
      split
      · simp
      · assumption
    refine (hensured.insertRecord howner hroot).registerEffect _ fun ctx' label' name' hmem => ?_
    simp only [mem_singleton, Disposer.service.injEq] at hmem
    obtain ⟨rfl, rfl, rfl⟩ := hmem
    obtain ⟨data, hdata, -⟩ := acceptsEffects_iff.1 haccepts
    have hforeign := hrespects.2.2 data hdata
    rw [← ensureLabel_fibers app] at hdata
    refine ⟨hlabel, howner, ?_⟩
    unfold App.Foreign
    rw [insertRecord_eq hdata]
    exact ⟨_, App.getElem?_setFiber_self hdata _, hforeign⟩
  | plugin => exact (hscoped.publish hrespects _ _).registerEffect _ (by simp)
  | orphan => exact hscoped.publish hrespects _ _
  | move updates disposing _ hdata hmove =>
    have hbase : Scoped owner { app with updates, disposing } :=
      hscoped.congr_rest rfl rfl (List.Subset.refl _) rfl
    exact hbase.setFiber hdata hmove.sameSetup.ctx hmove.sameSetup.inject
  | dispose hdata => exact (hscoped.retire hdata).congr_rest rfl rfl (List.Subset.refl _) rfl
  | joinDispose => exact hscoped.congr_rest rfl rfl (List.Subset.refl _) rfl
  | disposeEffect => exact hscoped.beginDispose _ none
  | beginHandle => exact hscoped.beginDispose _ _
  | user hdisposal => exact hscoped.start _ hdisposal (by simp)
  | hook hdisposal =>
    exact (hscoped.start none hdisposal hquiet).congr_rest rfl rfl (List.Subset.refl _) rfl
  | @service effect ctx label name left woken hdisposal =>
    have hforeign : app.Foreign ctx.fiber name := by
      obtain ⟨found, hfound, hrunning⟩ := map_eq_some_iff.mp hdisposal
      have hpending : .service ctx label name ∈ found.pending := by
        rw [pending_eq hfound hdisposal]
        exact mem_cons_self
      exact (hscoped.services effect found hfound ctx label name hpending).2.2
    have hstart := hscoped.start (some (.woken woken ctx.fiber name)) hdisposal
      fun ids provider other heq => by
        cases heq
        exact hforeign
    exact hstart.congr_rest rfl rfl (fun _ => mem_of_mem_filter) rfl
  | child hdisposal hdata => exact (hscoped.retire hdata).start _ hdisposal (by simp)
  | joinChild hdisposal => exact hscoped.start _ hdisposal (by simp)
  | @wake effect left fiber rest provider name hdisposal =>
    refine hscoped.proceed hdisposal (fun _ hmem => hmem) fun ids provider' other heq => ?_
    cases heq
    exact hscoped.woken effect left _ provider name hdisposal
  | @removed _ _ provider name hdisposal =>
    have hbase : Scoped owner (app.modifyFiber provider (removeOwn name)) :=
      hscoped.modifyFiber provider _ fun _ _ => ⟨rfl, rfl⟩
    exact hbase.proceed hdisposal (fun _ hmem => hmem) (by simp)
  | @childDisposed _ _ child hdisposal =>
    have hbase : Scoped owner (app.modifyFiber child (FiberData.withState .disposed)) :=
      hscoped.modifyFiber child _ fun _ _ => ⟨rfl, rfl⟩
    exact hbase.proceed hdisposal (fun _ hmem => hmem) (by simp)
  | userDisposed hdisposal => exact hscoped.proceed hdisposal (fun _ hmem => hmem) (by simp)

end

theorem step (hscoped : Scoped owner app) (hregistry : Registry app) {host : Host}
    {action : Action} (hrespects : RespectsScopes owner app action)
    (hstep : step host app action = some app') : Scoped owner app' := by
  obtain ⟨app₁, hchange, hnotified⟩ := step_change host hregistry.rested hstep
  exact (hscoped.change hrespects hchange).notified hnotified

end Scoped

end Cordis

end Keel
