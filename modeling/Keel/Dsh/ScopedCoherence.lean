import Keel.Dsh.LayerTables

/-! # The layers behind a scoped registry

Every layer holds what its live registrations placed there, every live registration is in
the layer its scope shows, and a shown layer is never empty. Attempts that stand or fail and
disposals in any order keep it so.
-/

namespace Keel.Scoped

open List Function

variable {κ V : Type}

def Handle.placed (handle : Handle κ V) : List (Placed κ V) := handle.undos.map Undo.placed

def Handle.insertions (handle : Handle κ V) : List (Insertion κ V) :=
  handle.placed.map Placed.insertion

/-- The registrations that have not been disposed of, in order. -/
def liveOf (handles : List (Handle κ V)) : List (Handle κ V) :=
  handles.filter fun handle => !handle.disposed

def ScopedLayers.live (registry : ScopedLayers κ V) : List (Handle κ V) := liveOf registry.handles

/-- What the live registrations hold in a layer. -/
def placedIn (handles : List (Handle κ V)) (layer : Nat) : List (Placed κ V) :=
  ((liveOf handles).filter fun handle => handle.layer = layer).flatMap Handle.placed

/-- What the live registrations of a scope insert. -/
def insertionsOf (handles : List (Handle κ V)) (scope : Option ScopeKey) :
    List (Insertion κ V) :=
  ((liveOf handles).filter fun handle => handle.scope = scope).flatMap Handle.insertions

section
variable (first second : List (Handle κ V))
include first second

@[simp] theorem liveOf_append :
    liveOf (first ++ second) = liveOf first ++ liveOf second := filter_append ..

@[simp] theorem placedIn_append (layer : Nat) :
    placedIn (first ++ second) layer = placedIn first layer ++ placedIn second layer := by
  simp [placedIn]

@[simp] theorem insertionsOf_append (scope : Option ScopeKey) :
    insertionsOf (first ++ second) scope = insertionsOf first scope ++ insertionsOf second scope := by
  simp [insertionsOf]

end

variable {handle : Handle κ V} {key other : ScopeKey}

theorem placedIn_singleton (hlive : handle.disposed = false) (layer : Nat) :
    placedIn [handle] layer = if handle.layer = layer then handle.placed else [] := by
  by_cases hlayer : handle.layer = layer
  · simp [placedIn, liveOf, hlive, hlayer]
  · simp [placedIn, liveOf, hlive, hlayer]

theorem insertionsOf_singleton (hlive : handle.disposed = false) (scope : Option ScopeKey) :
    insertionsOf [handle] scope = if handle.scope = scope then handle.insertions else [] := by
  by_cases hscope : handle.scope = scope
  · simp [insertionsOf, liveOf, hlive, hscope]
  · simp [insertionsOf, liveOf, hlive, hscope]

theorem mem_liveOf {handles : List (Handle κ V)} :
    handle ∈ liveOf handles ↔ handle ∈ handles ∧ handle.disposed = false := by
  simp [liveOf]

section
variable (registry : ScopedLayers κ V)
include registry

@[simp] theorem putLayer_layers_self (layer : Nat) (value : Layer κ V) :
    (registry.putLayer layer value).layers layer = value := update_self ..

@[simp] theorem putLayer_putLayer (layer : Nat) (first second : Layer κ V) :
    (registry.putLayer layer first).putLayer layer second = registry.putLayer layer second := by
  simp [ScopedLayers.putLayer]

theorem ScopedLayers.create_overlays_self (key : ScopeKey) :
    (registry.create key).overlays key = some registry.nextLayer := update_self ..

theorem ScopedLayers.create_overlays_of_ne (hne : other ≠ key) :
    (registry.create key).overlays other = registry.overlays other :=
  update_of_ne hne ..

theorem ScopedLayers.forget_overlays_self (key : ScopeKey) :
    (registry.forget (some key)).overlays key = none := update_self ..

theorem ScopedLayers.forget_overlays_of_ne (hne : other ≠ key) :
    (registry.forget (some key)).overlays other = registry.overlays other :=
  update_of_ne hne ..

theorem ScopedLayers.overlays_of_forget {layer : Nat}
    (hoverlay : (registry.forget (some key)).overlays other = some layer) :
    other ≠ key ∧ registry.overlays other = some layer := by
  have hne : other ≠ key := by
    rintro rfl
    exact Option.some_ne_none _ (hoverlay.symm.trans (registry.forget_overlays_self other))
  exact ⟨hne, (registry.forget_overlays_of_ne hne).symm.trans hoverlay⟩

@[simp] theorem putLayer_handles (layer : Nat) (value : Layer κ V) :
    (registry.putLayer layer value).handles = registry.handles := rfl

end

section Invariant

variable [DecidableEq κ]

/-- The layer that a scope's registrations go to. -/
def ScopedLayers.Shows (registry : ScopedLayers κ V) (layer : Nat) : Option ScopeKey → Prop
  | none => layer = 0
  | some key => registry.overlays key = some layer

/-- Every layer holds what its live registrations placed there, and every live registration
is in the layer that its scope shows. -/
structure Coherent (registry : ScopedLayers κ V) : Prop where
  layers : ∀ layer, (registry.layers layer).Holds (placedIn registry.handles layer)
  active : ∀ handle ∈ registry.live, ∀ undo ∈ handle.undos, undo.active = true
  adds : ∀ handle ∈ registry.live, handle.undos ≠ []
  shown : ∀ handle ∈ registry.live, registry.Shows handle.layer handle.scope
  overlay : ∀ key layer, registry.overlays key = some layer → 0 < layer ∧ layer < registry.nextLayer
  distinct : ∀ key other layer, registry.overlays key = some layer →
    registry.overlays other = some layer → key = other
  next : 0 < registry.nextLayer

/-- Every layer a scope shows holds something. -/
def Occupied (registry : ScopedLayers κ V) : Prop :=
  ∀ key layer, registry.overlays key = some layer → placedIn registry.handles layer ≠ []

theorem coherent_new : Coherent ({} : ScopedLayers κ V) where
  layers := fun _ => holds_empty
  active := nofun
  adds := nofun
  shown := nofun
  overlay := nofun
  distinct := nofun
  next := Nat.one_pos

omit [DecidableEq κ] in
theorem occupied_new : Occupied ({} : ScopedLayers κ V) := nofun

namespace Coherent

variable {registry : ScopedLayers κ V}

variable {handle : Handle κ V} {layer : Nat} {scope : Option ScopeKey}

variable (hregistry : Coherent registry)
include hregistry

theorem placed_ne_nil (hlive : handle ∈ registry.live) : handle.placed ≠ [] := by
  intro hnil
  exact hregistry.adds handle hlive (map_eq_nil_iff.mp hnil)

theorem placedIn_ne_nil (hlive : handle ∈ registry.live) :
    placedIn registry.handles handle.layer ≠ [] := by
  intro hnil
  rw [placedIn, flatMap_eq_nil_iff] at hnil
  exact hregistry.placed_ne_nil hlive (hnil handle (mem_filter.mpr ⟨hlive, by simp⟩))

theorem layer_iff_scope (hlive : handle ∈ registry.live) (hshows : registry.Shows layer scope) :
    handle.layer = layer ↔ handle.scope = scope := by
  have hown := hregistry.shown handle hlive
  constructor
  · rintro rfl
    cases hscope : handle.scope with
    | none =>
      rw [hscope] at hown
      cases scope with
      | none => rfl
      | some key =>
        have hoverlay := (hregistry.overlay key _ hshows).1
        exact absurd hown (Nat.pos_iff_ne_zero.mp hoverlay)
    | some key =>
      rw [hscope] at hown
      cases scope with
      | none =>
        have hoverlay := (hregistry.overlay key _ hown).1
        exact absurd hshows (Nat.pos_iff_ne_zero.mp hoverlay)
      | some other => rw [hregistry.distinct key other _ hown hshows]
  · rintro rfl
    cases hscope : handle.scope with
    | none =>
      rw [hscope] at hown hshows
      exact hown.trans hshows.symm
    | some key =>
      rw [hscope] at hown hshows
      exact Option.mem_unique hown hshows

/-- What a shown layer holds is what its scope's live registrations insert. -/
theorem placedIn_insertion (hshows : registry.Shows layer scope) :
    (placedIn registry.handles layer).map Placed.insertion =
      insertionsOf registry.handles scope := by
  have hsame : ((liveOf registry.handles).filter fun handle => handle.layer = layer) =
      (liveOf registry.handles).filter fun handle => handle.scope = scope := by
    apply filter_congr
    intro handle hlive
    exact decide_eq_decide.mpr (hregistry.layer_iff_scope hlive hshows)
  rw [placedIn, insertionsOf, hsame, map_flatMap]
  rfl

theorem view_eq (hshows : registry.Shows layer scope) :
    (registry.layers layer).view = viewOf (insertionsOf registry.handles scope) := by
  rw [(hregistry.layers layer).view_eq, hregistry.placedIn_insertion hshows]

theorem insertionsOf_ne_nil :
    insertionsOf registry.handles scope ≠ [] ↔ ∃ handle ∈ registry.live, handle.scope = scope := by
  rw [insertionsOf, ne_eq, flatMap_eq_nil_iff]
  simp only [mem_filter, decide_eq_true_eq, not_forall]
  constructor
  · rintro ⟨handle, ⟨hlive, hscope⟩, -⟩
    exact ⟨handle, hlive, hscope⟩
  · rintro ⟨handle, hlive, hscope⟩
    refine ⟨handle, ⟨hlive, hscope⟩, ?_⟩
    intro hnil
    exact hregistry.placed_ne_nil hlive (map_eq_nil_iff.mp hnil)

theorem putLayer {value : Layer κ V} (hvalue : value.Holds (placedIn registry.handles layer)) :
    Coherent (registry.putLayer layer value) :=
  { hregistry with
    layers := by
      intro other
      by_cases hother : other = layer
      · subst hother
        simpa [ScopedLayers.putLayer] using hvalue
      · simpa [ScopedLayers.putLayer, hother] using hregistry.layers other }

theorem forget (hshows : registry.Shows layer scope) (hempty : placedIn registry.handles layer = []) :
    Coherent (registry.forget scope) := by
  cases scope with
  | none => exact hregistry
  | some key =>
    refine { hregistry with shown := ?_, overlay := ?_, distinct := ?_ }
    · intro handle hlive
      have hother : handle.scope ≠ some key := by
        intro hscope
        have hlayer := (hregistry.layer_iff_scope hlive hshows).mpr hscope
        exact hregistry.placedIn_ne_nil hlive (hlayer ▸ hempty)
      have hown := hregistry.shown handle hlive
      cases hscope : handle.scope with
      | none =>
        rw [hscope] at hown
        exact hown
      | some own =>
        have hne : own ≠ key := by
          rintro rfl
          exact hother hscope
        rw [hscope] at hown
        exact (registry.forget_overlays_of_ne hne).trans hown
    · intro other found hfound
      exact hregistry.overlay other found (registry.overlays_of_forget hfound).2
    · intro first second found hfirst hsecond
      exact hregistry.distinct first second found (registry.overlays_of_forget hfirst).2
        (registry.overlays_of_forget hsecond).2

end Coherent

/-- Every layer a scope shows holds something, except perhaps the given one. -/
def OccupiedBut (registry : ScopedLayers κ V) (layer : Nat) : Prop :=
  ∀ key other, registry.overlays key = some other → other ≠ layer →
    placedIn registry.handles other ≠ []

omit [DecidableEq κ] in
theorem Occupied.but {registry : ScopedLayers κ V} (hoccupied : Occupied registry) (layer : Nat) :
    OccupiedBut registry layer := fun key other hoverlay _ => hoccupied key other hoverlay

theorem Coherent.create {registry : ScopedLayers κ V} (hregistry : Coherent registry)
    {key : ScopeKey} (hnone : registry.overlays key = none) :
    Coherent (registry.create key) ∧ placedIn registry.handles registry.nextLayer = [] := by
  have hold : ∀ handle ∈ registry.live, handle.layer < registry.nextLayer := by
    intro handle hlive
    have hown := hregistry.shown handle hlive
    cases hscope : handle.scope with
    | none =>
      rw [hscope] at hown
      rw [show handle.layer = 0 from hown]
      exact hregistry.next
    | some own =>
      rw [hscope] at hown
      exact (hregistry.overlay own _ hown).2
  have hfresh : placedIn registry.handles registry.nextLayer = [] := by
    rw [placedIn, flatMap_eq_nil_iff]
    intro handle hhandle
    rw [mem_filter, decide_eq_true_eq] at hhandle
    exact absurd hhandle.2 (hold handle hhandle.1).ne
  refine ⟨{ hregistry with
    layers := ?_, shown := ?_, overlay := ?_, distinct := ?_, next := Nat.succ_pos _ }, hfresh⟩
  · intro layer
    by_cases hlayer : layer = registry.nextLayer
    · subst hlayer
      have hempty : ({} : Layer κ V).Holds (placedIn registry.handles registry.nextLayer) := by
        rw [hfresh]
        exact holds_empty
      simpa [ScopedLayers.create, ScopedLayers.putLayer] using hempty
    · simpa [ScopedLayers.create, ScopedLayers.putLayer, hlayer] using hregistry.layers layer
  · intro handle hlive
    have hown := hregistry.shown handle hlive
    cases hscope : handle.scope with
    | none =>
      rw [hscope] at hown
      exact hown
    | some own =>
      rw [hscope] at hown
      have hne : own ≠ key := by
        rintro rfl
        exact Option.some_ne_none _ (hown.symm.trans hnone)
      exact (registry.create_overlays_of_ne hne).trans hown
  · intro other layer hoverlay
    by_cases hkey : other = key
    · subst hkey
      obtain rfl := Option.some.inj ((registry.create_overlays_self other).symm.trans hoverlay)
      exact ⟨hregistry.next, Nat.lt_succ_self _⟩
    · have hbefore := hregistry.overlay other layer
        ((registry.create_overlays_of_ne hkey).symm.trans hoverlay)
      exact ⟨hbefore.1, hbefore.2.trans (Nat.lt_succ_self _)⟩
  · intro first second layer hfirst hsecond
    have hbelow : ∀ other, other ≠ key →
        (registry.create key).overlays other = some layer → layer ≠ registry.nextLayer := by
      intro other hkey hother
      exact (hregistry.overlay other layer
        ((registry.create_overlays_of_ne hkey).symm.trans hother)).2.ne
    have hself : (registry.create key).overlays key = some layer → layer = registry.nextLayer := by
      intro hkey
      exact Option.some.inj (hkey.symm.trans (registry.create_overlays_self key))
    by_cases hkey : first = key
    · by_cases hkey' : second = key
      · rw [hkey, hkey']
      · exact absurd (hself (hkey ▸ hfirst)) (hbelow second hkey' hsecond)
    · by_cases hkey' : second = key
      · exact absurd (hself (hkey' ▸ hsecond)) (hbelow first hkey hfirst)
      · exact hregistry.distinct first second layer
          ((registry.create_overlays_of_ne hkey).symm.trans hfirst)
          ((registry.create_overlays_of_ne hkey').symm.trans hsecond)

theorem Coherent.register {registry : ScopedLayers κ V} (hregistry : Coherent registry)
    {layer : Nat} {scope : Option ScopeKey}
    (hshows : registry.Shows layer scope) (hoccupied : OccupiedBut registry layer)
    {value : Layer κ V} {made : List (Undo κ V)} (hactive : ∀ undo ∈ made, undo.active = true)
    (hmade : made ≠ [])
    (hvalue : value.Holds (placedIn registry.handles layer ++ made.map Undo.placed)) :
    let registered := { registry.putLayer layer value with
      handles := registry.handles ++ [{ scope, layer, undos := made }] }
    Coherent registered ∧ Occupied registered := by
  dsimp only
  have hplaced : ∀ other,
      placedIn (registry.handles ++ [{ scope, layer, undos := made }]) other =
        placedIn registry.handles other ++ if layer = other then made.map Undo.placed else [] := by
    intro other
    rw [placedIn_append, placedIn_singleton rfl]
    rfl
  have hlive : ∀ handle : Handle κ V,
      handle ∈ liveOf (registry.handles ++ [{ scope, layer, undos := made }]) →
        handle ∈ registry.live ∨ handle = { scope, layer, undos := made } := by
    intro handle hhandle
    rw [liveOf_append, mem_append] at hhandle
    refine hhandle.imp_right fun hnew => ?_
    exact mem_singleton.mp (mem_liveOf.1 hnew).1
  constructor
  · refine { hregistry with layers := ?_, active := ?_, adds := ?_, shown := ?_ }
    · intro other
      rw [hplaced]
      by_cases hother : other = layer
      · subst hother
        simpa [ScopedLayers.putLayer] using hvalue
      · simpa [ScopedLayers.putLayer, hother, Ne.symm hother] using hregistry.layers other
    · intro handle hhandle
      rcases hlive handle hhandle with hold | rfl
      · exact hregistry.active handle hold
      · exact hactive
    · intro handle hhandle
      rcases hlive handle hhandle with hold | rfl
      · exact hregistry.adds handle hold
      · exact hmade
    · intro handle hhandle
      rcases hlive handle hhandle with hold | rfl
      · have hown := hregistry.shown handle hold
        cases hscope : handle.scope with
        | none | some key => exact hscope ▸ hown
      · cases scope with
        | none | some key => exact hshows
  · intro key other hoverlay
    rw [hplaced]
    by_cases hother : other = layer
    · subst hother
      simp [hmade]
    · intro hnil
      exact hoccupied key other hoverlay hother (append_eq_nil_iff.mp hnil).1

def Handle.spent (handle : Handle κ V) : Handle κ V :=
  { handle with undos := handle.undos.map Undo.spent, disposed := true }

theorem Coherent.spend {registry : ScopedLayers κ V} (hregistry : Coherent registry)
    (hoccupied : Occupied registry) {index : Nat} {handle : Handle κ V}
    (hindex : registry.handles[index]? = some handle) (hlive : handle ∈ registry.live) :
    let undone := { registry with handles := registry.handles.set index handle.spent }.putLayer
      handle.layer (undoAll (registry.layers handle.layer) handle.undos)
    Coherent undone ∧ OccupiedBut undone handle.layer := by
  dsimp only
  obtain ⟨hlt, hget⟩ := List.getElem?_eq_some_iff.mp hindex
  have hactive : handle.disposed = false := (mem_liveOf.1 hlive).2
  have hsplit : registry.handles =
      registry.handles.take index ++ [handle] ++ registry.handles.drop (index + 1) := by
    rw [List.append_assoc, List.singleton_append, ← hget, ← List.drop_eq_getElem_cons hlt,
      List.take_append_drop]
  have hset : registry.handles.set index handle.spent =
      registry.handles.take index ++ [handle.spent] ++ registry.handles.drop (index + 1) := by
    rw [List.set_eq_take_append_cons_drop, if_pos hlt, List.append_assoc, List.singleton_append]
  generalize registry.handles.take index = before at hsplit hset
  generalize registry.handles.drop (index + 1) = after at hsplit hset
  have hspent : ∀ layer, placedIn [handle.spent] layer = [] := fun _ => rfl
  have hlayers := hregistry.layers
  simp only [hsplit, placedIn_append, placedIn_singleton hactive] at hlayers
  have hkept : ∀ other : Handle κ V, other ∈ liveOf (before ++ [handle.spent] ++ after) →
      other ∈ registry.live := by
    intro other hother
    rw [ScopedLayers.live, hsplit]
    simp only [liveOf_append, List.mem_append] at hother ⊢
    refine hother.imp_left fun hfirst => ?_
    refine hfirst.imp_right fun hnone => ?_
    cases hnone
  rw [hset]
  refine ⟨{ hregistry with layers := ?_, active := ?_, adds := ?_, shown := ?_ }, ?_⟩
  · intro layer
    simp only [ScopedLayers.putLayer, placedIn_append, hspent, List.append_nil]
    by_cases hlayer : layer = handle.layer
    · subst hlayer
      rw [update_self]
      have hheld := hlayers handle.layer
      rw [if_pos rfl] at hheld
      exact Layer.Holds.undoAll _ (hregistry.active handle hlive) hheld
    · rw [update_of_ne hlayer]
      have hheld := hlayers layer
      rwa [if_neg (Ne.symm hlayer), List.append_nil] at hheld
  · exact fun other hother => hregistry.active other (hkept other hother)
  · exact fun other hother => hregistry.adds other (hkept other hother)
  · intro other hother
    have hown := hregistry.shown other (hkept other hother)
    cases hscope : other.scope with
    | none | some key => exact hscope ▸ hown
  · intro key layer hoverlay hlayer
    have hfull := hoccupied key layer hoverlay
    simp only [hsplit, placedIn_append, placedIn_singleton hactive, if_neg (Ne.symm hlayer),
      List.append_nil] at hfull
    rw [putLayer_handles, placedIn_append, placedIn_append, hspent, List.append_nil]
    exact hfull

section Steps

variable [Fintype κ] {registry : ScopedLayers κ V}

/-- Reclaiming a scope's layer if it is empty leaves every shown layer occupied. -/
theorem Coherent.reclaim (hregistry : Coherent registry) {layer : Nat} {scope : Option ScopeKey}
    (hshows : registry.Shows layer scope) (hoccupied : OccupiedBut registry layer) :
    let reclaimed :=
      if (registry.layers layer).isEmpty then registry.forget scope else registry
    Coherent reclaimed ∧ Occupied reclaimed ∧ reclaimed.handles = registry.handles := by
  dsimp only
  split
  next hisEmpty =>
    have hempty := (hregistry.layers layer).isEmpty_iff.mp hisEmpty
    refine ⟨hregistry.forget hshows hempty, ?_, by cases scope <;> rfl⟩
    cases scope with
    | none =>
      intro key other hoverlay
      apply hoccupied key other hoverlay
      rw [show layer = 0 from hshows]
      exact Nat.pos_iff_ne_zero.mp (hregistry.overlay key other hoverlay).1
    | some own =>
      intro key other hoverlay
      obtain ⟨hkey, hold⟩ := registry.overlays_of_forget hoverlay
      apply hoccupied key other hold
      rintro rfl
      exact hkey (hregistry.distinct key own other hold hshows)
  next hisEmpty =>
    refine ⟨hregistry, ?_, rfl⟩
    intro key other hoverlay
    by_cases hother : other = layer
    · subst hother
      exact fun hempty => hisEmpty ((hregistry.layers other).isEmpty_iff.mpr hempty)
    · exact hoccupied key other hoverlay hother

/-- What a registration attempt does to the handles. -/
def Registers (registration : Registration κ V) (before : ScopedLayers κ V)
    (result : ScopedLayers κ V × Bool) : Prop :=
  (result.2 = false ∧ result.1.handles = before.handles) ∨
    (result.2 = true ∧ ∃ handle : Handle κ V, result.1.handles = before.handles ++ [handle] ∧
      handle.disposed = false ∧ handle.scope = registration.scope ∧
      handle.insertions = registration.action.insertions)

/-- An attempt on the layer its scope shows keeps the registry in order, whether it stands,
its action fails or its notification does. -/
theorem Coherent.attach (hregistry : Coherent registry) {registration : Registration κ V}
    {layer : Nat} {created : Bool} (hadds : registration.action.Adds)
    (hshows : registry.Shows layer registration.scope) (hoccupied : OccupiedBut registry layer)
    (hcreated : created = false → registration.scope = none ∨ placedIn registry.handles layer ≠ []) :
    Coherent (registry.attach registration layer created).1 ∧
      Occupied (registry.attach registration layer created).1 ∧
      Registers registration registry (registry.attach registration layer created) := by
  have hreclaim : ∀ value : Layer κ V, value.Holds (placedIn registry.handles layer) →
      Coherent (if value.isEmpty then (registry.putLayer layer value).forget registration.scope
          else registry.putLayer layer value) ∧
        Occupied (if value.isEmpty then (registry.putLayer layer value).forget registration.scope
          else registry.putLayer layer value) ∧
        (if value.isEmpty then (registry.putLayer layer value).forget registration.scope
          else registry.putLayer layer value).handles = registry.handles := by
    intro value hvalue
    have hshown : (registry.putLayer layer value).Shows layer registration.scope := hshows
    have hkept := (hregistry.putLayer hvalue).reclaim hshown hoccupied
    rw [putLayer_layers_self, putLayer_handles] at hkept
    exact hkept
  unfold ScopedLayers.attach
  rcases (hregistry.layers layer).runAction registration.action with
    ⟨hnone, hheld⟩ | ⟨made, hmade, hstands, hactive, hheld, hinsertions⟩
  · generalize registration.action.run (registry.layers layer) = outcome at hnone hheld
    obtain ⟨changed, result⟩ := outcome
    obtain rfl : result = none := hnone
    have hsame : (if created && changed.isEmpty then
          (registry.putLayer layer changed).forget registration.scope
        else registry.putLayer layer changed) =
        if changed.isEmpty then (registry.putLayer layer changed).forget registration.scope
          else registry.putLayer layer changed := by
      cases created with
      | true => simp
      | false =>
        rcases hcreated rfl with hglobal | hfull
        · rw [hglobal]
          simp [ScopedLayers.forget]
        · have hnotEmpty : ¬ changed.isEmpty = true := fun hempty =>
            hfull (hheld.isEmpty_iff.mp hempty)
          simp [hnotEmpty]
    obtain ⟨hcoherent, hfull, hhandles⟩ := hreclaim changed hheld
    dsimp only
    rw [hsame]
    exact ⟨hcoherent, hfull, .inl ⟨rfl, hhandles⟩⟩
  · generalize registration.action.run (registry.layers layer) = outcome at hmade hheld
    obtain ⟨changed, result⟩ := outcome
    obtain rfl : result = some made := hmade
    dsimp only
    split
    next hnotified =>
      have hback : (undoAll changed made).Holds (placedIn registry.handles layer) := by
        have hundone := Layer.Holds.undoAll [] hactive (by simpa using hheld)
        simpa using hundone
      obtain ⟨hcoherent, hfull, hhandles⟩ := hreclaim _ hback
      simp only [ScopedLayers.rollback, putLayer_layers_self, putLayer_putLayer]
      exact ⟨hcoherent, hfull, .inl ⟨rfl, hhandles⟩⟩
    · have hne : made ≠ [] := by
        rintro rfl
        exact hadds hstands hinsertions.symm
      obtain ⟨hcoherent, hfull⟩ := hregistry.register hshows hoccupied hactive hne hheld
      refine ⟨hcoherent, hfull, .inr ⟨rfl, _, rfl, rfl, rfl, ?_⟩⟩
      rw [Handle.insertions, Handle.placed, map_map]
      exact hinsertions

theorem Coherent.effect (hregistry : Coherent registry) (hoccupied : Occupied registry)
    {registration : Registration κ V} (hadds : registration.action.Adds) :
    Coherent (registry.effect registration).1 ∧ Occupied (registry.effect registration).1 ∧
      Registers registration registry (registry.effect registration) := by
  unfold ScopedLayers.effect
  split
  · exact ⟨hregistry, hoccupied, .inl ⟨rfl, rfl⟩⟩
  · split
    next hscope =>
      have hshows : registry.Shows 0 registration.scope := by
        rw [hscope]
        rfl
      exact hregistry.attach hadds hshows (hoccupied.but 0) fun _ => .inl hscope
    next key hscope =>
      split
      next layer hoverlay =>
        have hshows : registry.Shows layer registration.scope := by
          rw [hscope]
          exact hoverlay
        exact hregistry.attach hadds hshows (hoccupied.but layer) fun _ =>
          .inr (hoccupied key layer hoverlay)
      next hoverlay =>
        split
        · exact ⟨hregistry, hoccupied, .inl ⟨rfl, rfl⟩⟩
        · obtain ⟨hcreated, hfresh⟩ := hregistry.create hoverlay
          have hshows : (registry.create key).Shows registry.nextLayer registration.scope := by
            rw [hscope]
            exact update_self ..
          have hbut : OccupiedBut (registry.create key) registry.nextLayer := by
            intro other layer hother hne
            by_cases hkey : other = key
            · subst hkey
              have hself := (registry.create_overlays_self other).symm.trans hother
              exact absurd (Option.some.inj hself).symm hne
            · exact hoccupied other layer ((registry.create_overlays_of_ne hkey).symm.trans hother)
          exact hcreated.attach hadds hshows hbut nofun

theorem Coherent.dispose (hregistry : Coherent registry) (hoccupied : Occupied registry)
    (index : Nat) :
    Coherent (registry.dispose index) ∧ Occupied (registry.dispose index) := by
  unfold ScopedLayers.dispose
  split
  · exact ⟨hregistry, hoccupied⟩
  next handle hindex =>
    split
    · exact ⟨hregistry, hoccupied⟩
    next hdisposed =>
      have hlive : handle ∈ registry.live :=
        mem_liveOf.2 ⟨mem_of_getElem? hindex, Bool.eq_false_iff.mpr hdisposed⟩
      obtain ⟨hcoherent, hbut⟩ := hregistry.spend hoccupied hindex hlive
      have hshows := hregistry.shown handle hlive
      obtain ⟨hreclaimed, hfull, -⟩ := hcoherent.reclaim
        (show ScopedLayers.Shows _ handle.layer handle.scope by
          cases hscope : handle.scope with
          | none => exact hscope ▸ hshows
          | some key => exact hscope ▸ hshows) hbut
      rw [putLayer_layers_self] at hreclaimed hfull
      unfold ScopedLayers.rollback
      simp only [putLayer_layers_self]
      exact ⟨hreclaimed, hfull⟩

end Steps

end Invariant

end Keel.Scoped
