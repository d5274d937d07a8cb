import Keel.Dsh.ScopedCoherence

/-! # The view of a scoped registry

However registrations are made, fail and are disposed of, a scope shows a layer exactly while
a registration of it is live, and every read is what a new registry shows after the live
registrations alone, in their order. This needs actions that add something: a live
registration keeps its layer by what it holds there.
-/

namespace Keel.Scoped

open List

variable {κ V : Type}

section Replay

/-- What readers of two registries see is the same. -/
structure SameView (first second : ScopedLayers κ V) : Prop where
  global : first.global.view = second.global.view
  peek : ∀ scope, (first.peek scope).map Layer.view = (second.peek scope).map Layer.view
  chain : ∀ tree scope, (first.chainLayers tree scope).map Layer.view =
    (second.chainLayers tree scope).map Layer.view
  merge : ∀ tree scope table, first.merge tree scope table = second.merge tree scope table

/-- Every read goes through the global layer and the layers of single scopes. -/
theorem SameView.of_peek {first second : ScopedLayers κ V}
    (hglobal : first.global.view = second.global.view)
    (hpeek : ∀ scope, (first.peek scope).map Layer.view = (second.peek scope).map Layer.view) :
    SameView first second := by
  have hchain : ∀ tree scope, (first.chainLayers tree scope).map Layer.view =
      (second.chainLayers tree scope).map Layer.view := by
    intro tree scope
    simp only [ScopedLayers.chainLayers, map_filterMap, hpeek]
  refine ⟨hglobal, hpeek, hchain, ?_⟩
  intro tree scope table
  have hmerge : ∀ registry : ScopedLayers κ V, registry.merge tree scope table =
      ((registry.chainLayers tree scope).map Layer.view).foldl
        (fun merged view => (view.named table).foldl shadow merged)
        (registry.global.view.named table) := by
    intro registry
    rw [foldl_map]
    rfl
  rw [hmerge first, hmerge second, hchain, hglobal]

variable [DecidableEq κ]

variable {registry : ScopedLayers κ V}

/-- A scope shows what its live registrations insert, and nothing without one. -/
theorem Coherent.peek (hregistry : Coherent registry)
    (hoccupied : Occupied registry) (key : ScopeKey) :
    (registry.peek (some key)).map Layer.view =
      if (insertionsOf registry.handles (some key)).isEmpty then none
      else some (viewOf (insertionsOf registry.handles (some key))) := by
  cases hoverlay : registry.overlays key with
  | none =>
    have hnil : insertionsOf registry.handles (some key) = [] := by
      by_contra hne
      obtain ⟨handle, hlive, hscope⟩ := hregistry.insertionsOf_ne_nil.mp hne
      have hown := hregistry.shown handle hlive
      rw [hscope] at hown
      exact Option.some_ne_none _ (hown.symm.trans hoverlay)
    simp [ScopedLayers.peek, hoverlay, hnil]
  | some layer =>
    have hshows : registry.Shows layer (some key) := hoverlay
    have hne : insertionsOf registry.handles (some key) ≠ [] := by
      rw [← hregistry.placedIn_insertion hshows]
      intro hnil
      exact hoccupied key layer hoverlay (map_eq_nil_iff.mp hnil)
    have hview := hregistry.view_eq hshows
    simp [ScopedLayers.peek, hoverlay, hne, hview]

theorem SameView.of_insertions {first second : ScopedLayers κ V} (hfirst : Coherent first)
    (hfirstFull : Occupied first) (hsecond : Coherent second) (hsecondFull : Occupied second)
    (hsame : ∀ scope, insertionsOf first.handles scope = insertionsOf second.handles scope) :
    SameView first second := by
  apply SameView.of_peek
  · have hfirstShows : first.Shows 0 none := rfl
    have hsecondShows : second.Shows 0 none := rfl
    rw [ScopedLayers.global, ScopedLayers.global, hfirst.view_eq hfirstShows,
      hsecond.view_eq hsecondShows, hsame]
  · intro scope
    cases scope with
    | none => rfl
    | some key => rw [hfirst.peek hfirstFull, hsecond.peek hsecondFull, hsame]

theorem Coherent.names (hregistry : Coherent registry) (scope : Option ScopeKey) (table : κ) :
    ((namedAt table (insertionsOf registry.handles scope)).map Prod.fst).Nodup := by
  by_cases hne : insertionsOf registry.handles scope = []
  · rw [hne]
    exact nodup_nil
  · obtain ⟨handle, hlive, rfl⟩ := hregistry.insertionsOf_ne_nil.mp hne
    have hshows := hregistry.shown handle hlive
    rw [← hregistry.placedIn_insertion hshows]
    exact (hregistry.layers handle.layer).names table

variable [Fintype κ]

/-- The registration of a handle, with nothing that fails. -/
def Handle.registration (handle : Handle κ V) : Registration κ V where
  scope := handle.scope
  action := { insertions := handle.insertions }

/-- Register the handles' actions one after another; every one has to stand. -/
def replayFrom : ScopedLayers κ V → List (Handle κ V) → Option (ScopedLayers κ V)
  | registry, [] => some registry
  | registry, handle :: rest =>
    match registry.effect handle.registration with
    | (_, false) => none
    | (next, true) => replayFrom next rest

/-- A new registry with these registrations. -/
def replay (handles : List (Handle κ V)) : Option (ScopedLayers κ V) := replayFrom {} handles

theorem Coherent.effect_stands (hregistry : Coherent registry)
    {handle : Handle κ V}
    (hnames : ∀ table,
      ((namedAt table (insertionsOf registry.handles handle.scope ++ handle.insertions)).map
        Prod.fst).Nodup) :
    (registry.effect handle.registration).2 = true := by
  have hattach : ∀ {target : ScopedLayers κ V}, Coherent target →
      target.handles = registry.handles → ∀ layer created, target.Shows layer handle.scope →
      (target.attach handle.registration layer created).2 = true := by
    intro target htarget hhandles layer created hshows
    have hmade := (htarget.layers layer).runInsertions_isSome
      handle.insertions [] (by rw [htarget.placedIn_insertion hshows, hhandles]; exact hnames)
    obtain ⟨made, hmade⟩ := Option.isSome_iff_exists.mp hmade
    unfold ScopedLayers.attach Action.run
    generalize hrun : runInsertions (target.layers layer) handle.registration.action.insertions [] =
      outcome
    obtain ⟨changed, result⟩ := outcome
    obtain rfl : result = some made := (congrArg Prod.snd hrun).symm.trans hmade
    simp [Handle.registration]
  unfold ScopedLayers.effect
  simp only [Handle.registration, Bool.false_eq_true, if_false]
  split
  next hscope => exact hattach hregistry rfl 0 false (hscope ▸ rfl)
  next key hscope =>
    split
    next layer hoverlay => exact hattach hregistry rfl layer false (hscope ▸ hoverlay)
    next hoverlay =>
      obtain ⟨hcreated, -⟩ := hregistry.create hoverlay
      exact hattach hcreated rfl _ true (hscope ▸ registry.create_overlays_self key)

/-- Replaying handles whose names are their own gives a registry that shows them. -/
theorem replayFrom_spec (handles : List (Handle κ V))
    (hregistry : Coherent registry) (hoccupied : Occupied registry)
    (hlive : ∀ handle ∈ handles, handle.disposed = false ∧ handle.undos ≠ [])
    (hnames : ∀ scope table,
      ((namedAt table (insertionsOf registry.handles scope ++ insertionsOf handles scope)).map
        Prod.fst).Nodup) :
    ∃ final, replayFrom registry handles = some final ∧ Coherent final ∧ Occupied final ∧
      ∀ scope, insertionsOf final.handles scope =
        insertionsOf registry.handles scope ++ insertionsOf handles scope := by
  induction handles generalizing registry with
  | nil => exact ⟨registry, rfl, hregistry, hoccupied, fun scope => (append_nil _).symm⟩
  | cons handle rest ih =>
    obtain ⟨hactive, hundos⟩ := hlive handle mem_cons_self
    have hcons : ∀ scope, insertionsOf (handle :: rest) scope =
        insertionsOf [handle] scope ++ insertionsOf rest scope := by
      intro scope
      rw [← insertionsOf_append, singleton_append]
    have hstands : (registry.effect handle.registration).2 = true := by
      apply hregistry.effect_stands
      intro table
      have hscope := hnames handle.scope table
      rw [hcons, insertionsOf_singleton hactive, if_pos rfl, ← append_assoc,
        namedAt_append, map_append] at hscope
      exact (nodup_append.mp hscope).1
    have hadds : handle.registration.action.Adds := by
      intro _ hnil
      exact hundos (map_eq_nil_iff.mp (map_eq_nil_iff.mp hnil))
    obtain ⟨hnext, hfull, hregisters⟩ := hregistry.effect hoccupied hadds
    rcases hregisters with ⟨hfailed, -⟩ | ⟨-, registered, hhandles, hnew, hscope, hinsertions⟩
    · exact absurd (hfailed.symm.trans hstands) Bool.false_ne_true
    · have hgrown : ∀ scope,
          insertionsOf (registry.effect handle.registration).1.handles scope =
            insertionsOf registry.handles scope ++ insertionsOf [handle] scope := by
        intro scope
        rw [hhandles, insertionsOf_append, insertionsOf_singleton hnew,
          insertionsOf_singleton hactive, hscope, hinsertions]
        rfl
      have hrest := ih hnext hfull (fun other hmem => hlive other (mem_cons_of_mem _ hmem)) (by
        intro scope table
        rw [hgrown, append_assoc, ← hcons]
        exact hnames scope table)
      obtain ⟨final, hfinal, hcoherent, hoccupied, hshown⟩ := hrest
      refine ⟨final, ?_, hcoherent, hoccupied, ?_⟩
      · rw [replayFrom]
        generalize registry.effect handle.registration = result at hstands hfinal
        obtain ⟨next, stands⟩ := result
        obtain rfl : stands = true := hstands
        exact hfinal
      · intro scope
        rw [hshown, hgrown, append_assoc, ← hcons]

/-- In every run whose successful actions add something, a scope shows a layer exactly while
a registration of it is live, every read is what a new registry with only the live
registrations, in their order, gives, and a registration that fails changes no read. -/
theorem scoped_view_eq_replay {calls : List (Call κ V)} {registry : ScopedLayers κ V}
    (hadds : ∀ registration, .effect registration ∈ calls → registration.action.Adds)
    (hrun : Trace.run step {} calls = some registry) :
    (∀ key, (registry.peek (some key)).isSome = true ↔
        ∃ handle ∈ registry.live, handle.scope = some key) ∧
      (∃ fresh, replay registry.live = some fresh ∧ SameView registry fresh) ∧
      ∀ registration : Registration κ V, registration.action.Adds →
        (registry.effect registration).2 = false →
        SameView (registry.effect registration).1 registry := by
  have hguarded : Trace.Guarded step
      (fun _ call => ∀ registration, call = Call.effect registration → registration.action.Adds)
      ({} : ScopedLayers κ V) calls := by
    apply Trace.Guarded.of_forall_mem
    rintro call hcall - registration rfl
    exact hadds registration hcall
  have hpreserved : ∀ (before : ScopedLayers κ V) (call : Call κ V) (after : ScopedLayers κ V),
      Coherent before ∧ Occupied before →
      (∀ registration, call = .effect registration → registration.action.Adds) →
      step before call = some after → Coherent after ∧ Occupied after := by
    rintro before call after ⟨hbefore, hfull⟩ hcall hstep
    cases call with
    | effect registration =>
      cases hstep
      obtain ⟨hafter, hoccupied, -⟩ := hbefore.effect hfull (hcall registration rfl)
      exact ⟨hafter, hoccupied⟩
    | dispose index =>
      cases hstep
      exact hbefore.dispose hfull index
  obtain ⟨hregistry, hoccupied⟩ :=
    Trace.guarded_invariant hpreserved ⟨coherent_new, occupied_new⟩ hguarded hrun
  refine ⟨?_, ?_, ?_⟩
  · intro key
    rw [← hregistry.insertionsOf_ne_nil, ← Option.isSome_map (f := Layer.view),
      hregistry.peek hoccupied]
    split
    next hempty => simpa using hempty
    next hempty => simpa using hempty
  · have hself : ∀ scope, insertionsOf registry.live scope = insertionsOf registry.handles scope := by
      intro scope
      simp [insertionsOf, ScopedLayers.live, liveOf]
    obtain ⟨fresh, hfresh, hcoherent, hfull, hshown⟩ := replayFrom_spec registry.live
      coherent_new occupied_new
      (fun handle hlive => ⟨(mem_liveOf.1 hlive).2, hregistry.adds handle hlive⟩)
      (fun scope table => by
        rw [hself]
        exact hregistry.names scope table)
    refine ⟨fresh, hfresh, SameView.of_insertions hregistry hoccupied hcoherent hfull ?_⟩
    intro scope
    rw [hshown, hself]
    rfl
  · intro registration hregistration hfailed
    obtain ⟨hafter, hfull, hregisters⟩ := hregistry.effect hoccupied hregistration
    rcases hregisters with ⟨-, hhandles⟩ | ⟨hstands, -⟩
    · apply SameView.of_insertions hafter hfull hregistry hoccupied
      intro scope
      rw [hhandles]
    · exact absurd (hfailed.symm.trans hstands) Bool.false_ne_true

/-- A prompt section registered in a scope and globally; the scoped one is then disposed. -/
def shadowedCalls : List (Call Unit Nat) :=
  [.effect { scope := some 1, action := { insertions := [.insert () "persona" 1] } },
    .effect { scope := none, action := { insertions := [.insert () "persona" 2] } },
    .dispose 0]

theorem scoped_view_eq_replay_shadowed :
    ∃ registry fresh, Trace.run step {} shadowedCalls = some registry ∧
      replay registry.live = some fresh ∧ SameView registry fresh := by
  have hadds : ∀ registration, .effect registration ∈ shadowedCalls → registration.action.Adds := by
    intro registration hmem _
    simp only [shadowedCalls, mem_cons, Call.effect.injEq, reduceCtorEq, not_mem_nil,
      or_false] at hmem
    rcases hmem with rfl | rfl <;> exact cons_ne_nil _ _
  obtain ⟨fresh, hfresh, hview⟩ := (scoped_view_eq_replay hadds rfl).2.1
  exact ⟨_, fresh, rfl, hfresh, hview⟩

/-- An action that inserts nothing makes a registration without a hold on its layer. When
another one leaves the layer empty the scope loses it, and disposing the first then takes
away the layer that the scope got in the meantime. -/
def idleCalls : List (Call Unit Nat) :=
  [.effect { scope := some 1, action := { insertions := [] } },
    .effect { scope := some 1, action := { insertions := [.insert () "persona" 1] } },
    .dispose 1,
    .effect { scope := some 1, action := { insertions := [.insert () "persona" 2] } },
    .dispose 0]

theorem idle_registration_hides_scope :
    ∃ registry, Trace.run step {} idleCalls = some registry ∧
      registry.live.map Handle.scope = [some 1] ∧
      (registry.peek (some 1)).isSome = false := by
  exact ⟨_, rfl, rfl, rfl⟩

end Replay

end Keel.Scoped
