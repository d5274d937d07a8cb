import Keel.Sync.RoomInbound

/-! # Gaps in what a room sends

A pushed update may depend on one that the room never sent. The session learns of it only
when the import fails, and then joins for everything; an import that succeeds with
operations pending looks like any other.
-/

namespace Keel

namespace RoomInbound

open RoomSync (MAX_INVALID_REJOINS MAX_FULL_RESYNCS)

variable {BatchId Op : Type} [DecidableEq BatchId] [DecidableEq Op]

section Claims

variable (library : Library Op)

/-- The imports of a list of updates, each with the document it leaves and its result. -/
def outcomes : Finset Op → List Bytes → List (Bytes × Finset Op × Except String (Finset Op))
  | _, [] => []
  | doc, update :: rest =>
    if update = [] then outcomes doc rest
    else (update, library.importBytes doc update) ::
      outcomes (library.importBytes doc update).1 rest

/-- An import leaves operations of its update out. -/
def LeavesGap (doc : Finset Op) (updates : List Bytes) : Prop :=
  ∃ entry ∈ outcomes library doc updates, ¬ library.ops entry.1 ⊆ entry.2.1

def Fails (doc : Finset Op) (updates : List Bytes) : Prop :=
  ∃ entry ∈ outcomes library doc updates, ∃ error, entry.2.2 = .error error

/-- The `%LOR` updates that a message makes the session import. -/
def Session.imports (session : Session BatchId Op) : Message BatchId Op → List Bytes
  | .docUpdate .loro updates => updates
  | .docUpdateFragment batchId index fragment =>
    match session.completes batchId index fragment with
    | some (.loro, total) => [total]
    | _ => []
  | _ => []

/-- A join is out whose version has none of the operations that the document lacks, so that its
answer brings them. -/
def WillBackfill (session : Session BatchId Op) : Prop :=
  ∃ version, session.joinSent = some version ∧ ∀ op ∉ session.doc, op ∉ version

/-- A frame whose imports leave a gap leaves a join on its way. -/
def Chases (session : Session BatchId Op) (action : Action BatchId Op) : Prop :=
  ∀ message next, action = .handle message → step library session action = some next →
    session.fullResyncs < MAX_FULL_RESYNCS →
    LeavesGap library session.doc (session.imports message) → WillBackfill next

/-- Where the imports of a frame leave a gap, a join is on its way already or one of them fails. -/
def Reported (session : Session BatchId Op) (action : Action BatchId Op) : Prop :=
  ∀ message, action = .handle message → session.alive = true →
    session.fullResyncs < MAX_FULL_RESYNCS →
    LeavesGap library session.doc (session.imports message) →
    session.joinSent.isSome ∨ Fails library session.doc (session.imports message)

end Claims

section Imports

variable {library : Library Op} {session next : Session BatchId Op}

/-- The version of an outstanding join is behind the document. -/
def Behind (session : Session BatchId Op) : Prop :=
  ∀ version, session.joinSent = some version → version ⊆ session.doc

variable {update : Bytes} {imported : Bool}

theorem fails_cons {doc : Finset Op} {rest : List Bytes} (hupdate : update ≠ []) :
    Fails library doc (update :: rest) ↔
      (∃ error, (library.importBytes doc update).2 = .error error) ∨
        Fails library (library.importBytes doc update).1 rest := by
  simp only [Fails, outcomes, if_neg hupdate, List.mem_cons, or_and_right, exists_or,
    exists_eq_left]

section
omit [DecidableEq BatchId]

theorem importUpdate_ok {pending : Finset Op}
    (hupdate : update ≠ []) (hok : (library.importBytes session.doc update).2 = .ok pending) :
    Session.importUpdate library (session, imported) update =
      ({ session with doc := (library.importBytes session.doc update).1 }, true) := by
  simp only [Session.importUpdate, if_neg hupdate, hok]

theorem importUpdate_error {error : String}
    (hupdate : update ≠ []) (herror : (library.importBytes session.doc update).2 = .error error) :
    Session.importUpdate library (session, imported) update =
      (if session.joinSent.isNone ∧ session.fullResyncs < MAX_FULL_RESYNCS then
        { session with
          doc := (library.importBytes session.doc update).1
          fullResyncs := session.fullResyncs + 1
          joinSent := some ∅
          joinIsProbe := false }
      else { session with doc := (library.importBytes session.doc update).1 }, imported) := by
  simp only [Session.importUpdate, if_neg hupdate, herror]
  split <;> rfl

/-- A join is on its way after some imports if one was before, or one of them failed. -/
theorem isSome_foldl_importUpdate (updates : List Bytes) {imported : Bool}
    (hroom : session.joinSent.isSome ∨ session.fullResyncs < MAX_FULL_RESYNCS) :
    (updates.foldl (Session.importUpdate library) (session, imported)).1.joinSent.isSome ↔
      session.joinSent.isSome ∨ Fails library session.doc updates := by
  induction updates generalizing session imported with
  | nil => simp [Fails, outcomes]
  | cons update rest ih =>
    rw [List.foldl_cons]
    by_cases hupdate : update = []
    · subst hupdate
      simpa [Session.importUpdate, Fails, outcomes] using ih hroom
    · rw [fails_cons hupdate]
      cases hresult : (library.importBytes session.doc update).2 with
      | ok pending =>
        have hrest := @ih { session with doc := (library.importBytes session.doc update).1 } true
          hroom
        rw [importUpdate_ok hupdate hresult, hrest]
        simp only [reduceCtorEq, exists_false, false_or]
      | error error =>
        rw [importUpdate_error hupdate hresult]
        refine iff_of_true ?_ (.inr (.inl ⟨error, rfl⟩))
        split
        · exact (@ih _ imported (.inl rfl)).2 (.inl rfl)
        next hskipped =>
          have hsent : session.joinSent.isSome := by
            rcases hroom with hsent | hroom
            · exact hsent
            · exact Option.isSome_iff_ne_none.2 fun hnone =>
                hskipped ⟨Option.isNone_iff_eq_none.2 hnone, hroom⟩
          exact (@ih { session with doc := (library.importBytes session.doc update).1 } imported
            (.inl hsent)).2 (.inl hsent)

theorem isSome_applyRemote (updates : List Bytes)
    (hroom : session.joinSent.isSome ∨ session.fullResyncs < MAX_FULL_RESYNCS) :
    (session.applyRemote library .loro updates).joinSent.isSome ↔
      session.joinSent.isSome ∨ Fails library session.doc updates := by
  rw [← @isSome_foldl_importUpdate _ _ _ library session updates false hroom]
  unfold Session.applyRemote
  dsimp only
  split <;> rfl

theorem Behind.importUpdate (hbehind : Behind session) :
    Behind (Session.importUpdate library (session, imported) update).1 := by
  by_cases hupdate : update = []
  · rw [Session.importUpdate, if_pos hupdate]
    exact hbehind
  have hgrown : Behind { session with doc := (library.importBytes session.doc update).1 } :=
    fun version hversion => (hbehind version hversion).trans (library.grows session.doc update)
  cases hresult : (library.importBytes session.doc update).2 with
  | ok pending =>
    rw [importUpdate_ok hupdate hresult]
    exact hgrown
  | error error =>
    rw [importUpdate_error hupdate hresult]
    split
    · intro version hversion
      cases hversion
      exact Finset.empty_subset _
    · exact hgrown

theorem Behind.applyRemote {crdt : CrdtType} {updates : List Bytes} (hbehind : Behind session) :
    Behind (session.applyRemote library crdt updates) := by
  have hfold : ∀ (updates : List Bytes) (state : Session BatchId Op × Bool), Behind state.1 →
      Behind (updates.foldl (Session.importUpdate library) state).1 := by
    intro updates
    induction updates with
    | nil => exact fun _ hstate => hstate
    | cons update rest ih => exact fun state hstate => ih _ hstate.importUpdate
  cases crdt with
  | loro =>
    unfold Session.applyRemote
    dsimp only
    split <;> exact hfold updates _ hbehind
  | loroEphemeralStore | other => exact hbehind

end

omit [DecidableEq BatchId] [DecidableEq Op] in
theorem behind_sendJoinLoro {version : Finset Op} (hversion : version ⊆ session.doc) :
    Behind (session.sendJoinLoro version) := by
  intro other hother
  cases hother
  exact hversion

theorem Behind.handleFrame {message : Message BatchId Op} (hbehind : Behind session) :
    Behind (session.handleFrame library message) := by
  cases message with
  | joinResponseOk crdt version =>
    cases crdt with
    | loro =>
      simp only [Session.handleFrame, Session.onJoinOk]
      split <;> exact fun version hversion => by cases hversion
    | loroEphemeralStore | other => exact hbehind
  | joinError crdt versionUnknown =>
    simp only [Session.handleFrame]
    split
    · split
      · exact behind_sendJoinLoro (Finset.empty_subset _)
      · exact hbehind
    · exact hbehind
  | docUpdate crdt updates => exact hbehind.applyRemote
  | docUpdateFragmentHeader crdt batchId fragmentCount totalSizeBytes =>
    simp only [Session.handleFrame]
    split <;> exact hbehind
  | docUpdateFragment batchId index fragment =>
    simp only [Session.handleFrame]
    cases hcompletes : session.completes batchId index fragment with
    | none =>
      obtain ⟨buffer, hbuffer⟩ := @Session.onFragment_of_none _ _ _ _ library _ _ _ _ hcompletes
      rw [hbuffer]
      exact hbehind
    | some batch =>
      rw [Session.onFragment_of_some hcompletes]
      exact Behind.applyRemote hbehind
  | ack crdt status =>
    simp only [Session.handleFrame]
    cases status with
    | invalidUpdate | permissionDenied =>
      simp only [Session.onAck]
      split
      · split
        · exact hbehind
        · exact behind_sendJoinLoro (Finset.Subset.refl _)
      · exact hbehind
    | ok | fragmentTimeout | payloadTooLarge | other => exact hbehind
  | roomError evicted =>
    simp only [Session.handleFrame]
    split
    · exact hbehind
    · exact behind_sendJoinLoro (Finset.Subset.refl _)

theorem Behind.step {action : Action BatchId Op} (hbehind : Behind session)
    (hstep : step library session action = some next) : Behind next := by
  unfold RoomInbound.step at hstep
  split at hstep
  · cases hstep
  · cases action with
    | handle message =>
      cases hstep
      exact hbehind.handleFrame
    | commit ops =>
      cases hstep
      exact fun version hversion => (hbehind version hversion).trans Finset.subset_union_left
    | probe =>
      simp only at hstep
      split at hstep
      · cases hstep
        exact behind_sendJoinLoro (Finset.Subset.refl _)
      · cases hstep

omit [DecidableEq BatchId] [DecidableEq Op] in
theorem Behind.willBackfill_iff (hbehind : Behind session) :
    WillBackfill session ↔ session.joinSent.isSome := by
  rw [Option.isSome_iff_exists]
  exact ⟨fun ⟨version, hversion, _⟩ => ⟨version, hversion⟩, fun ⟨version, hversion⟩ =>
    ⟨version, hversion, fun _ hop hmem => hop (hbehind version hversion hmem)⟩⟩

theorem isSome_handleFrame {message : Message BatchId Op}
    (hroom : session.fullResyncs < MAX_FULL_RESYNCS)
    (hgap : LeavesGap library session.doc (session.imports message)) :
    (session.handleFrame library message).joinSent.isSome ↔
      session.joinSent.isSome ∨ Fails library session.doc (session.imports message) := by
  have hnothing : ¬ LeavesGap library session.doc [] := fun ⟨_, hentry, _⟩ => by cases hentry
  cases message with
  | docUpdate crdt updates =>
    cases crdt with
    | loro => exact isSome_applyRemote updates (.inr hroom)
    | loroEphemeralStore | other => exact absurd hgap hnothing
  | docUpdateFragment batchId index fragment =>
    simp only [Session.imports] at hgap ⊢
    split at hgap
    next total hcompletes =>
      simp only [Session.handleFrame, Session.onFragment_of_some hcompletes]
      exact isSome_applyRemote [total] (.inr hroom)
    · exact absurd hgap hnothing
  | joinResponseOk _ _ | joinError _ _ | docUpdateFragmentHeader _ _ _ _ | ack _ _
  | roomError _ => exact absurd hgap hnothing

theorem chases_iff_reported {action : Action BatchId Op} (hbehind : Behind session) :
    Chases library session action ↔ Reported library session action := by
  constructor
  · intro hchases message haction halive hroom hgap
    have hstep : step library session action = some (session.handleFrame library message) := by
      rw [haction, step, if_neg (by simp [halive])]
    have hbackfill := hchases message _ haction hstep hroom hgap
    exact (isSome_handleFrame hroom hgap).1
      ((hbehind.step hstep).willBackfill_iff.1 hbackfill)
  · intro hreported message next haction hstep hroom hgap
    refine (hbehind.step hstep).willBackfill_iff.2 ?_
    subst haction
    unfold step at hstep
    split at hstep
    · cases hstep
    next halive =>
      cases hstep
      exact (isSome_handleFrame hroom hgap).2
        (hreported message rfl (Bool.eq_true_of_not_eq_false halive) hroom hgap)

end Imports

section Runs

/-- In a session of any length, no gap is left without a join that fills it exactly when every
gap is either reported by a failing import or met with a join on its way. -/
theorem chases_iff_guarded_reported (library : Library Op) (doc : Finset Op)
    (trace : List (Action BatchId Op)) :
    Trace.Guarded (step library) (Chases library) (Session.connect doc) trace ↔
      Trace.Guarded (step library) (Reported library) (Session.connect doc) trace :=
  Trace.guarded_congr_of_invariant (fun _ _ _ hbehind hstep => Behind.step hbehind hstep)
    (fun _ _ hbehind => chases_iff_reported hbehind)
    (behind_sendJoinLoro (Finset.Subset.refl doc))

/-- Two operations, the second on top of the first; what cannot be applied is kept as pending. -/
def twoOps : Library Nat where
  ops update := if update = [1] then {1} else if update = [2] then {2} else ∅
  importBytes doc update :=
    if update = [1] then (doc ∪ {1}, .ok ∅)
    else if update = [2] then if 1 ∈ doc then (doc ∪ {2}, .ok ∅) else (doc, .ok {2})
    else (doc, .ok ∅)
  grows doc update := by
    split
    · exact Finset.subset_union_left
    · split
      · split
        · exact Finset.subset_union_left
        · exact Finset.Subset.refl _
      · exact Finset.Subset.refl _
  reports doc update hmissing := by
    split at hmissing
    · simp at hmissing
    next hfirst =>
      split at hmissing
      next hsecond =>
        split at hmissing
        · simp at hmissing
        next hready => exact .inr ⟨{2}, by simp, by simp [hsecond, hready]⟩
      next hsecond => simp at hmissing

/-- The first update is skipped; the second is imported as pending, and nothing asks for the
first. -/
theorem gap_not_chased :
    ¬ ∀ (library : Library Nat) (doc : Finset Nat) (trace : List (Action Nat Nat)),
      Trace.Guarded (step library) (Chases library) (Session.connect doc) trace := by
  intro hall
  have hchases := (hall twoOps ∅ [.handle (.joinResponseOk .loro ∅),
    .handle (.docUpdate .loro [[2]])]).2.1
  obtain ⟨version, hversion, -⟩ := hchases _ _ rfl rfl (by decide)
    ⟨_, List.mem_singleton.mpr rfl, by decide⟩
  cases hversion

end Runs


end RoomInbound

end Keel
