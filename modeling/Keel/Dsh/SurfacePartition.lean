import Keel.Dsh.Surface
import Keel.Foundation.Lists

/-! # The surface partitions its events

A replacement copy may be replaced in its turn, so the surface is no longer sorted and a
range is cut by position. What stays true is a partition: every message-producing event is
on the surface or under exactly one replacement, and never both.
-/

namespace Keel.Session

open scoped List List

/-- The numbers of the events that belong on the surface. -/
def eligibleSeqs (events : List Event) : List Nat :=
  (events.filter fun event => isSurfaceEligibleType event.data.eventType).map Event.seq

/-- What the replacements took off the surface. -/
def shadowedSeqs (replacements : List SurfaceFoldReplacement) : List Nat :=
  replacements.flatMap SurfaceFoldReplacement.shadowedSeqs

/-- How many replacements shadow a number. -/
def SurfaceFoldResult.shadowings (result : SurfaceFoldResult) (seq : Nat) : Nat :=
  result.replacements.countP fun replacement => seq ∈ replacement.shadowedSeqs

section Sources

variable {event : Event} {state : FoldState} {log : List Event} {plan : Option SurfacePlan}

theorem surfaceOpOf_none (hop : surfaceOpOf event = .ok none) :
    isSurfaceEligibleType event.data.eventType = false := by
  simp only [surfaceOpOf] at hop
  split at hop
  next hineligible => simpa using hineligible
  · split at hop <;> cases hop

theorem surfaceOpOf_some {op : SurfaceOp} (hop : surfaceOpOf event = .ok (some op)) :
    isSurfaceEligibleType event.data.eventType = true := by
  simp only [surfaceOpOf] at hop
  split at hop
  · split at hop
    · cases hop
    · split at hop <;> cases hop
  next heligible => simpa using heligible

theorem collectSources_ok {seq : Nat} {raw found sources : List Nat}
    (hcollect : collectSources seq found raw = .ok sources) :
    sources = found ++ raw ∧ ∀ source ∈ raw, source < seq := by
  induction raw generalizing found with
  | nil =>
    cases hcollect
    exact ⟨(List.append_nil _).symm, nofun⟩
  | cons source rest ih =>
    simp only [collectSources] at hcollect
    split at hcollect
    · cases hcollect
    · split at hcollect
      · cases hcollect
      next hearlier =>
        obtain ⟨rfl, hrest⟩ := ih hcollect
        refine ⟨by rw [List.append_assoc, List.singleton_append], ?_⟩
        intro other hother
        rcases List.mem_cons.mp hother with rfl | hother
        · exact Nat.lt_of_not_le hearlier
        · exact hrest other hother

/-- An event that passes cites only earlier events, and everything it shadows. -/
theorem assertProvenance_ok {shadowed : List Nat}
    (hsources : assertProvenance event shadowed = .ok ()) :
    (∀ source ∈ event.sourceEventSeqs.getD [], source < event.seq) ∧
      ∀ seq ∈ shadowed, seq ∈ event.sourceEventSeqs.getD [] := by
  simp only [assertProvenance] at hsources
  split at hsources
  · cases hsources
  · obtain ⟨sources, hcollect, hmissing⟩ := bind_eq_ok.1 hsources
    obtain ⟨rfl, hearlier⟩ := collectSources_ok hcollect
    refine ⟨hearlier, fun seq hseq => ?_⟩
    by_contra hnot
    have hmem : seq ∈ shadowed.filter fun seq => seq ∉ [] ++ event.sourceEventSeqs.getD [] := by
      simpa using ⟨hseq, hnot⟩
    rw [if_pos (List.ne_nil_of_mem hmem)] at hmissing
    cases hmissing

theorem lt_of_position {nodes : List Nat} {seq index : Nat} {bound : String}
    (hposition : position nodes seq bound = .ok index) : index < nodes.length := by
  unfold position at hposition
  split at hposition
  next found hfound =>
    cases hposition
    exact (List.findIdx?_eq_some_iff_getElem.mp hfound).1
  · cases hposition

end Sources

/-- The state of a fold over a part of a log. -/
structure Partitioned (past : List Event) (state : FoldState)
    (replacements : List SurfaceFoldReplacement) : Prop where
  contiguous : Contiguous 0 past
  perm : (state.nodes ++ shadowedSeqs replacements).Perm (eligibleSeqs past)
  cited : ∀ replacement ∈ replacements, ∃ event sources, past[replacement.seq]? = some event ∧
    event.seq = replacement.seq ∧ event.sourceEventSeqs = some sources ∧
    (∀ source ∈ sources, source < replacement.seq) ∧
    ∀ seq ∈ replacement.shadowedSeqs, seq ∈ sources

theorem perm_splice (nodes : List Nat) (seq : Nat) {startIdx endIdx : Nat}
    (horder : startIdx ≤ endIdx) :
    (nodes.take startIdx ++ seq :: nodes.drop (endIdx + 1) ++
      (nodes.take (endIdx + 1)).drop startIdx).Perm (nodes ++ [seq]) := by
  have hcut : nodes = nodes.take startIdx ++ ((nodes.take (endIdx + 1)).drop startIdx ++
      nodes.drop (endIdx + 1)) := by
    have hbefore : (nodes.take (endIdx + 1)).take startIdx = nodes.take startIdx := by
      rw [List.take_take, Nat.min_eq_left (by omega)]
    rw [← List.append_assoc, ← hbefore, List.take_append_drop, List.take_append_drop]
  calc
    _ = nodes.take startIdx ++ ([seq] ++ (nodes.drop (endIdx + 1) ++
          (nodes.take (endIdx + 1)).drop startIdx)) := by simp
    (nodes.take startIdx ++ ([seq] ++ (nodes.drop (endIdx + 1) ++
          (nodes.take (endIdx + 1)).drop startIdx))).Perm
        (nodes.take startIdx ++ (((nodes.take (endIdx + 1)).drop startIdx ++
          nodes.drop (endIdx + 1)) ++ [seq])) :=
      .append_left _ (List.perm_append_comm.trans (.append_right _ List.perm_append_comm))
    _ = nodes ++ [seq] := by rw [← List.append_assoc, ← hcut]

theorem mem_range {nodes : List Nat} {startIdx endIdx : Nat} (hstart : startIdx < nodes.length)
    (horder : startIdx ≤ endIdx) :
    nodes.get ⟨startIdx, hstart⟩ ∈ (nodes.take (endIdx + 1)).drop startIdx := by
  refine List.mem_of_getElem? (i := 0) ?_
  rw [List.getElem?_drop, Nat.add_zero startIdx,
    List.getElem?_take_of_lt (Nat.lt_add_one_of_le horder),
    List.getElem?_eq_getElem hstart, List.get_eq_getElem]

theorem perm_swap_right {α : Type} (first second third : List α) :
    (first ++ second ++ third).Perm (first ++ third ++ second) := by
  rw [List.append_assoc, List.append_assoc]
  exact .append_left _ List.perm_append_comm

variable {past log rest : List Event} {state : FoldState} {event : Event}
  {replacements : List SurfaceFoldReplacement} {plan : Option SurfacePlan}

theorem eligibleSeqs_concat (past : List Event) (event : Event) :
    eligibleSeqs (past ++ [event]) = eligibleSeqs past ++
      if isSurfaceEligibleType event.data.eventType then [event.seq] else [] := by
  rw [eligibleSeqs, eligibleSeqs, List.filter_append, List.map_append]
  split
  next heligible => simp [heligible]
  next heligible => simp [heligible]

theorem Partitioned.step (hpast : Partitioned past state replacements)
    (hseq : event.seq = past.length) (hplan : Planned state event log plan) :
    Partitioned (past ++ [event]) (applySurfacePlan state plan).1
      (replacements ++ (applySurfacePlan state plan).2.toList) := by
  have hcited : ∀ replacement ∈ replacements, ∃ other sources,
      (past ++ [event])[replacement.seq]? = some other ∧ other.seq = replacement.seq ∧
        other.sourceEventSeqs = some sources ∧ (∀ source ∈ sources, source < replacement.seq) ∧
        ∀ seq ∈ replacement.shadowedSeqs, seq ∈ sources := by
    intro replacement hmem
    obtain ⟨other, sources, hother, hrest⟩ := hpast.cited replacement hmem
    obtain ⟨hlt, -⟩ := List.getElem?_eq_some_iff.mp hother
    exact ⟨other, sources, by rw [List.getElem?_append_left hlt, hother], hrest⟩
  refine
    { contiguous := contiguous_append.2
        ⟨hpast.contiguous, (Nat.zero_add past.length).symm ▸ hseq, trivial⟩
      perm := ?_
      cited := ?_ }
  · rw [eligibleSeqs_concat]
    cases hplan with
    | skip hop => simpa [applySurfacePlan, surfaceOpOf_none hop] using hpast.perm
    | append hop =>
      rw [if_pos (surfaceOpOf_some hop)]
      have hall := (perm_swap_right state.nodes [event.seq] (shadowedSeqs replacements)).trans
        (hpast.perm.append_right [event.seq])
      simpa [applySurfacePlan] using hall
    | @replace first last startIdx endIdx hop hstart hend horder =>
      rw [if_pos (surfaceOpOf_some hop)]
      have hshadowed : shadowedSeqs (replacements ++ [⟨event.seq, first, last,
          (state.nodes.take (endIdx + 1)).drop startIdx⟩]) =
          shadowedSeqs replacements ++ (state.nodes.take (endIdx + 1)).drop startIdx := by
        simp [shadowedSeqs]
      simp only [applySurfacePlan, Option.toList_some, hshadowed]
      calc
        _ = state.nodes.take startIdx ++ event.seq :: state.nodes.drop (endIdx + 1) ++
              shadowedSeqs replacements ++ (state.nodes.take (endIdx + 1)).drop startIdx :=
            (List.append_assoc ..).symm
        _ ~ state.nodes.take startIdx ++ event.seq :: state.nodes.drop (endIdx + 1) ++
              (state.nodes.take (endIdx + 1)).drop startIdx ++ shadowedSeqs replacements :=
            perm_swap_right _ _ _
        _ ~ state.nodes ++ [event.seq] ++ shadowedSeqs replacements :=
            .append_right _ (perm_splice state.nodes event.seq horder)
        _ ~ state.nodes ++ shadowedSeqs replacements ++ [event.seq] := perm_swap_right _ _ _
        _ ~ eligibleSeqs past ++ [event.seq] := hpast.perm.append_right _
  · intro replacement hmem
    rcases List.mem_append.mp hmem with hold | hnew
    · exact hcited replacement hold
    · cases hplan with
      | skip | append => cases hnew
      | @replace first last startIdx endIdx hop hstart hend horder hsources =>
        obtain rfl := List.mem_singleton.mp hnew
        obtain ⟨hearlier, hcovers⟩ := assertProvenance_ok hsources
        cases hdeclared : event.sourceEventSeqs with
        | none =>
          have hsource := hcovers _ (mem_range (lt_of_position hstart) horder)
          simp [hdeclared] at hsource
        | some sources =>
          rw [hdeclared, Option.getD_some] at hearlier hcovers
          exact ⟨event, sources, by rw [hseq, List.getElem?_concat_length], rfl, hdeclared,
            hearlier, hcovers⟩

theorem Partitioned.fold {index : Nat} {final : FoldState} {found : List SurfaceFoldReplacement}
    (hpast : Partitioned past state replacements) (hindex : past.length = index)
    (hfold : foldEvents log rest index state replacements = .ok (final, found)) :
    Partitioned (past ++ rest) final found := by
  induction rest generalizing past index state replacements with
  | nil =>
    cases hfold
    rwa [List.append_nil]
  | cons event rest ih =>
    obtain ⟨plan, hplan, hrest⟩ := bind_eq_ok.1 hfold
    obtain ⟨hseq, hplanned⟩ := planned_of_planSurfaceEvent hplan
    have hnext := ih (hpast.step (hseq.trans hindex.symm) hplanned) (by simp [hindex]) hrest
    rwa [List.append_assoc, List.singleton_append] at hnext

variable {start : Nat} {events : List Event}

section
variable (hevents : Contiguous start events)
include hevents

theorem Contiguous.seq_eq {index : Nat} {event : Event} (hevent : events[index]? = some event) :
    event.seq = start + index := by
  induction events generalizing start index with
  | nil => cases hevent
  | cons head rest ih =>
    cases index with
    | zero =>
      cases hevent
      exact hevents.1
    | succ index =>
      rw [ih hevents.2 hevent]
      omega

theorem Contiguous.map_seq : events.map Event.seq = List.range' start events.length := by
  induction events generalizing start with
  | nil => rfl
  | cons head rest ih =>
    rw [List.map_cons, ih hevents.2, hevents.1, List.length_cons, List.range'_succ]

theorem Contiguous.nodup_eligibleSeqs : (eligibleSeqs events).Nodup := by
  have hsub : (eligibleSeqs events).Sublist (events.map Event.seq) := List.filter_sublist.map _
  exact hsub.nodup (hevents.map_seq ▸ List.nodup_range')

end

/-- The surface of an accepted log and what its replacements shadow are together its
message-producing events, none of them twice. -/
theorem partitioned_of_foldSurface {result : SurfaceFoldResult}
    (hfold : foldSurface events = .ok result) :
    ∃ state, result.nodes = state.nodes ∧ Partitioned events state result.replacements := by
  obtain ⟨⟨state, replacements⟩, hevents, hresult⟩ := bind_eq_ok.1 hfold
  cases hresult
  have hstart : Partitioned [] {} [] := ⟨trivial, .refl _, nofun⟩
  exact ⟨state, rfl, hstart.fold rfl hevents⟩

/-- On an accepted log the surface names no event twice, every message-producing event is
either on the surface or under exactly one replacement, and every replacement cites what it
shadows, which is all earlier than itself. -/
theorem surface_partition (events : List Event) (result : SurfaceFoldResult)
    (hfold : foldSurface events = .ok result) :
    result.nodes.Nodup ∧
      (∀ event ∈ events, isSurfaceEligibleType event.data.eventType = true →
        (event.seq ∈ result.nodes ∧ result.shadowings event.seq = 0) ∨
          (event.seq ∉ result.nodes ∧ result.shadowings event.seq = 1)) ∧
      ∀ replacement ∈ result.replacements, ∃ event sources,
        events[replacement.seq]? = some event ∧ event.seq = replacement.seq ∧
        event.sourceEventSeqs = some sources ∧ (∀ source ∈ sources, source < replacement.seq) ∧
        ∀ seq ∈ replacement.shadowedSeqs, seq ∈ sources := by
  obtain ⟨state, hnodes, hpartitioned⟩ := partitioned_of_foldSurface hfold
  have hperm := hnodes ▸ hpartitioned.perm
  have hnodup := hperm.nodup_iff.mpr hpartitioned.contiguous.nodup_eligibleSeqs
  obtain ⟨hdistinct, hshadowed, hdisjoint⟩ := List.nodup_append'.mp hnodup
  refine ⟨hdistinct, fun event hevent heligible => ?_, hpartitioned.cited⟩
  have hseq : event.seq ∈ eligibleSeqs events :=
    List.mem_map_of_mem (List.mem_filter.mpr ⟨hevent, heligible⟩)
  rcases List.mem_append.mp (hperm.mem_iff.mpr hseq) with hnode | hunder
  · refine .inl ⟨hnode, List.countP_eq_zero.mpr fun replacement hmem hunder => ?_⟩
    exact hdisjoint hnode (List.mem_flatMap.mpr ⟨replacement, hmem, of_decide_eq_true hunder⟩)
  · exact .inr ⟨fun hnode => hdisjoint hnode hunder,
      Lists.countP_mem_of_nodup_flatMap hshadowed hunder⟩

/-- Two messages, a copy that replaces both, and a copy that replaces that copy. -/
def copiedTwice : List Event :=
  let message (seq : Nat) (surfaceOp : SurfaceOp) (sources : Option (List Nat)) : Event :=
    { seq, time := 0, data := .userMessage ⟨toString seq, .user, [], .user⟩
      surfaceOp := some surfaceOp, sourceEventSeqs := sources }
  [message 0 .append none, message 1 .append none, message 2 (.replace 0 1) (some [0, 1]),
    message 3 (.replace 2 2) (some [2])]

theorem surface_partition_copiedTwice : [3].Nodup ∧ ∀ event ∈ copiedTwice,
    isSurfaceEligibleType event.data.eventType = true →
      (event.seq ∈ [3] ∧ (SurfaceFoldResult.mk [3] [⟨2, 0, 1, [0, 1]⟩, ⟨3, 2, 2, [2]⟩]).shadowings
        event.seq = 0) ∨
      (event.seq ∉ [3] ∧ (SurfaceFoldResult.mk [3] [⟨2, 0, 1, [0, 1]⟩, ⟨3, 2, 2, [2]⟩]).shadowings
        event.seq = 1) :=
  have hpartition :=
    surface_partition copiedTwice ⟨[3], [⟨2, 0, 1, [0, 1]⟩, ⟨3, 2, 2, [2]⟩]⟩ rfl
  ⟨hpartition.1, hpartition.2.1⟩

end Keel.Session
