import Keel.Foundation.Lists
import Mathlib.Data.List.InsertIdx
import Mathlib.Data.List.Perm.Basic

/-! # The lane graph of the git history

Commits arrive children first. An active lane leads to the parent that will resolve it; every
row takes the lanes that lead to its commit into the node and places the lanes to the parents.
-/

namespace Keel.History

open List

inductive SegmentShape where
  | through
  | incoming
  | outgoing

structure GraphSegment where
  fromLane : Nat
  toLane : Nat
  colorId : Nat
  shape : SegmentShape

structure GraphRow where
  sha : String
  nodeLane : Nat
  nodeColorId : Nat
  segments : List GraphSegment
  isHead : Bool

structure GraphLayout where
  rows : List GraphRow := []
  maxLaneCount : Nat := 0

structure ActiveLane where
  id : Nat
  colorId : Nat
  targetSha : String

/-- What the layout reads of a commit. -/
structure GitHistoryCommit where
  sha : String
  parentShas : List String

/-- The lane with the id; without one the source panics. -/
def laneIndex (lanes : List ActiveLane) (id : Nat) : Option Nat :=
  lanes.findIdx? fun lane => lane.id = id

/-- The lanes after a row while its parents are placed, and the lanes leaving its node. -/
structure Placement where
  lanes : List ActiveLane
  nextLaneId : Nat
  nextColorId : Nat
  outgoing : List (Nat × Nat) := []
  parentOffset : Nat := 1

/-- The first parent goes on the lane of the node, which keeps its id. -/
def placeFirstParent (nodeLane nodeColorId : Nat) (primaryLane : Option ActiveLane)
    (parentSha : String) (placement : Placement) : Placement × Nat :=
  let (id, nextLaneId) := match primaryLane with
    | some lane => (lane.id, placement.nextLaneId)
    | none => (placement.nextLaneId, placement.nextLaneId + 1)
  let lane : ActiveLane := { id, colorId := nodeColorId, targetSha := parentSha }
  ({ placement with
      lanes := placement.lanes.insertIdx (min nodeLane placement.lanes.length) lane
      outgoing := placement.outgoing ++ [(id, lane.colorId)]
      nextLaneId }, id)

/-- Another parent shares a lane that leads to it already, or gets one beside the node's. -/
def placeParent (nodeLane : Nat) (primaryOutgoingId : Option Nat) (placement : Placement)
    (parentSha : String) : Option Placement :=
  match placement.lanes.find? fun lane => lane.targetSha = parentSha with
  | some existing =>
    some { placement with
      outgoing := placement.outgoing ++ [(existing.id, existing.colorId)] }
  | none => do
      let lane : ActiveLane :=
        { id := placement.nextLaneId, colorId := placement.nextColorId, targetSha := parentSha }
      let primaryIndex ← match primaryOutgoingId with
        | some id => laneIndex placement.lanes id
        | none => some (min nodeLane placement.lanes.length)
      return {
        lanes := placement.lanes.insertIdx
          (min (primaryIndex + placement.parentOffset) placement.lanes.length) lane
        nextLaneId := placement.nextLaneId + 1
        nextColorId := placement.nextColorId + 1
        outgoing := placement.outgoing ++ [(lane.id, lane.colorId)]
        parentOffset := placement.parentOffset + 1 }

def placeParents (nodeLane nodeColorId : Nat) (primaryLane : Option ActiveLane)
    (placement : Placement) : List String → Option Placement
  | [] => some placement
  | firstParent :: parents =>
    let (placement, id) := placeFirstParent nodeLane nodeColorId primaryLane firstParent placement
    parents.foldlM (placeParent nodeLane (some id)) placement

/-- The loop of `layout_graph` between two commits. -/
structure LayoutState where
  activeLanes : List ActiveLane := []
  nextLaneId : Nat := 0
  nextColorId : Nat := 0
  layout : GraphLayout := {}

def incomingLanes (before : List ActiveLane) (sha : String) : List Nat :=
  (before.zipIdx.filter fun indexed => indexed.1.targetSha = sha).map Prod.snd

def throughSegments (before after : List ActiveLane) (resolvedIds : List Nat) :
    Option (List GraphSegment) :=
  (before.zipIdx.filter fun indexed => indexed.1.id ∉ resolvedIds).mapM fun indexed =>
    (laneIndex after indexed.1.id).map fun toLane =>
      { fromLane := indexed.2, toLane, colorId := indexed.1.colorId, shape := .through }

def incomingSegments (before : List ActiveLane) (incoming : List Nat) (nodeLane : Nat) :
    Option (List GraphSegment) :=
  incoming.mapM fun fromLane => before[fromLane]?.map fun lane =>
    { fromLane, toLane := nodeLane, colorId := lane.colorId, shape := .incoming }

def outgoingSegments (after : List ActiveLane) (outgoing : List (Nat × Nat)) (nodeLane : Nat) :
    Option (List GraphSegment) :=
  outgoing.mapM fun leaving => (laneIndex after leaving.1).map fun toLane =>
    { fromLane := nodeLane, toLane, colorId := leaving.2, shape := .outgoing }

def layoutRow (headSha : Option String) (state : LayoutState) (commit : GitHistoryCommit) :
    Option LayoutState := do
  let before := state.activeLanes
  let incoming := incomingLanes before commit.sha
  let primaryIncoming := incoming.head?
  let nodeLane := primaryIncoming.getD before.length
  let primaryLane := primaryIncoming.bind fun index => before[index]?
  let (nodeColorId, nextColorId) := match primaryLane with
    | some lane => (lane.colorId, state.nextColorId)
    | none => (state.nextColorId, state.nextColorId + 1)
  let resolvedIds ← incoming.mapM fun index => before[index]?.map ActiveLane.id
  let unresolved := before.filter fun lane => lane.id ∉ resolvedIds
  let placement ← placeParents nodeLane nodeColorId primaryLane
    { lanes := unresolved, nextLaneId := state.nextLaneId, nextColorId } commit.parentShas
  let through ← throughSegments before placement.lanes resolvedIds
  let arriving ← incomingSegments before incoming nodeLane
  let leaving ← outgoingSegments placement.lanes placement.outgoing nodeLane
  let row : GraphRow :=
    { sha := commit.sha, nodeLane, nodeColorId
      segments := through ++ arriving ++ leaving
      isHead := headSha = some commit.sha }
  return {
    activeLanes := placement.lanes
    nextLaneId := placement.nextLaneId
    nextColorId := placement.nextColorId
    layout := {
      rows := state.layout.rows ++ [row]
      maxLaneCount := max (max (max state.layout.maxLaneCount before.length)
        placement.lanes.length) (nodeLane + 1) } }

def layoutRows (commits : List GitHistoryCommit) (headSha : Option String) : Option LayoutState :=
  commits.foldlM (layoutRow headSha) {}

/-- The layout, or nothing where the source panics. -/
def layoutGraph (commits : List GitHistoryCommit) (headSha : Option String) : Option GraphLayout :=
  (layoutRows commits headSha).map LayoutState.layout

example : (layoutGraph [⟨"m", ["a", "b"]⟩, ⟨"b", ["r"]⟩, ⟨"a", ["r"]⟩, ⟨"r", []⟩] none).map
    (fun layout => (layout.rows.map GraphRow.nodeLane, layout.maxLaneCount)) =
    some ([0, 1, 0, 0], 2) := by decide

section Lanes

variable {lanes : List ActiveLane}

def laneIds (lanes : List ActiveLane) : List Nat := lanes.map ActiveLane.id

theorem exists_laneIndex {id : Nat} (hid : id ∈ laneIds lanes) :
    ∃ index lane, laneIndex lanes id = some index ∧ lanes[index]? = some lane ∧ lane.id = id := by
  obtain ⟨lane, hlane, rfl⟩ := mem_map.mp hid
  have hsome : (laneIndex lanes lane.id).isSome := by
    rw [laneIndex, findIdx?_isSome, any_eq_true]
    exact ⟨lane, hlane, decide_eq_true rfl⟩
  obtain ⟨index, hindex⟩ := Option.isSome_iff_exists.mp hsome
  obtain ⟨hbound, hmatch, -⟩ := findIdx?_eq_some_iff_getElem.mp hindex
  exact ⟨index, lanes[index], hindex, getElem?_eq_getElem hbound, of_decide_eq_true hmatch⟩

theorem exists_laneIndex_of_mem (hnodup : (laneIds lanes).Nodup) {lane : ActiveLane}
    (hlane : lane ∈ lanes) :
    ∃ index, laneIndex lanes lane.id = some index ∧ lanes[index]? = some lane := by
  obtain ⟨index, found, hindex, hfound, hid⟩ := exists_laneIndex (mem_map_of_mem hlane)
  obtain rfl := inj_on_of_nodup_map hnodup (mem_of_getElem? hfound) hlane hid
  exact ⟨index, hindex, hfound⟩

end Lanes

/-- While parents are placed: ids stay distinct, the lanes of the other commits stay, and
every parent placed so far has a lane that leaves the node. -/
structure Placement.Holds (others : List ActiveLane) (placed : List String)
    (placement : Placement) : Prop where
  nodup : (laneIds placement.lanes).Nodup
  fresh : ∀ lane ∈ placement.lanes, lane.id < placement.nextLaneId
  kept : ∀ lane ∈ others, lane ∈ placement.lanes
  outgoing : ∀ leaving ∈ placement.outgoing, leaving.1 ∈ laneIds placement.lanes
  parents : ∀ parentSha ∈ placed, ∃ lane ∈ placement.lanes, lane.targetSha = parentSha ∧
    ∃ colorId, (lane.id, colorId) ∈ placement.outgoing

namespace Placement.Holds

variable {others : List ActiveLane} {placed : List String} {placement : Placement}

section
variable (hholds : Holds others placed placement)
include hholds

theorem insert (lane : ActiveLane) {index : Nat} (hindex : index ≤ placement.lanes.length)
    (hnew : lane.id ∉ laneIds placement.lanes) {nextLaneId : Nat} (hlane : lane.id < nextLaneId)
    (hnext : placement.nextLaneId ≤ nextLaneId) (nextColorId parentOffset : Nat) :
    Holds others (placed ++ [lane.targetSha])
      { lanes := placement.lanes.insertIdx index lane, nextLaneId, nextColorId
        outgoing := placement.outgoing ++ [(lane.id, lane.colorId)], parentOffset } := by
  have hmem : ∀ {other : ActiveLane}, other ∈ placement.lanes.insertIdx index lane ↔
      other = lane ∨ other ∈ placement.lanes := mem_insertIdx hindex
  have hids : ∀ {id : Nat}, id ∈ laneIds placement.lanes →
      id ∈ laneIds (placement.lanes.insertIdx index lane) := by
    intro id hid
    obtain ⟨other, hother, rfl⟩ := mem_map.mp hid
    exact mem_map_of_mem (hmem.mpr (.inr hother))
  have hself : lane ∈ placement.lanes.insertIdx index lane := hmem.mpr (.inl rfl)
  refine { nodup := ?_, fresh := ?_, kept := ?_, outgoing := ?_, parents := ?_ }
  · have hperm := (perm_insertIdx lane placement.lanes hindex).map ActiveLane.id
    rw [laneIds, hperm.nodup_iff]
    exact nodup_cons.mpr ⟨hnew, hholds.nodup⟩
  · intro other hother
    rcases hmem.mp hother with rfl | hold
    · exact hlane
    · exact Nat.lt_of_lt_of_le (hholds.fresh other hold) hnext
  · exact fun other hother => hmem.mpr (.inr (hholds.kept other hother))
  · intro leaving hleaving
    rcases mem_append.mp hleaving with hold | hlast
    · exact hids (hholds.outgoing leaving hold)
    · obtain rfl := mem_singleton.mp hlast
      exact mem_map_of_mem hself
  · intro parentSha hparent
    rcases mem_append.mp hparent with hold | hlast
    · obtain ⟨other, hother, htarget, colorId, hleaving⟩ := hholds.parents parentSha hold
      exact ⟨other, hmem.mpr (.inr hother), htarget, colorId, mem_append_left _ hleaving⟩
    · obtain rfl := mem_singleton.mp hlast
      exact ⟨lane, hself, rfl, lane.colorId, mem_append_right _ mem_cons_self⟩

theorem share {existing : ActiveLane} (hexisting : existing ∈ placement.lanes) :
    Holds others (placed ++ [existing.targetSha]) { placement with
      outgoing := placement.outgoing ++ [(existing.id, existing.colorId)] } where
  nodup := hholds.nodup
  fresh := hholds.fresh
  kept := hholds.kept
  outgoing := by
    intro leaving hleaving
    rcases mem_append.mp hleaving with hold | hlast
    · exact hholds.outgoing leaving hold
    · obtain rfl := mem_singleton.mp hlast
      exact mem_map_of_mem hexisting
  parents := by
    intro parentSha hparent
    rcases mem_append.mp hparent with hold | hlast
    · obtain ⟨lane, hlane, htarget, colorId, hleaving⟩ := hholds.parents parentSha hold
      exact ⟨lane, hlane, htarget, colorId, mem_append_left _ hleaving⟩
    · obtain rfl := mem_singleton.mp hlast
      exact ⟨existing, hexisting, rfl, existing.colorId,
        mem_append_right _ mem_cons_self⟩

theorem placeParent {id : Nat} (hid : id ∈ laneIds placement.lanes) (nodeLane : Nat)
    (parentSha : String) : ∃ next, placeParent nodeLane (some id) placement parentSha = some next ∧
      Holds others (placed ++ [parentSha]) next ∧ id ∈ laneIds next.lanes := by
  rw [History.placeParent]
  split
  next existing hfound =>
    have htarget := find?_some hfound
    obtain rfl : existing.targetSha = parentSha := of_decide_eq_true htarget
    exact ⟨_, rfl, hholds.share (mem_of_find?_eq_some hfound), hid⟩
  next hnone =>
    obtain ⟨index, lane, hindex, -, -⟩ := exists_laneIndex hid
    have hnew : placement.nextLaneId ∉ laneIds placement.lanes := by
      intro hmem
      obtain ⟨other, hother, hsame⟩ := mem_map.mp hmem
      exact Nat.ne_of_lt (hholds.fresh other hother) hsame
    have hinsert := hholds.insert ⟨placement.nextLaneId, placement.nextColorId, parentSha⟩
      (Nat.min_le_right (index + placement.parentOffset) _) hnew (Nat.lt_succ_self _)
      (Nat.le_succ _) (placement.nextColorId + 1) (placement.parentOffset + 1)
    simp only [hindex]
    refine ⟨_, rfl, hinsert, ?_⟩
    obtain ⟨other, hother, rfl⟩ := mem_map.mp hid
    exact mem_map_of_mem ((mem_insertIdx (Nat.min_le_right _ _)).mpr (.inr hother))

theorem placeRest {id : Nat} (hid : id ∈ laneIds placement.lanes) (nodeLane : Nat)
    (parents : List String) :
    ∃ next, parents.foldlM (History.placeParent nodeLane (some id)) placement = some next ∧
      Holds others (placed ++ parents) next := by
  induction parents generalizing placement placed with
  | nil => exact ⟨placement, rfl, by rwa [append_nil]⟩
  | cons parentSha parents ih =>
    obtain ⟨next, hnext, hplaced, hid⟩ := hholds.placeParent hid nodeLane parentSha
    obtain ⟨final, hfinal, hrest⟩ := ih hplaced hid
    rw [append_assoc, singleton_append] at hrest
    refine ⟨final, ?_, hrest⟩
    rw [foldlM_cons, hnext]
    exact hfinal

end

/-- All parents are placed, the first on the lane the node resolves, if there is one. -/
theorem placeParents (hholds : Holds others [] placement) {primaryLane : Option ActiveLane}
    (hprimary : ∀ lane, primaryLane = some lane →
      lane.id ∉ laneIds placement.lanes ∧ lane.id < placement.nextLaneId)
    (nodeLane nodeColorId : Nat) (parents : List String) :
    ∃ next, placeParents nodeLane nodeColorId primaryLane placement parents = some next ∧
      Holds others parents next := by
  cases parents with
  | nil => exact ⟨placement, rfl, hholds⟩
  | cons firstParent parents =>
    have hmem : ∀ {id nextLaneId : Nat}, id ∉ laneIds placement.lanes → id < nextLaneId →
        placement.nextLaneId ≤ nextLaneId →
        ∃ next, parents.foldlM (History.placeParent nodeLane (some id)) { placement with
            lanes := placement.lanes.insertIdx (min nodeLane placement.lanes.length)
              ⟨id, nodeColorId, firstParent⟩
            outgoing := placement.outgoing ++ [(id, nodeColorId)]
            nextLaneId } = some next ∧ Holds others (firstParent :: parents) next := by
      intro id nextLaneId hnew hid hnext
      have hinsert := hholds.insert ⟨id, nodeColorId, firstParent⟩
        (Nat.min_le_right nodeLane _) hnew hid hnext placement.nextColorId
        placement.parentOffset
      have hself : id ∈ laneIds (placement.lanes.insertIdx
          (min nodeLane placement.lanes.length) ⟨id, nodeColorId, firstParent⟩) :=
        mem_map.mpr ⟨_, (mem_insertIdx (Nat.min_le_right _ _)).mpr (.inl rfl), rfl⟩
      exact hinsert.placeRest hself nodeLane parents
    cases primaryLane with
    | some lane =>
      obtain ⟨hnew, hid⟩ := hprimary lane rfl
      exact hmem hnew hid (Nat.le_refl _)
    | none =>
      refine hmem (fun hold => ?_) (Nat.lt_succ_self _) (Nat.le_succ _)
      obtain ⟨other, hother, hsame⟩ := mem_map.mp hold
      exact Nat.ne_of_lt (hholds.fresh other hother) hsame

end Placement.Holds

section Segments

variable {before after : List ActiveLane} {sha : String}

theorem mem_incomingLanes {index : Nat} : index ∈ incomingLanes before sha ↔
    ∃ lane, before[index]? = some lane ∧ lane.targetSha = sha := by
  constructor
  · intro hmem
    obtain ⟨⟨lane, index⟩, hfilter, rfl⟩ := mem_map.mp hmem
    obtain ⟨hzip, htarget⟩ := mem_filter.mp hfilter
    exact ⟨lane, mem_zipIdx_iff_getElem?.mp hzip, of_decide_eq_true htarget⟩
  · rintro ⟨lane, hlane, htarget⟩
    refine mem_map.mpr ⟨(lane, index), mem_filter.mpr ⟨?_, decide_eq_true htarget⟩, rfl⟩
    exact mem_zipIdx_iff_getElem?.mpr hlane

theorem exists_resolvedIds (before : List ActiveLane) (sha : String) :
    ∃ ids, ((incomingLanes before sha).mapM fun index => before[index]?.map ActiveLane.id) =
        some ids ∧
      ∀ id, id ∈ ids ↔ ∃ lane ∈ before, lane.targetSha = sha ∧ lane.id = id := by
  obtain ⟨ids, hids⟩ : ∃ ids, ((incomingLanes before sha).mapM fun index =>
      before[index]?.map ActiveLane.id) = some ids := by
    refine Lists.exists_mapM_eq_some_iff.2 fun index hindex => ?_
    obtain ⟨lane, hlane, -⟩ := mem_incomingLanes.1 hindex
    exact ⟨lane.id, by rw [hlane, Option.map_some]⟩
  refine ⟨ids, hids, fun id => ⟨fun hid => ?_, ?_⟩⟩
  · obtain ⟨index, hindex, hmaps⟩ := Lists.exists_of_mem_mapM hids hid
    obtain ⟨lane, hlane, htarget⟩ := mem_incomingLanes.1 hindex
    rw [hlane, Option.map_some] at hmaps
    exact ⟨lane, mem_of_getElem? hlane, htarget, Option.some.inj hmaps⟩
  · rintro ⟨lane, hlane, htarget, rfl⟩
    obtain ⟨index, hindex⟩ := mem_iff_getElem?.mp hlane
    exact Lists.mem_mapM_of_mem hids (mem_incomingLanes.2 ⟨lane, hindex, htarget⟩)
      (by rw [hindex, Option.map_some])

theorem exists_throughSegments (hnodup : (laneIds after).Nodup) {ids : List Nat}
    (hkept : ∀ lane ∈ before, lane.id ∉ ids → lane ∈ after) :
    ∃ segments, throughSegments before after ids = some segments ∧
      (∀ segment ∈ segments, segment.fromLane < before.length ∧ segment.toLane < after.length) ∧
      ∀ index lane, before[index]? = some lane → lane.id ∉ ids → ∃ segment ∈ segments,
        segment.shape = .through ∧ segment.fromLane = index ∧
          after[segment.toLane]? = some lane := by
  have hmem : ∀ {lane : ActiveLane} {index : Nat}, (lane, index) ∈ before.zipIdx.filter
      (fun indexed => indexed.1.id ∉ ids) ↔ before[index]? = some lane ∧ lane.id ∉ ids := by
    intro lane index
    rw [List.mem_filter, List.mem_zipIdx_iff_getElem?, decide_eq_true_iff]
  have hfound : ∀ {lane : ActiveLane} {index : Nat}, (lane, index) ∈ before.zipIdx.filter
      (fun indexed => indexed.1.id ∉ ids) → ∃ toLane, laneIndex after lane.id = some toLane ∧
        after[toLane]? = some lane := by
    intro lane index hlane
    obtain ⟨hindex, hid⟩ := hmem.mp hlane
    exact exists_laneIndex_of_mem hnodup (hkept lane (List.mem_of_getElem? hindex) hid)
  obtain ⟨segments, hsegments⟩ : ∃ segments, throughSegments before after ids = some segments := by
    refine Lists.exists_mapM_eq_some_iff.2 fun ⟨lane, index⟩ hlane => ?_
    obtain ⟨toLane, htoLane, -⟩ := hfound hlane
    exact ⟨_, by rw [htoLane, Option.map_some]⟩
  refine ⟨segments, hsegments, fun segment hsegment => ?_, fun index lane hindex hid => ?_⟩
  · obtain ⟨⟨lane, index⟩, hlane, hmaps⟩ := Lists.exists_of_mem_mapM hsegments hsegment
    obtain ⟨toLane, htoLane, hafter⟩ := hfound hlane
    simp only [htoLane, Option.map_some, Option.some.injEq] at hmaps
    subst hmaps
    exact ⟨(List.getElem?_eq_some_iff.mp (hmem.mp hlane).1).1,
      (List.getElem?_eq_some_iff.mp hafter).1⟩
  · have hlane := hmem.mpr ⟨hindex, hid⟩
    obtain ⟨toLane, htoLane, hafter⟩ := hfound hlane
    exact ⟨_, Lists.mem_mapM_of_mem hsegments hlane (by rw [htoLane, Option.map_some]), rfl, rfl,
      hafter⟩

theorem exists_incomingSegments (before : List ActiveLane) (sha : String) (nodeLane : Nat) :
    ∃ segments, incomingSegments before (incomingLanes before sha) nodeLane = some segments ∧
      (∀ segment ∈ segments, segment.fromLane < before.length ∧ segment.toLane = nodeLane) ∧
      ∀ index lane, before[index]? = some lane → lane.targetSha = sha → ∃ segment ∈ segments,
        segment.shape = .incoming ∧ segment.fromLane = index ∧ segment.toLane = nodeLane := by
  obtain ⟨segments, hsegments⟩ : ∃ segments,
      incomingSegments before (incomingLanes before sha) nodeLane = some segments := by
    refine Lists.exists_mapM_eq_some_iff.2 fun index hindex => ?_
    obtain ⟨lane, hlane, -⟩ := mem_incomingLanes.1 hindex
    exact ⟨_, by rw [hlane, Option.map_some]⟩
  refine ⟨segments, hsegments, fun segment hsegment => ?_, fun index lane hindex htarget => ?_⟩
  · obtain ⟨index, hindex, hmaps⟩ := Lists.exists_of_mem_mapM hsegments hsegment
    obtain ⟨lane, hlane, -⟩ := mem_incomingLanes.1 hindex
    rw [hlane, Option.map_some, Option.some.injEq] at hmaps
    subst hmaps
    exact ⟨(List.getElem?_eq_some_iff.mp hlane).1, rfl⟩
  · exact ⟨_, Lists.mem_mapM_of_mem hsegments (mem_incomingLanes.2 ⟨lane, hindex, htarget⟩)
      (by rw [hindex, Option.map_some]), rfl, rfl, rfl⟩

theorem exists_outgoingSegments (hnodup : (laneIds after).Nodup) {outgoing : List (Nat × Nat)}
    (hids : ∀ leaving ∈ outgoing, leaving.1 ∈ laneIds after) (nodeLane : Nat) :
    ∃ segments, outgoingSegments after outgoing nodeLane = some segments ∧
      (∀ segment ∈ segments, segment.fromLane = nodeLane ∧ segment.toLane < after.length) ∧
      ∀ lane ∈ after, ∀ colorId, (lane.id, colorId) ∈ outgoing → ∃ segment ∈ segments,
        segment.shape = .outgoing ∧ segment.fromLane = nodeLane ∧
          after[segment.toLane]? = some lane := by
  obtain ⟨segments, hsegments⟩ : ∃ segments,
      outgoingSegments after outgoing nodeLane = some segments := by
    refine Lists.exists_mapM_eq_some_iff.2 fun leaving hleaving => ?_
    obtain ⟨toLane, -, htoLane, -⟩ := exists_laneIndex (hids leaving hleaving)
    exact ⟨_, by rw [htoLane, Option.map_some]⟩
  refine ⟨segments, hsegments, fun segment hsegment => ?_, fun lane hlane colorId hleaving => ?_⟩
  · obtain ⟨leaving, hleaving, hmaps⟩ := Lists.exists_of_mem_mapM hsegments hsegment
    obtain ⟨toLane, lane, htoLane, hafter, -⟩ := exists_laneIndex (hids leaving hleaving)
    rw [htoLane, Option.map_some, Option.some.injEq] at hmaps
    subst hmaps
    exact ⟨rfl, (List.getElem?_eq_some_iff.mp hafter).1⟩
  · obtain ⟨toLane, htoLane, hafter⟩ := exists_laneIndex_of_mem hnodup hlane
    exact ⟨_, Lists.mem_mapM_of_mem hsegments hleaving (by rw [htoLane, Option.map_some]), rfl,
      rfl, hafter⟩

end Segments

/-- What a row draws between the lanes before it and those after it. -/
structure RowDrawn (before : List ActiveLane) (commit : GitHistoryCommit) (row : GraphRow)
    (after : List ActiveLane) : Prop where
  sha : row.sha = commit.sha
  incoming : ∀ index lane, before[index]? = some lane → lane.targetSha = commit.sha →
    ∃ segment ∈ row.segments, segment.shape = .incoming ∧ segment.fromLane = index ∧
      segment.toLane = row.nodeLane
  through : ∀ index lane, before[index]? = some lane → lane.targetSha ≠ commit.sha →
    ∃ segment ∈ row.segments, segment.shape = .through ∧ segment.fromLane = index ∧
      after[segment.toLane]? = some lane
  outgoing : ∀ parentSha ∈ commit.parentShas, ∃ segment ∈ row.segments,
    segment.shape = .outgoing ∧ segment.fromLane = row.nodeLane ∧
      ∃ lane, after[segment.toLane]? = some lane ∧ lane.targetSha = parentSha

def GraphRow.Within (laneCount : Nat) (row : GraphRow) : Prop :=
  row.nodeLane < laneCount ∧
    ∀ segment ∈ row.segments, segment.fromLane < laneCount ∧ segment.toLane < laneCount

theorem GraphRow.Within.mono {row : GraphRow} {laneCount more : Nat}
    (hwithin : row.Within laneCount) (hmore : laneCount ≤ more) : row.Within more := by
  refine ⟨Nat.lt_of_lt_of_le hwithin.1 hmore, fun segment hsegment => ?_⟩
  obtain ⟨hfrom, hto⟩ := hwithin.2 segment hsegment
  exact ⟨Nat.lt_of_lt_of_le hfrom hmore, Nat.lt_of_lt_of_le hto hmore⟩

/-- Between two commits: ids are distinct and used, and the rows are within the lane count. -/
structure LayoutState.Valid (state : LayoutState) : Prop where
  nodup : (laneIds state.activeLanes).Nodup
  fresh : ∀ lane ∈ state.activeLanes, lane.id < state.nextLaneId
  within : ∀ row ∈ state.layout.rows, row.Within state.layout.maxLaneCount

namespace LayoutState.Valid

theorem row {state : LayoutState} (hvalid : state.Valid)
    (headSha : Option String) (commit : GitHistoryCommit) :
    ∃ next row, layoutRow headSha state commit = some next ∧ next.Valid ∧
      next.layout.rows = state.layout.rows ++ [row] ∧
      RowDrawn state.activeLanes commit row next.activeLanes := by
  obtain ⟨ids, hids, hmemIds⟩ := exists_resolvedIds state.activeLanes commit.sha
  have hresolved : ∀ lane ∈ state.activeLanes, lane.id ∈ ids ↔ lane.targetSha = commit.sha := by
    intro lane hlane
    rw [hmemIds]
    constructor
    · rintro ⟨other, hother, htarget, hid⟩
      exact inj_on_of_nodup_map hvalid.nodup hother hlane hid ▸ htarget
    · exact fun htarget => ⟨lane, hlane, htarget, rfl⟩
  obtain ⟨nodeLane, hnodeLane⟩ : ∃ nodeLane, nodeLane =
    (incomingLanes state.activeLanes commit.sha).head?.getD state.activeLanes.length := ⟨_, rfl⟩
  obtain ⟨primaryLane, hprimaryLane⟩ : ∃ primaryLane, primaryLane =
    (incomingLanes state.activeLanes commit.sha).head?.bind fun index =>
      state.activeLanes[index]? := ⟨_, rfl⟩
  have hprimary : ∀ lane, primaryLane = some lane →
      lane ∈ state.activeLanes ∧ lane.targetSha = commit.sha := by
    rintro lane rfl
    obtain ⟨index, hindex, hlane⟩ := Option.bind_eq_some_iff.mp hprimaryLane.symm
    obtain ⟨found, hfound, htarget⟩ := mem_incomingLanes.1 (mem_of_head? hindex)
    obtain rfl := Option.mem_unique hlane hfound
    exact ⟨mem_of_getElem? hlane, htarget⟩
  obtain ⟨nodeColorId, nextColorId, hcolors⟩ : ∃ nodeColorId nextColorId,
      (match primaryLane with
        | some lane => (lane.colorId, state.nextColorId)
        | none => (state.nextColorId, state.nextColorId + 1)) = (nodeColorId, nextColorId) :=
    ⟨_, _, rfl⟩
  obtain ⟨unresolved, hunresolved⟩ : ∃ unresolved, unresolved =
    state.activeLanes.filter fun lane => lane.id ∉ ids := ⟨_, rfl⟩
  have hmem : ∀ {lane : ActiveLane}, lane ∈ unresolved ↔
      lane ∈ state.activeLanes ∧ lane.id ∉ ids := by
    intro lane
    rw [hunresolved, mem_filter, decide_eq_true_iff]
  have hstart : Placement.Holds unresolved []
      { lanes := unresolved, nextLaneId := state.nextLaneId, nextColorId } :=
    { nodup := by
        rw [hunresolved]
        exact hvalid.nodup.sublist (filter_sublist.map ActiveLane.id)
      fresh := fun lane hlane => hvalid.fresh lane (hmem.mp hlane).1
      kept := fun lane hlane => hlane
      outgoing := fun leaving hleaving => absurd hleaving not_mem_nil
      parents := fun parentSha hparent => absurd hparent not_mem_nil }
  have hfree : ∀ lane, primaryLane = some lane →
      lane.id ∉ laneIds unresolved ∧ lane.id < state.nextLaneId := by
    intro lane hlane
    obtain ⟨hactive, htarget⟩ := hprimary lane hlane
    refine ⟨fun hid => ?_, hvalid.fresh lane hactive⟩
    obtain ⟨other, hother, hsame⟩ := mem_map.mp hid
    exact (hmem.mp hother).2 (hsame ▸ (hresolved lane hactive).mpr htarget)
  obtain ⟨placement, hplacement, hholds⟩ :=
    hstart.placeParents hfree nodeLane nodeColorId commit.parentShas
  obtain ⟨through, hthrough, hthroughWithin, hthroughDrawn⟩ := exists_throughSegments hholds.nodup
    fun lane hlane hid => hholds.kept lane (hmem.mpr ⟨hlane, hid⟩)
  obtain ⟨arriving, harriving, harrivingWithin, harrivingDrawn⟩ :=
    exists_incomingSegments state.activeLanes commit.sha nodeLane
  obtain ⟨leaving, hleaving, hleavingWithin, hleavingDrawn⟩ :=
    exists_outgoingSegments hholds.nodup hholds.outgoing nodeLane
  obtain ⟨laneCount, hlaneCount⟩ : ∃ laneCount, laneCount =
    max (max (max state.layout.maxLaneCount state.activeLanes.length) placement.lanes.length)
      (nodeLane + 1) := ⟨_, rfl⟩
  have hcount : state.layout.maxLaneCount ≤ laneCount ∧ state.activeLanes.length ≤ laneCount ∧
      placement.lanes.length ≤ laneCount ∧ nodeLane < laneCount := by omega
  obtain ⟨hold, hbefore, hafter, hnode⟩ := hcount
  refine ⟨⟨placement.lanes, placement.nextLaneId, placement.nextColorId, state.layout.rows ++
      [⟨commit.sha, nodeLane, nodeColorId, through ++ arriving ++ leaving,
        headSha = some commit.sha⟩], laneCount⟩, _, ?_, ?_, rfl, ?_⟩
  · simp only [layoutRow, ← hnodeLane, ← hprimaryLane, hids, hcolors, ← hunresolved, hplacement,
      hthrough, harriving, hleaving, ← hlaneCount, Option.bind_eq_bind, Option.bind_some,
      Option.pure_def]
  · refine { nodup := hholds.nodup, fresh := hholds.fresh, within := fun row hrow => ?_ }
    rcases mem_append.mp hrow with hearlier | hlast
    · exact (hvalid.within row hearlier).mono hold
    · obtain rfl := mem_singleton.mp hlast
      refine ⟨hnode, fun segment hsegment => ?_⟩
      rcases mem_append.mp hsegment with hmost | hmem
      · rcases mem_append.mp hmost with hmem | hmem
        · obtain ⟨hfrom, hto⟩ := hthroughWithin segment hmem
          exact ⟨Nat.lt_of_lt_of_le hfrom hbefore, Nat.lt_of_lt_of_le hto hafter⟩
        · obtain ⟨hfrom, hto⟩ := harrivingWithin segment hmem
          exact ⟨Nat.lt_of_lt_of_le hfrom hbefore, hto ▸ hnode⟩
      · obtain ⟨hfrom, hto⟩ := hleavingWithin segment hmem
        exact ⟨hfrom ▸ hnode, Nat.lt_of_lt_of_le hto hafter⟩
  · refine { sha := rfl, incoming := ?_, through := ?_, outgoing := ?_ }
    · intro index lane hlane htarget
      obtain ⟨segment, hmem, hdrawn⟩ := harrivingDrawn index lane hlane htarget
      exact ⟨segment, mem_append_left _ (mem_append_right _ hmem), hdrawn⟩
    · intro index lane hlane htarget
      obtain ⟨segment, hmem, hdrawn⟩ := hthroughDrawn index lane hlane fun hid =>
        htarget ((hresolved lane (mem_of_getElem? hlane)).mp hid)
      exact ⟨segment, mem_append_left _ (mem_append_left _ hmem), hdrawn⟩
    · intro parentSha hparent
      obtain ⟨lane, hlane, htarget, colorId, hout⟩ := hholds.parents parentSha hparent
      obtain ⟨segment, hmem, hshape, hfrom, hto⟩ := hleavingDrawn lane hlane colorId hout
      exact ⟨segment, mem_append_right _ hmem, hshape, hfrom, lane, hto, htarget⟩

end LayoutState.Valid

/-- The rows of some commits, drawn one under the other from the given lanes. -/
inductive Drawn : List ActiveLane → List GitHistoryCommit → List GraphRow → Prop where
  | nil (lanes : List ActiveLane) : Drawn lanes [] []
  | cons {before after : List ActiveLane} {commit : GitHistoryCommit} {row : GraphRow}
      {commits : List GitHistoryCommit} {rows : List GraphRow}
      (hrow : RowDrawn before commit row after) (hrest : Drawn after commits rows) :
      Drawn before (commit :: commits) (row :: rows)

theorem LayoutState.Valid.rows {state : LayoutState} (hvalid : state.Valid)
    (headSha : Option String) (commits : List GitHistoryCommit) :
    ∃ final rows, commits.foldlM (layoutRow headSha) state = some final ∧ final.Valid ∧
      final.layout.rows = state.layout.rows ++ rows ∧ Drawn state.activeLanes commits rows := by
  induction commits generalizing state with
  | nil => exact ⟨state, [], rfl, hvalid, (append_nil _).symm, .nil _⟩
  | cons commit commits ih =>
    obtain ⟨next, row, hnext, hstep, hrows, hdrawn⟩ := hvalid.row headSha commit
    obtain ⟨final, rows, hfinal, hend, hadded, hrest⟩ := ih hstep
    refine ⟨final, row :: rows, ?_, hend, ?_, .cons hdrawn hrest⟩
    · rw [foldlM_cons, hnext]
      exact hfinal
    · rw [hadded, hrows, append_assoc, singleton_append]

theorem LayoutState.valid_init : LayoutState.Valid {} where
  nodup := nodup_nil
  fresh := fun _ hlane => absurd hlane not_mem_nil
  within := fun _ hrow => absurd hrow not_mem_nil

/-- From a lane above these rows, segments lead through them and into the node of the last. -/
def Reaches (lane : Nat) : List GraphRow → GraphRow → Prop
  | [], last => ∃ segment ∈ last.segments, segment.shape = .incoming ∧
      segment.fromLane = lane ∧ segment.toLane = last.nodeLane
  | row :: rows, last => ∃ segment ∈ row.segments, segment.shape = .through ∧
      segment.fromLane = lane ∧ Reaches segment.toLane rows last

/-- The edge from the commit of one row to that of a later one is drawn without a gap. -/
def Connected (rows : List GraphRow) (child parent : Nat) : Prop :=
  ∃ childRow parentRow, rows[child]? = some childRow ∧ rows[parent]? = some parentRow ∧
    ∃ segment ∈ childRow.segments, segment.shape = .outgoing ∧
      segment.fromLane = childRow.nodeLane ∧
      Reaches segment.toLane ((rows.drop (child + 1)).take (parent - (child + 1))) parentRow

/-- Distinct commits, of which each that is a parent comes after its children. -/
structure ChildrenFirst (commits : List GitHistoryCommit) : Prop where
  nodup : (commits.map GitHistoryCommit.sha).Nodup
  order : ∀ (child parent : Nat) (childCommit parentCommit : GitHistoryCommit),
    commits[child]? = some childCommit → commits[parent]? = some parentCommit →
      parentCommit.sha ∈ childCommit.parentShas → child < parent

namespace Drawn

variable {before : List ActiveLane} {commits : List GitHistoryCommit} {rows : List GraphRow}

variable (hdrawn : Drawn before commits rows)
include hdrawn

theorem shas : rows.map GraphRow.sha = commits.map GitHistoryCommit.sha := by
  induction hdrawn with
  | nil => rfl
  | cons hrow hrest ih => rw [map_cons, map_cons, hrow.sha, ih]

theorem reaches {index : Nat} {lane : ActiveLane} (hlane : before[index]? = some lane)
    {target : Nat} {commit : GitHistoryCommit} (hcommit : commits[target]? = some commit)
    (htarget : lane.targetSha = commit.sha)
    (hfirst : ∀ earlier < target, ∀ other, commits[earlier]? = some other → other.sha ≠ commit.sha) :
    ∃ row, rows[target]? = some row ∧ Reaches index (rows.take target) row := by
  induction hdrawn generalizing index target with
  | nil => simp at hcommit
  | @cons before after head row commits rows hrow hrest ih =>
    cases target with
    | zero =>
      obtain rfl : head = commit := Option.some.inj hcommit
      obtain ⟨segment, hsegment, hshape, hfrom, hto⟩ := hrow.incoming index lane hlane htarget
      exact ⟨row, rfl, segment, hsegment, hshape, hfrom, hto⟩
    | succ target =>
      have hpast : lane.targetSha ≠ head.sha := fun hsame =>
        hfirst 0 (Nat.succ_pos target) head rfl (hsame.symm.trans htarget)
      obtain ⟨segment, hsegment, hshape, hfrom, hafter⟩ :=
        hrow.through index lane hlane hpast
      obtain ⟨last, hlast, hreaches⟩ := ih hafter hcommit fun earlier hearlier other hother =>
        hfirst (earlier + 1) (Nat.succ_lt_succ hearlier) other hother
      exact ⟨last, hlast, segment, hsegment, hshape, hfrom, hreaches⟩

theorem connected (hnodup : (commits.map GitHistoryCommit.sha).Nodup) {child parent : Nat}
    (horder : child < parent) {childCommit parentCommit : GitHistoryCommit}
    (hchild : commits[child]? = some childCommit) (hparent : commits[parent]? = some parentCommit)
    (hedge : parentCommit.sha ∈ childCommit.parentShas) : Connected rows child parent := by
  induction hdrawn generalizing child parent with
  | nil => simp at hchild
  | @cons before after head row commits rows hrow hrest ih =>
    obtain ⟨parent, rfl⟩ : ∃ above, parent = above + 1 := ⟨parent - 1, by omega⟩
    rw [List.map_cons] at hnodup
    cases child with
    | zero =>
      obtain rfl : head = childCommit := Option.some.inj hchild
      obtain ⟨segment, hsegment, hshape, hfrom, lane, hlane, htarget⟩ :=
        hrow.outgoing _ hedge
      have hfirst : ∀ earlier < parent, ∀ other, commits[earlier]? = some other →
          other.sha ≠ parentCommit.sha := by
        intro earlier hearlier other hother hsame
        have hlookup : (commits.map GitHistoryCommit.sha)[earlier]? =
            (commits.map GitHistoryCommit.sha)[parent]? := by
          rw [List.getElem?_map, List.getElem?_map, hother,
            List.getElem?_cons_succ.symm.trans hparent, Option.map_some, Option.map_some, hsame]
        have hbound : earlier < (commits.map GitHistoryCommit.sha).length := by
          rw [List.length_map]
          exact (List.getElem?_eq_some_iff.mp hother).1
        exact Nat.ne_of_lt hearlier ((List.getElem?_inj hbound hnodup.of_cons).mp hlookup)
      obtain ⟨last, hlast, hreaches⟩ := hrest.reaches hlane hparent htarget hfirst
      refine ⟨row, last, rfl, hlast, segment, hsegment, hshape, hfrom, ?_⟩
      simpa using hreaches
    | succ child =>
      obtain ⟨childRow, parentRow, hchildRow, hparentRow, hdrawn⟩ :=
        ih hnodup.of_cons (Nat.lt_of_succ_lt_succ horder) hchild hparent
      refine ⟨childRow, parentRow, hchildRow, hparentRow, ?_⟩
      simpa using hdrawn

end Drawn

/-- The layout of every list is complete, its lanes are distinct after every row and its rows
within the lane count; children come first, and every edge is drawn without a gap. -/
theorem layoutGraph_wellFormed (commits : List GitHistoryCommit) (headSha : Option String) :
    ∃ layout, layoutGraph commits headSha = some layout ∧
      layout.rows.map GraphRow.sha = commits.map GitHistoryCommit.sha ∧
      (∀ row ∈ layout.rows, row.Within layout.maxLaneCount) ∧
      (∀ count, ∃ state, layoutRows (commits.take count) headSha = some state ∧
        (laneIds state.activeLanes).Nodup) ∧
      (ChildrenFirst commits → ∀ (child parent : Nat)
        (childCommit parentCommit : GitHistoryCommit), commits[child]? = some childCommit →
          commits[parent]? = some parentCommit → parentCommit.sha ∈ childCommit.parentShas →
            Connected layout.rows child parent) := by
  obtain ⟨final, rows, hfinal, hvalid, hrows, hdrawn⟩ :=
    LayoutState.valid_init.rows headSha commits
  obtain rfl : final.layout.rows = rows := hrows
  refine ⟨final.layout, ?_, hdrawn.shas, hvalid.within, fun count => ?_, ?_⟩
  · rw [layoutGraph, layoutRows, hfinal, Option.map_some]
  · obtain ⟨state, -, hstate, hvalid, -⟩ :=
      LayoutState.valid_init.rows headSha (commits.take count)
    exact ⟨state, hstate, hvalid.nodup⟩
  · intro hordered child parent childCommit parentCommit hchild hparent hedge
    exact hdrawn.connected hordered.nodup
      (hordered.order child parent childCommit parentCommit hchild hparent hedge) hchild hparent
      hedge

/-- A merge that names one parent twice and shares another with its child. -/
def octopus : List GitHistoryCommit :=
  [⟨"m", ["a", "b", "a"]⟩, ⟨"b", ["r"]⟩, ⟨"a", ["r"]⟩, ⟨"r", []⟩]

theorem layoutGraph_wellFormed_octopus : ∃ layout, layoutGraph octopus (some "m") = some layout ∧
    Connected layout.rows 0 1 ∧ Connected layout.rows 0 2 ∧ Connected layout.rows 1 3 := by
  obtain ⟨layout, hlayout, -, -, -, hconnected⟩ := layoutGraph_wellFormed octopus (some "m")
  have horder : ∀ child parent : Fin octopus.length,
      (octopus.get parent).sha ∈ (octopus.get child).parentShas → child < parent := by decide
  have hfirst : ChildrenFirst octopus := by
    refine { nodup := by decide, order := ?_ }
    intro child parent childCommit parentCommit hchild hparent hedge
    obtain ⟨hchildIn, rfl⟩ := List.getElem?_eq_some_iff.mp hchild
    obtain ⟨hparentIn, rfl⟩ := List.getElem?_eq_some_iff.mp hparent
    exact horder ⟨child, hchildIn⟩ ⟨parent, hparentIn⟩ hedge
  refine ⟨layout, hlayout, ?_, ?_, ?_⟩
  · exact hconnected hfirst 0 1 _ _ rfl rfl (by decide)
  · exact hconnected hfirst 0 2 _ _ rfl rfl (by decide)
  · exact hconnected hfirst 1 3 _ _ rfl rfl (by decide)

end Keel.History
