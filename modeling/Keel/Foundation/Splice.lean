import Mathlib.Data.List.Nodup
import Mathlib.Data.List.Perm.Basic

/-! # Reordering a list by moves behind a predecessor

A target order is replayed onto a list of distinct elements. The target is
walked from its head. A marked element is taken out of the list, if it is there,
and put back right behind the element before it in the target; an unmarked one
stays where it is. The target order is reached exactly when the unmarked
elements already stand in their target order.
-/

namespace Splice

open List

universe u

variable {K : Type u} [DecidableEq K]

/-- Put a value behind the first occurrence of the anchor, or in front. -/
def insertAfter (anchor : Option K) (value : K) (list : List K) : Option (List K) :=
  match anchor with
  | none => some (value :: list)
  | some anchor => (list.idxOf? anchor).map fun index => list.insertIdx (index + 1) value

def moveAfter (anchor : Option K) (value : K) (list : List K) : Option (List K) :=
  insertAfter anchor value (list.erase value)

/-- Walk the target behind `anchor` and move the marked elements. -/
def replay (moved : K → Bool) : Option K → List K → List K → Option (List K)
  | _, [], current => some current
  | anchor, value :: rest, current =>
    if moved value then (moveAfter anchor value current).bind (replay moved (some value) rest)
    else replay moved (some value) rest current

omit [DecidableEq K] in
theorem insertIdx_length_append (front back : List K) (value : K) :
    (front ++ back).insertIdx front.length value = front ++ value :: back := by
  induction front with
  | nil => simp
  | cons head tail ih => simp [ih]

theorem insertAfter_spec {anchor : Option K} {list : List K} (value : K)
    (hanchor : ∀ element ∈ anchor, element ∈ list) :
    ∃ front back, list = front ++ back ∧ front.getLast? = anchor ∧
      insertAfter anchor value list = some (front ++ value :: back) := by
  cases anchor with
  | none => exact ⟨[], list, rfl, rfl, rfl⟩
  | some anchor =>
    obtain ⟨front, back, rfl, hfront⟩ := eq_append_cons_of_mem (hanchor anchor rfl)
    refine ⟨front ++ [anchor], back, by simp, by simp, ?_⟩
    have hindex : (front ++ anchor :: back).idxOf? anchor = some front.length := by
      rw [idxOf?_eq_some_iff]
      refine ⟨by simp, by simp, ?_⟩
      intro index hindex
      rw [getElem_append_left hindex]
      rintro rfl
      exact hfront (getElem_mem hindex)
    have hsplit := insertIdx_length_append (front ++ [anchor]) back value
    simp only [length_append, length_singleton, append_assoc,
      singleton_append] at hsplit
    simp [insertAfter, hindex, hsplit]

/-- How far a replay has come: `done` is the part of the target already walked,
`rest` the part ahead. -/
structure Replaying (moved : K → Bool) (done rest current : List K) : Prop where
  target : (done ++ rest).Nodup
  nodup : current.Nodup
  done_mem : ∀ value ∈ done, value ∈ current
  kept_mem : ∀ value ∈ rest, moved value = false → value ∈ current
  only : ∀ value ∈ current, value ∈ done ++ rest

/-- The elements that are in place once `done` is walked. -/
def inPlace (moved : K → Bool) (done : List K) (value : K) : Bool :=
  decide (value ∈ done) || !moved value

variable {moved : K → Bool} {value : K} {done rest current : List K}

omit [DecidableEq K] in
theorem Replaying.keep (hstate : Replaying moved done (value :: rest) current)
    (hvalue : moved value = false) : Replaying moved (done ++ [value]) rest current where
  target := by simpa using hstate.target
  nodup := hstate.nodup
  done_mem := by
    intro other hother
    rcases mem_append.mp hother with hdone | hlast
    · exact hstate.done_mem other hdone
    · obtain rfl := mem_singleton.mp hlast
      exact hstate.kept_mem other mem_cons_self hvalue
  kept_mem other hother := hstate.kept_mem other (mem_cons_of_mem _ hother)
  only := by simpa using hstate.only

/-- A move takes the value out of one split of the list and puts it into
another, right behind the last walked element. -/
theorem Replaying.moveAfter_spec (hstate : Replaying moved done (value :: rest) current) :
    ∃ front back, current.erase value = front ++ back ∧ front.getLast? = done.getLast? ∧
      moveAfter done.getLast? value current = some (front ++ value :: back) := by
  apply insertAfter_spec value
  intro anchor hanchor
  have hdone : anchor ∈ done := mem_of_getLast? hanchor
  have hne : anchor ≠ value := by
    rintro rfl
    exact disjoint_of_nodup_append hstate.target hdone mem_cons_self
  exact (mem_erase_of_ne hne).mpr (hstate.done_mem anchor hdone)

theorem Replaying.move {front back : List K}
    (hstate : Replaying moved done (value :: rest) current)
    (hsplit : current.erase value = front ++ back) :
    Replaying moved (done ++ [value]) rest (front ++ value :: back) := by
  have hmem (other : K) : other ∈ front ++ value :: back ↔ other = value ∨ other ∈ current := by
    rw [mem_append, mem_cons, or_left_comm, ← mem_append, ← hsplit,
      hstate.nodup.mem_erase_iff]
    tauto
  refine ⟨by simpa using hstate.target, ?_, ?_, ?_, ?_⟩
  · rw [nodup_middle, ← hsplit]
    exact nodup_cons.mpr ⟨hstate.nodup.not_mem_erase, hstate.nodup.erase value⟩
  · intro other hother
    rw [hmem]
    rcases mem_append.mp hother with hdone | hlast
    · exact .inr (hstate.done_mem other hdone)
    · exact .inl (mem_singleton.mp hlast)
  · intro other hother hkept
    rw [hmem]
    exact .inr (hstate.kept_mem other (mem_cons_of_mem _ hother) hkept)
  · intro other hother
    rw [hmem] at hother
    rcases hother with rfl | hother
    · simp
    · simpa using hstate.only other hother

theorem filter_move {front back : List K} {keeps : K → Bool} (hnodup : current.Nodup)
    (hsplit : current.erase value = front ++ back) (hvalue : keeps value = false) :
    (front ++ value :: back).filter keeps = current.filter keeps := by
  have herase : (current.erase value).filter keeps = current.filter keeps := by
    rw [hnodup.erase_eq_filter, filter_filter]
    apply filter_congr
    intro other _
    by_cases hother : other = value
    · simp [hother, hvalue]
    · simp [hother]
  rw [← herase, hsplit]
  simp [hvalue]

/-- While the elements in place stand in target order, a move puts one more of
them there. -/
theorem Replaying.inPlace_move {front back : List K}
    (hstate : Replaying moved done (value :: rest) current) (hmoved : moved value = true)
    (hsplit : current.erase value = front ++ back) (hlast : front.getLast? = done.getLast?)
    (hview : current.filter (inPlace moved done) =
      done ++ (value :: rest).filter fun other => !moved other) :
    (front ++ value :: back).filter (inPlace moved (done ++ [value])) =
      done ++ value :: rest.filter fun other => !moved other := by
  have hfresh : value ∉ done := fun hdone =>
    disjoint_of_nodup_append hstate.target hdone mem_cons_self
  have hrest : (front ++ back).filter (inPlace moved done) =
      done ++ rest.filter fun other => !moved other := by
    have hunseen : inPlace moved done value = false := by simp [inPlace, hfresh, hmoved]
    have hview' := filter_move hstate.nodup hsplit hunseen
    rw [hview, filter_append, filter_cons, hunseen] at hview'
    simpa [hmoved] using hview'
  have hnodup : (front ++ back).Nodup := hsplit ▸ hstate.nodup.erase value
  have hother : ∀ other ∈ front ++ back,
      inPlace moved (done ++ [value]) other = inPlace moved done other := by
    intro other hmem
    have hne : other ≠ value := by
      rintro rfl
      rw [← hsplit] at hmem
      exact hstate.nodup.not_mem_erase hmem
    simp [inPlace, hne]
  have hfront : front.filter (inPlace moved (done ++ [value])) = front.filter (inPlace moved done) :=
    filter_congr fun other hmem => hother other (mem_append_left _ hmem)
  have hback : back.filter (inPlace moved (done ++ [value])) = back.filter (inPlace moved done) :=
    filter_congr fun other hmem => hother other (mem_append_right _ hmem)
  rw [filter_append, filter_cons, hfront, hback]
  rw [filter_append] at hrest
  have hseen : inPlace moved (done ++ [value]) value = true := by simp [inPlace]
  rw [if_pos hseen]
  cases hend : done.getLast? with
  | none =>
    rw [hend] at hlast
    obtain rfl := getLast?_eq_none_iff.mp hlast
    obtain rfl := getLast?_eq_none_iff.mp hend
    simpa using hrest
  | some anchor =>
    -- Both splits end their front in the anchor, which occurs only once.
    rw [hend] at hlast
    obtain ⟨front, rfl⟩ := getLast?_eq_some_iff.mp hlast
    obtain ⟨done, rfl⟩ := getLast?_eq_some_iff.mp hend
    have hanchor : inPlace moved (done ++ [anchor]) anchor = true := by simp [inPlace]
    rw [append_assoc, singleton_append, nodup_middle, nodup_cons,
      mem_append, not_or] at hnodup
    simp only [filter_append, filter_cons, hanchor, if_true, filter_nil,
      append_assoc, singleton_append] at hrest ⊢
    obtain ⟨hfront, -, hback⟩ := (append_cons_inj_of_notMem
      (fun hmem => hnodup.1.1 (mem_of_mem_filter hmem))
      (fun hmem => hnodup.1.2 (mem_of_mem_filter hmem))).mp hrest
    rw [hfront, hback]

/-- A replay completes. It leaves the unmarked elements as they stood, and
reaches the target if the elements in place stand in target order. -/
theorem Replaying.replay_spec (hstate : Replaying moved done rest current) :
    ∃ result, replay moved done.getLast? rest current = some result ∧
      Replaying moved (done ++ rest) [] result ∧
      (result.filter fun other => !moved other) = (current.filter fun other => !moved other) ∧
      (current.filter (inPlace moved done) = done ++ (rest.filter fun other => !moved other) →
        result = done ++ rest) := by
  induction rest generalizing done current with
  | nil =>
    refine ⟨current, rfl, by simpa using hstate, rfl, ?_⟩
    intro hview
    have hall : current.filter (inPlace moved done) = current := by
      apply filter_eq_self.mpr
      intro other hother
      have hdone : other ∈ done := by simpa using hstate.only other hother
      simp [inPlace, hdone]
    rw [hall] at hview
    simpa using hview
  | cons value rest ih =>
    cases hmoved : moved value with
    | false =>
      obtain ⟨result, hreplay, hdone, hkept, hreach⟩ := ih (hstate.keep hmoved)
      refine ⟨result, ?_, by simpa using hdone, hkept, ?_⟩
      · simpa [replay, hmoved] using hreplay
      · intro hview
        rw [filter_cons, hmoved] at hview
        have hsame : inPlace moved (done ++ [value]) = inPlace moved done := by
          funext other
          by_cases hother : other = value
          · simp [inPlace, hother, hmoved]
          · simp [inPlace, hother]
        have hreached := hreach (by rw [hsame, hview]; simp)
        simpa using hreached
    | true =>
      obtain ⟨front, back, hsplit, hlast, hmove⟩ := hstate.moveAfter_spec
      obtain ⟨result, hreplay, hdone, hkept, hreach⟩ := ih (hstate.move hsplit)
      refine ⟨result, ?_, by simpa using hdone, ?_, ?_⟩
      · simpa [replay, hmoved, hmove] using hreplay
      · rw [hkept, filter_move hstate.nodup hsplit (by simp [hmoved])]
      · intro hview
        have hreached := hreach (by
          rw [hstate.inPlace_move hmoved hsplit hlast hview]
          simp)
        simpa using hreached

/-- A replay from the head reaches the target if and only if the unmarked
elements stand in target order. -/
theorem replay_eq_target_iff {target : List K} (hstate : Replaying moved [] target current) :
    ∃ result, replay moved none target current = some result ∧ result.Nodup ∧
      (∀ other, other ∈ result ↔ other ∈ target) ∧
      (result = target ↔ (target.filter fun other => !moved other).Sublist current) := by
  obtain ⟨result, hreplay, hdone, hkept, hreach⟩ := hstate.replay_spec
  refine ⟨result, hreplay, hdone.nodup, ?_, ?_, ?_⟩
  · intro other
    exact ⟨fun hmem => by simpa using hdone.only other hmem,
      fun hmem => hdone.done_mem other (by simpa using hmem)⟩
  · rintro rfl
    rw [hkept]
    exact filter_sublist
  · intro hsublist
    apply hreach
    have hview : inPlace moved [] = fun other => !moved other := by
      funext other
      simp [inPlace]
    -- Both sides list the unmarked elements once each, one inside the other.
    have hfilter := hsublist.filter fun other => !moved other
    rw [filter_filter] at hfilter
    simp only [Bool.and_self] at hfilter
    rw [hview, nil_append]
    refine (hfilter.eq_of_length ?_).symm
    refine List.Perm.length_eq ((perm_ext_iff_of_nodup
      (hstate.target.filter _) (hstate.nodup.filter _)).mpr ?_)
    intro other
    simp only [nil_append, mem_filter, Bool.not_eq_true']
    constructor
    · rintro ⟨hmem, hother⟩
      exact ⟨hstate.kept_mem other hmem hother, hother⟩
    · rintro ⟨hmem, hother⟩
      exact ⟨by simpa using hstate.only other hmem, hother⟩

end Splice
