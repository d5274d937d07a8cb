import Mathlib.Data.List.Basic
import Mathlib.Tactic.Common

/-! # Cutting a list into pieces and putting it together again

The pieces have a fixed size, the last one excepted. A receiver has a slot for each piece and
fills them in any order, some of them several times; it counts the slots that are filled.
-/

namespace Reassembly

open List Option

universe u

variable {α : Type u}

/-- Consecutive pieces of at most `size` elements. -/
def chunks (size : Nat) (list : List α) : List (List α) :=
  (List.range ((list.length + size - 1) / size)).map fun index =>
    (list.drop (index * size)).take size

theorem length_chunks (size : Nat) (list : List α) :
    (chunks size list).length = (list.length + size - 1) / size := by simp [chunks]

theorem length_le_of_mem_chunks {size : Nat} {list piece : List α}
    (hpiece : piece ∈ chunks size list) : piece.length ≤ size := by
  obtain ⟨index, -, rfl⟩ := mem_map.mp hpiece
  exact length_take_le _ _

theorem flatten_pieces (size count : Nat) (list : List α) :
    ((List.range count).map fun index => (list.drop (index * size)).take size).flatten =
      list.take (count * size) := by
  induction count with
  | zero => simp
  | succ count ih =>
    rw [range_succ, map_append, flatten_append, ih, Nat.succ_mul, take_add]
    simp

theorem flatten_chunks {size : Nat} (hsize : 0 < size) (list : List α) :
    (chunks size list).flatten = list := by
  rw [chunks, flatten_pieces, take_of_length_le]
  have hceil := Nat.div_add_mod (list.length + size - 1) size
  have hmod := Nat.mod_lt (list.length + size - 1) hsize
  rw [Nat.mul_comm]
  omega

theorem chunks_ne_nil {size : Nat} (hsize : 0 < size) {list : List α} (hlist : list ≠ []) :
    chunks size list ≠ [] := by
  intro hnone
  have hflatten := flatten_chunks hsize list
  rw [hnone] at hflatten
  exact hlist hflatten.symm

/-- What is in the slots is what belongs there. -/
structure Agrees (slots : List (Option α)) (target : List α) : Prop where
  length : slots.length = target.length
  value : ∀ (index : Nat) (value : α), slots[index]? = some (some value) →
    target[index]? = some value

def filled (slots : List (Option α)) : Nat := slots.countP Option.isSome

theorem agrees_replicate (target : List α) : Agrees (List.replicate target.length none) target := by
  refine ⟨by simp, fun index value hvalue => ?_⟩
  rw [getElem?_replicate] at hvalue
  split at hvalue <;> cases hvalue

theorem filled_replicate (count : Nat) :
    filled (List.replicate count (none : Option α)) = 0 := by simp [filled]

variable {slots : List (Option α)} {target : List α} {index : Nat} {value : α}

theorem Agrees.set (hagrees : Agrees slots target) (hvalue : target[index]? = some value) :
    Agrees (slots.set index (some value)) target := by
  refine ⟨by rw [length_set, hagrees.length], fun other found hfound => ?_⟩
  rw [getElem?_set] at hfound
  split at hfound
  next hindex =>
    split at hfound
    · cases hfound; exact hindex ▸ hvalue
    · cases hfound
  · exact hagrees.value other found hfound

theorem filled_set {slot : Option α} (hslot : slots[index]? = some slot) :
    filled (slots.set index (some value)) = if slot.isNone then filled slots + 1 else filled slots := by
  induction slots generalizing index with
  | nil => simp at hslot
  | cons first rest ih =>
    cases index with
    | zero =>
      obtain rfl : first = slot := by simpa using hslot
      cases first <;> simp [filled]
    | succ index =>
      have hrest := ih (by simpa using hslot)
      simp only [filled, set_cons_succ, countP_cons] at hrest ⊢
      rw [hrest]
      cases slot with
      | none => exact Nat.add_right_comm _ _ _
      | some value => rfl

theorem filled_le_length : filled slots ≤ slots.length := countP_le_length

theorem Agrees.filterMap_eq (hagrees : Agrees slots target) (hfilled : filled slots = slots.length) :
    slots.filterMap id = target := by
  have hall := countP_eq_length.1 hfilled
  have hslots : slots = target.map some := by
    refine ext_getElem? fun index => ?_
    rw [getElem?_map]
    cases hslot : slots[index]? with
    | none =>
      rw [getElem?_eq_none_iff] at hslot
      rw [getElem?_eq_none_iff.2 (hagrees.length ▸ hslot), map_none]
    | some slot =>
      obtain ⟨value, rfl⟩ := isSome_iff_exists.1 (hall slot (mem_of_getElem? hslot))
      rw [hagrees.value index value hslot, map_some]
  rw [hslots, filterMap_map]
  exact filterMap_some

theorem exists_none_of_filled_lt (hfilled : filled slots < slots.length) :
    ∃ index : Nat, slots[index]? = some none := by
  by_contra hnone
  refine Nat.lt_irrefl _ (Nat.lt_of_lt_of_eq hfilled (countP_eq_length.2 fun slot hslot => ?_).symm)
  obtain ⟨index, hindex⟩ := mem_iff_getElem?.1 hslot
  cases slot with
  | none => exact absurd ⟨index, hindex⟩ hnone
  | some value => rfl

end Reassembly
