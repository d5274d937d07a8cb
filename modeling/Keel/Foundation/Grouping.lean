import Mathlib.Data.List.Induction
import Mathlib.Data.List.Nodup

/-! # Grouping items by a key

Items are gathered under their keys, which stand in the order in which they first appear.
-/

namespace Grouping

open List

variable {Item Key Value : Type} [DecidableEq Key] (key : Item → Key)

/-- The keys of the items, in the order in which they first appear. -/
def keys (items : List Item) : List Key :=
  items.foldl (fun seen item => if key item ∈ seen then seen else seen ++ [key item]) []

def rank (items : List Item) (wanted : Key) : Nat := (keys key items).idxOf wanted

def having (items : List Item) (wanted : Key) : List Item :=
  items.filter fun item => key item = wanted

variable {key} {items : List Item} {item : Item} {wanted : Key}

theorem keys_snoc_of_mem (hold : key item ∈ keys key items) :
    keys key (items ++ [item]) = keys key items := by
  rw [keys, foldl_append]
  exact if_pos hold

theorem keys_snoc_of_not_mem (hnew : key item ∉ keys key items) :
    keys key (items ++ [item]) = keys key items ++ [key item] := by
  rw [keys, foldl_append]
  exact if_neg hnew

theorem mem_keys : wanted ∈ keys key items ↔ ∃ item ∈ items, key item = wanted := by
  induction items using List.reverseRecOn generalizing wanted with
  | nil => simp [keys]
  | append_singleton items item ih =>
    by_cases hold : key item ∈ keys key items
    · rw [keys_snoc_of_mem hold, ih]
      constructor
      · rintro ⟨other, hother, rfl⟩
        exact ⟨other, mem_append_left _ hother, rfl⟩
      · rintro ⟨other, hother, rfl⟩
        rcases mem_append.mp hother with hin | hlast
        · exact ⟨other, hin, rfl⟩
        · rw [mem_singleton.mp hlast]
          exact ih.mp hold
    · rw [keys_snoc_of_not_mem hold, mem_append, ih]
      simp [or_and_right, exists_or, eq_comm]

theorem key_mem_keys_snoc (key : Item → Key) (items : List Item) (item : Item) :
    key item ∈ keys key (items ++ [item]) :=
  mem_keys.2 ⟨item, by simp, rfl⟩

theorem mem_keys_of_snoc (hwanted : wanted ∈ keys key (items ++ [item]))
    (hne : wanted ≠ key item) : wanted ∈ keys key items := by
  obtain ⟨other, hother, hsame⟩ := mem_keys.1 hwanted
  rcases mem_append.mp hother with hin | hlast
  · exact mem_keys.2 ⟨other, hin, hsame⟩
  · rw [mem_singleton.mp hlast] at hsame
    exact absurd hsame.symm hne

theorem nodup_keys (key : Item → Key) (items : List Item) : (keys key items).Nodup := by
  induction items using List.reverseRecOn with
  | nil => exact nodup_nil
  | append_singleton items item ih =>
    by_cases hold : key item ∈ keys key items
    · rw [keys_snoc_of_mem hold]
      exact ih
    · rw [keys_snoc_of_not_mem hold]
      exact concat_eq_append ▸ ih.concat hold

theorem rank_lt (hwanted : wanted ∈ keys key items) :
    rank key items wanted < (keys key items).length :=
  idxOf_lt_length_of_mem hwanted

theorem rank_inj {other : Key} (hwanted : wanted ∈ keys key items) :
    rank key items wanted = rank key items other ↔ wanted = other :=
  idxOf_inj hwanted

theorem rank_snoc (hold : wanted ∈ keys key items) :
    rank key (items ++ [item]) wanted = rank key items wanted := by
  rw [rank, rank]
  by_cases hitem : key item ∈ keys key items
  · rw [keys_snoc_of_mem hitem]
  · rw [keys_snoc_of_not_mem hitem, idxOf_append_of_mem hold]

theorem rank_snoc_new (hnew : key item ∉ keys key items) :
    rank key (items ++ [item]) (key item) = (keys key items).length := by
  rw [rank, keys_snoc_of_not_mem hnew, idxOf_append_of_notMem hnew, idxOf_cons_self,
    Nat.add_zero]

theorem having_snoc_self (hkey : key item = wanted) :
    having key (items ++ [item]) wanted = having key items wanted ++ [item] := by
  simp [having, hkey]

theorem having_snoc_of_ne (items : List Item) (hkey : key item ≠ wanted) :
    having key (items ++ [item]) wanted = having key items wanted := by
  simp [having, hkey]

theorem having_eq_nil (hnew : wanted ∉ keys key items) : having key items wanted = [] :=
  filter_eq_nil_iff.mpr fun item hitem hkey =>
    hnew (mem_keys.2 ⟨item, hitem, of_decide_eq_true hkey⟩)

theorem getElem?_map_rank (value : Key → Value) (hwanted : wanted ∈ keys key items) :
    ((keys key items).map value)[rank key items wanted]? = some (value wanted) := by
  rw [getElem?_map, rank, getElem?_idxOf hwanted, Option.map_some]

theorem set_map_rank {old new : Key → Value} (hwanted : wanted ∈ keys key items)
    (hother : ∀ other, other ≠ wanted → old other = new other) :
    ((keys key items).map old).set (rank key items wanted) (new wanted) =
      (keys key items).map new := by
  apply List.ext_getElem?
  intro place
  rw [List.getElem?_set, List.getElem?_map, List.length_map]
  by_cases hplace : rank key items wanted = place
  · rw [if_pos hplace, if_pos (hplace ▸ rank_lt hwanted), ← hplace, getElem?_map_rank _ hwanted]
  · rw [if_neg hplace, List.getElem?_map]
    cases hat : (keys key items)[place]? with
    | none => rfl
    | some other =>
      refine congrArg some (hother other fun hsame => hplace ?_)
      obtain ⟨hlt, rfl⟩ := List.getElem?_eq_some_iff.mp hat
      rw [rank, ← hsame, (nodup_keys key items).idxOf_getElem]

end Grouping
