import Mathlib.Logic.Basic
import Mathlib.Tactic.Common

/-! # Stores whose every change is a fresh revision

A store holds at most one item under each key. An item carries a version, and an
item put where it was not before has a version that no earlier item had under that
key. The store keeps its history, so that freshness can be checked and the author
of an item is known.

A version that was once used under a key therefore never comes back there: where
it is found after any number of changes, nothing has changed in between. This is
what a compare-and-swap on versions relies on.
-/

namespace Revisions

open Function

universe u

/-- One item put under a key, and by whom. -/
structure Revision (Key Item Author : Type u) where
  key : Key
  item : Item
  author : Author

/-- What is held under each key now, and every item that ever was. -/
structure Store (Key Item Author : Type u) where
  current : Key → Option Item
  history : List (Revision Key Item Author)

namespace Store

variable {Key Item Author Version : Type u} {version : Item → Version}
  {before middle after : Store Key Item Author} {key : Key} {item : Item} {author : Author}

def Spent (version : Item → Version) (store : Store Key Item Author) (key : Key) (used : Version) :
    Prop :=
  ∃ revision ∈ store.history, revision.key = key ∧ version revision.item = used

/-- Everything the store holds is in its history. -/
def Traced (store : Store Key Item Author) : Prop :=
  ∀ key item, store.current key = some item →
    ∃ revision ∈ store.history, revision.key = key ∧ revision.item = item

instance (version : Item → Version) (store : Store Key Item Author) (key : Key) (used : Version)
    [DecidableEq Key] [DecidableEq Version] : Decidable (Spent version store key used) :=
  inferInstanceAs (Decidable (∃ revision ∈ store.history, _))

/-- An item that is there already, or whose version is fresh, is put under the key. -/
def put [DecidableEq Key] [DecidableEq Item] [DecidableEq Version] (version : Item → Version)
    (store : Store Key Item Author) (author : Author) (key : Key) (item : Item) :
    Option (Store Key Item Author) :=
  if store.current key = some item ∨ ¬ Spent version store key (version item) then
    some { current := update store.current key (some item)
           history := store.history ++ [⟨key, item, author⟩] }
  else none

def remove [DecidableEq Key] (store : Store Key Item Author) (key : Key) : Store Key Item Author :=
  { store with current := update store.current key none }

section Put

variable [DecidableEq Key] [DecidableEq Item] [DecidableEq Version]

variable (hput : before.put version author key item = some after)
include hput

theorem fresh_of_put :
    before.current key = some item ∨ ¬ Spent version before key (version item) := by
  rw [put] at hput
  split at hput
  next hfresh => exact hfresh
  · cases hput

theorem current_put : after.current = update before.current key (some item) := by
  rw [put] at hput
  split at hput
  · exact congrArg current (Option.some.inj hput).symm
  · cases hput

theorem history_put : after.history = before.history ++ [⟨key, item, author⟩] := by
  rw [put] at hput
  split at hput
  · exact congrArg history (Option.some.inj hput).symm
  · cases hput

end Put

theorem current_of_remove [DecidableEq Key] {removed : Key}
    (hcurrent : (before.remove removed).current key = some item) :
    before.current key = some item := by
  simp only [remove] at hcurrent
  by_cases hkey : key = removed
  · subst hkey
    rw [update_self] at hcurrent
    cases hcurrent
  · rwa [update_of_ne hkey] at hcurrent

/-- A store after any number of changes: the history grows, and an item that was not
there has a version that had not been used. -/
structure Later (version : Item → Version) (before after : Store Key Item Author) : Prop where
  grows : ∀ revision ∈ before.history, revision ∈ after.history
  fresh : ∀ key item, after.current key = some item →
    before.current key = some item ∨ ¬ Spent version before key (version item)

namespace Later

theorem refl (store : Store Key Item Author) : Later version store store where
  grows _ hmem := hmem
  fresh _ _ hcurrent := .inl hcurrent

theorem spent (hlater : Later version before after) {used : Version}
    (hspent : Spent version before key used) : Spent version after key used := by
  obtain ⟨revision, hmem, hkey, hused⟩ := hspent
  exact ⟨revision, hlater.grows revision hmem, hkey, hused⟩

theorem trans (hfirst : Later version before middle) (hsecond : Later version middle after) :
    Later version before after where
  grows revision hmem := hsecond.grows revision (hfirst.grows revision hmem)
  fresh key item hcurrent := by
    cases hsecond.fresh key item hcurrent with
    | inl hmiddle => exact hfirst.fresh key item hmiddle
    | inr hunspent => exact .inr fun hspent => hunspent (hfirst.spent hspent)

/-- A version that was used does not come back: the item found with it was there all along. -/
theorem current_of_spent (hlater : Later version before after) {used : Version}
    (hspent : Spent version before key used) (hcurrent : after.current key = some item)
    (hversion : version item = used) : before.current key = some item := by
  cases hlater.fresh key item hcurrent with
  | inl hbefore => exact hbefore
  | inr hunspent => exact absurd (hversion ▸ hspent) hunspent

variable [DecidableEq Key]

theorem put [DecidableEq Item] [DecidableEq Version]
    (hput : before.put version author key item = some after) : Later version before after where
  grows revision hmem := by
    rw [history_put hput]
    exact List.mem_append_left _ hmem
  fresh other found hcurrent := by
    rw [current_put hput] at hcurrent
    by_cases hkey : other = key
    · subst hkey
      rw [update_self, Option.some.injEq] at hcurrent
      exact hcurrent ▸ fresh_of_put hput
    · rw [update_of_ne hkey] at hcurrent
      exact .inl hcurrent

theorem remove (store : Store Key Item Author) (key : Key) :
    Later version store (store.remove key) where
  grows _ hmem := hmem
  fresh _ _ hcurrent := .inl (current_of_remove hcurrent)

end Later

namespace Traced

theorem put [DecidableEq Key] [DecidableEq Item] [DecidableEq Version] (htraced : before.Traced)
    (hput : before.put version author key item = some after) : after.Traced := by
  intro other found hcurrent
  rw [history_put hput]
  rw [current_put hput] at hcurrent
  by_cases hkey : other = key
  · subst hkey
    rw [update_self, Option.some.injEq] at hcurrent
    exact ⟨⟨other, item, author⟩, by simp, rfl, hcurrent⟩
  · rw [update_of_ne hkey] at hcurrent
    obtain ⟨revision, hmem, hfound⟩ := htraced other found hcurrent
    exact ⟨revision, List.mem_append_left _ hmem, hfound⟩

theorem remove [DecidableEq Key] (htraced : before.Traced) (key : Key) : (before.remove key).Traced :=
  fun other found hcurrent => htraced other found (current_of_remove hcurrent)

theorem spent {store : Store Key Item Author} (htraced : store.Traced)
    (hcurrent : store.current key = some item) : Spent version store key (version item) := by
  obtain ⟨revision, hmem, hkey, hitem⟩ := htraced key item hcurrent
  exact ⟨revision, hmem, hkey, hitem ▸ rfl⟩

end Traced

end Store

end Revisions
