import Mathlib.Data.List.MinMax

/-! # The first of the least elements

How the first least element of a list depends on its parts, and what can become of it when more
elements are accepted.
-/

namespace Lists

open List

universe u v

variable {α : Type u} {κ : Type v} [LinearOrder κ] {key : α → κ}

/-- The first of the least elements: nothing before it is as small, nothing behind it smaller. -/
theorem argmin_eq_some_iff_append {list : List α} {best : α} :
    list.argmin key = some best ↔ ∃ before after, list = before ++ best :: after ∧
      (∀ value ∈ before, key best < key value) ∧ ∀ value ∈ after, key best ≤ key value := by
  induction list generalizing best with
  | nil => simp
  | cons head tail ih =>
    rw [argmin_cons]
    constructor
    · intro hbest
      cases hrest : tail.argmin key with
      | none =>
        rw [hrest] at hbest
        cases hbest
        rw [argmin_eq_none.mp hrest]
        exact ⟨[], [], rfl, nofun, nofun⟩
      | some least =>
        rw [hrest] at hbest
        obtain ⟨before, after, rfl, hbefore, hafter⟩ := ih.mp hrest
        simp only at hbest
        split at hbest
        next hless =>
          cases hbest
          refine ⟨head :: before, after, rfl, ?_, hafter⟩
          exact forall_mem_cons.mpr ⟨hless, hbefore⟩
        next hless =>
          cases hbest
          have hle := not_lt.mp hless
          refine ⟨[], before ++ least :: after, rfl, nofun, fun value hvalue => ?_⟩
          rcases mem_append.mp hvalue with hmem | hmem
          · exact hle.trans (hbefore value hmem).le
          · rcases mem_cons.mp hmem with rfl | hmem
            · exact hle
            · exact hle.trans (hafter value hmem)
    · rintro ⟨before, after, hlist, hbefore, hafter⟩
      cases before with
      | nil =>
        cases hlist
        cases hrest : tail.argmin key with
        | none => rfl
        | some least =>
          exact if_neg (not_lt.mpr (hafter least (argmin_mem hrest)))
      | cons first before =>
        cases hlist
        obtain ⟨hfirst, hbefore⟩ := forall_mem_cons.mp hbefore
        rw [ih.mpr ⟨before, after, rfl, hbefore, hafter⟩]
        exact if_pos hfirst
theorem argmin_append_congr {first second others more : List α}
    (hfirst : first.argmin key = others.argmin key) (hsecond : second.argmin key = more.argmin key) :
    (first ++ second).argmin key = (others ++ more).argmin key := by
  have happend : ∀ list rest : List α, (list ++ rest).argmin key =
      (list.argmin key).elim (rest.argmin key) fun least =>
        (rest.argmin key).elim (some least) fun other =>
          if key other < key least then some other else some least := by
    intro list rest
    induction list with
    | nil => rfl
    | cons head tail ih =>
      rw [cons_append, argmin_cons, ih, argmin_cons]
      cases tail.argmin key with
      | none => cases rest.argmin key <;> rfl
      | some least =>
        cases rest.argmin key with
        | none =>
          simp only [Option.elim]
          split <;> rfl
        | some other =>
          rcases lt_or_ge (key other) (key least) with hother | hother <;>
            rcases lt_or_ge (key least) (key head) with hleast | hleast
          · simp [hother, hleast, hother.trans hleast]
          · simp [hother, not_lt.mpr hleast]
          · simp [not_lt.mpr hother, hleast]
          · simp [not_lt.mpr hother, not_lt.mpr hleast, not_lt.mpr (hleast.trans hother)]
  rw [happend, happend, hfirst, hsecond]

/-- With more elements accepted, the least one is as before, or one that is new, no larger and
listed before everything accepted so far that is no larger than itself. -/
theorem argmin_filterMap_more {β : Type u} {old new : β → Option α} {list : List β} {best : α}
    (hold : (list.filterMap old).argmin key = some best)
    (hkept : ∀ value ∈ list, ∀ found, old value = some found → new value = some found) :
    ∃ least, (list.filterMap new).argmin key = some least ∧ (least = best ∨
      ∃ before value after, list = before ++ value :: after ∧ old value = none ∧
        new value = some least ∧ key least ≤ key best ∧
        ∀ earlier ∈ before, ∀ other, old earlier = some other → key least < key other) := by
  have hmem : best ∈ list.filterMap new := by
    obtain ⟨value, hvalue, hbest⟩ := mem_filterMap.mp (argmin_mem hold)
    exact mem_filterMap.mpr ⟨value, hvalue, hkept value hvalue best hbest⟩
  cases hnew : (list.filterMap new).argmin key with
  | none =>
    rw [argmin_eq_none.mp hnew] at hmem
    cases hmem
  | some least =>
    refine ⟨least, rfl, ?_⟩
    obtain ⟨found, others, hlist, hbefore, hafter⟩ := argmin_eq_some_iff_append.1 hnew
    obtain ⟨before, rest, rfl, hfirst, hrest⟩ := filterMap_eq_append_iff.mp hlist
    obtain ⟨skipped, value, after, rfl, hskipped, hvalue, hothers⟩ :=
      filterMap_eq_cons_iff.mp hrest
    have hkeep : ∀ {part : List β}, (∀ item ∈ part, item ∈ before ++ (skipped ++ value :: after)) →
        ∀ other ∈ part.filterMap old, other ∈ part.filterMap new := by
      intro part hpart other hother
      obtain ⟨item, hitem, hfound⟩ := mem_filterMap.mp hother
      exact mem_filterMap.mpr ⟨item, hitem, hkept item (hpart item hitem) other hfound⟩
    have hnothing : ∀ item ∈ skipped, old item = none := by
      intro item hitem
      cases hfound : old item with
      | none => rfl
      | some other =>
        have hnone := hskipped item hitem
        rw [hkept item (by simp [hitem]) other hfound] at hnone
        cases hnone
    cases hfound : old value with
    | some other =>
      obtain rfl := Option.some.inj ((hkept value (by simp) other hfound).symm.trans hvalue)
      left
      apply Option.some.inj
      rw [← hold, eq_comm, argmin_eq_some_iff_append]
      refine ⟨before.filterMap old, after.filterMap old, ?_, fun earlier hearlier => ?_,
        fun later hlater => ?_⟩
      · rw [filterMap_append, filterMap_append, filterMap_cons_some hfound,
          filterMap_eq_nil_iff.mpr hnothing, nil_append]
      · exact hbefore earlier (hfirst ▸ hkeep (fun _ => mem_append_left _) earlier hearlier)
      · exact hafter later (hothers ▸ hkeep (fun item hitem => by simp [hitem]) later hlater)
    | none =>
      refine .inr ⟨before ++ skipped, value, after, (append_assoc _ _ _).symm, hfound,
        hvalue, le_of_mem_argmin hmem hnew, fun earlier hearlier other hother => ?_⟩
      rcases mem_append.mp hearlier with hmem | hmem
      · exact hbefore other (hfirst ▸ hkeep (fun _ => mem_append_left _) other
          (mem_filterMap.mpr ⟨earlier, hmem, hother⟩))
      · rw [hnothing earlier hmem] at hother
        cases hother

end Lists
