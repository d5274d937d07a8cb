import Std.Data.ExtTreeMap.Lemmas
import Mathlib.Tactic.Common

/-! # Maps that are filled in towards a goal

A goal gives each key a value or none, and keeps the values that a map starts with. Writing
the goal's value at a key where there is none brings the map closer to the goal, in any order
and however often it is started over: every key holds what it held at the start, or what the
goal gives it.
-/

namespace FillIn

open Std.ExtTreeMap

universe u v

variable {Key : Type u} {Value : Type v} {cmp : Key → Key → Ordering} [Std.TransCmp cmp]
  [Std.LawfulEqCmp cmp]

/-- Write a value, if there is one, where there is none. -/
def fill (map : Std.ExtTreeMap Key Value cmp) (key : Key) (value : Option Value) :
    Std.ExtTreeMap Key Value cmp :=
  match value with
  | none => map
  | some value => map.insertIfNew key value

/-- Every key holds what it held at the start, or what the goal gives it. -/
def Between (start : Std.ExtTreeMap Key Value cmp) (goal : Key → Option Value)
    (map : Std.ExtTreeMap Key Value cmp) : Prop :=
  ∀ key, map[key]? = start[key]? ∨ map[key]? = goal key

/-- The goal keeps what is there at the start. -/
def Keeps (start : Std.ExtTreeMap Key Value cmp) (goal : Key → Option Value) : Prop :=
  ∀ key value, start[key]? = some value → goal key = some value

variable {start map : Std.ExtTreeMap Key Value cmp} {goal : Key → Option Value} {key : Key}

omit [Std.LawfulEqCmp cmp] in
theorem Between.refl (start : Std.ExtTreeMap Key Value cmp) (goal : Key → Option Value) :
    Between start goal start := fun _ => .inl rfl

variable {other : Key} {value : Option Value}

theorem getElem?_insert_of_ne (value : Value) (hne : other ≠ key) :
    (map.insert key value)[other]? = map[other]? := by
  rw [Std.ExtTreeMap.getElem?_insert, if_neg]
  intro heq
  exact hne (Std.LawfulEqCmp.eq_of_compare heq).symm

theorem getElem?_fill_of_ne (value : Option Value) (hne : other ≠ key) :
    (fill map key value)[other]? = map[other]? := by
  cases value with
  | none => rfl
  | some value =>
    rw [fill, getElem?_insertIfNew, if_neg]
    intro hkey
    exact hne (Std.LawfulEqCmp.eq_of_compare hkey.1).symm

theorem getElem?_fill_self (value : Option Value) :
    (fill map key value)[key]? = map[key]?.or value := by
  cases hfound : map[key]? with
  | none =>
    cases value with
    | none => exact hfound
    | some value =>
      have habsent : key ∉ map := by
        rw [mem_iff_isSome_getElem?, hfound]
        exact Bool.false_ne_true
      rw [fill, getElem?_insertIfNew, if_pos ⟨Std.ReflCmp.compare_self, habsent⟩]
      rfl
  | some found =>
    cases value with
    | none => exact hfound
    | some value =>
      have hpresent : key ∈ map := by
        rw [mem_iff_isSome_getElem?, hfound]
        rfl
      rw [fill, getElem?_insertIfNew, if_neg (fun hkey => hkey.2 hpresent), hfound]
      rfl

theorem Between.insert (hmap : Between start goal map) {value : Value}
    (hvalue : goal key = some value) : Between start goal (map.insert key value) := by
  intro other
  by_cases hother : other = key
  · subst hother
    rw [getElem?_insert_self, hvalue]
    exact .inr rfl
  · rw [getElem?_insert_of_ne value hother]
    exact hmap other

omit [Std.LawfulEqCmp cmp] in
theorem Between.eq_goal (hmap : Between start goal map) (hkeeps : Keeps start goal) {found : Value}
    (hfound : map[key]? = some found) : goal key = some found := by
  rcases hmap key with hstart | hgoal
  · exact hkeeps key found (hstart.symm.trans hfound)
  · exact hgoal.symm.trans hfound

variable (hmap : Between start goal map) (hkeeps : Keeps start goal)
    (hvalue : start[key]? = none → goal key = value)
include hmap hkeeps hvalue

theorem Between.getElem?_fill_self : (FillIn.fill map key value)[key]? = goal key := by
  rw [FillIn.getElem?_fill_self]
  cases hfound : map[key]? with
  | some found => exact (hmap.eq_goal hkeeps hfound).symm
  | none =>
    cases hstart : start[key]? with
    | none => exact (hvalue hstart).symm
    | some found =>
      -- the map lost nothing, so this cannot be
      rcases hmap key with hsame | hgoal
      · rw [hfound, hstart] at hsame
        cases hsame
      · rw [hfound, hkeeps key found hstart] at hgoal
        cases hgoal

theorem Between.fill : Between start goal (FillIn.fill map key value) := by
  intro other
  by_cases hother : other = key
  · subst hother
    exact .inr (hmap.getElem?_fill_self hkeeps hvalue)
  · rw [getElem?_fill_of_ne value hother]
    exact hmap other

theorem Between.getElem?_fill (hother : map[other]? = goal other) :
    (FillIn.fill map key value)[other]? = goal other := by
  by_cases hsame : other = key
  · subst hsame
    exact hmap.getElem?_fill_self hkeeps hvalue
  · rw [getElem?_fill_of_ne value hsame, hother]

end FillIn
