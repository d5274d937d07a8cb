import Mathlib.Data.List.Infix
import Mathlib.Tactic.Common

/-! # Cutting a list into segments, item by item

A segmentation reads the items of a list in order and keeps one segment open: a
further item may reopen only the last segment, and leaves at most two in its place.
A segment closed by the next one no longer depends on what follows, and a suffix
that begins at a segment is cut alone as it is cut within the whole.

The greedy segmentation, where an item either continues the open segment or starts
a new one, is the common case.
-/

universe u

/-- A way to cut lists into segments that commits to every segment but the last. -/
structure Segmentation (α : Type u) where
  cut : List α → List (List α)
  flatten_cut : ∀ items, (cut items).flatten = items
  ne_nil : ∀ items, ∀ segment ∈ cut items, segment ≠ []
  /-- The segments from one on are those of the items from there on. -/
  restart : ∀ items front back, cut items = front ++ back → cut back.flatten = back
  /-- A further item cuts the open segment, with the item added, in at most two. -/
  cut_concat : ∀ items item, ∃ opened, opened.length ≤ 2 ∧
    cut (items ++ [item]) = (cut items).dropLast ++ opened

namespace Segmentation

open List

variable {α : Type u} (segmentation : Segmentation α)

@[simp] theorem cut_nil : segmentation.cut [] = [] := by
  cases hcut : segmentation.cut [] with
  | nil => rfl
  | cons segment rest =>
    have hflat := segmentation.flatten_cut []
    rw [hcut, flatten_cons, append_eq_nil_iff] at hflat
    refine absurd hflat.1 (segmentation.ne_nil [] segment ?_)
    rw [hcut]
    exact mem_cons_self

theorem opened_ne_nil {items : List α} {item : α} {opened : List (List α)}
    (hcut : segmentation.cut (items ++ [item]) = (segmentation.cut items).dropLast ++ opened) :
    opened ≠ [] := by
  rintro rfl
  rw [append_nil] at hcut
  have hkept : (segmentation.cut items).dropLast.flatten.length ≤ items.length := by
    obtain ⟨last, hlast⟩ := List.dropLast_prefix (segmentation.cut items)
    have hitems := congrArg List.length (segmentation.flatten_cut items)
    rw [← hlast, flatten_append, length_append] at hitems
    omega
  have hwhole := congrArg List.length (segmentation.flatten_cut (items ++ [item]))
  rw [hcut, length_append, length_singleton] at hwhole
  omega

theorem dropLast_cut_prefix (items more : List α) :
    (segmentation.cut items).dropLast <+: (segmentation.cut (items ++ more)).dropLast := by
  induction more using List.reverseRecOn with
  | nil => rw [append_nil]
  | append_singleton init item ih =>
    obtain ⟨opened, -, hcut⟩ := segmentation.cut_concat (items ++ init) item
    rw [← append_assoc, hcut, dropLast_append_of_ne_nil (segmentation.opened_ne_nil hcut)]
    exact ih.trans (prefix_append _ _)

/-- Segments followed by two others are kept when the last item is replaced by any
list of items. -/
theorem exists_cut_of_replace_last {items : List α} {item : α} {front back : List (List α)}
    {segment next : List α}
    (hcut : segmentation.cut (items ++ [item]) = front ++ segment :: next :: back)
    (more : List α) :
    ∃ tail, segmentation.cut (items ++ more) = front ++ tail ∧
      segmentation.cut tail.flatten = tail ∧ items ++ more = front.flatten ++ tail.flatten := by
  obtain ⟨opened, hopened, hwhole⟩ := segmentation.cut_concat items item
  have hfront : front <+: (segmentation.cut items).dropLast := by
    refine prefix_of_prefix_length_le ⟨_, hcut.symm⟩ ⟨_, hwhole.symm⟩ ?_
    have hlength := congrArg List.length (hwhole.symm.trans hcut)
    simp only [length_append, length_cons] at hlength
    omega
  obtain ⟨tail, htail⟩ := hfront.trans
    ((segmentation.dropLast_cut_prefix items more).trans (List.dropLast_prefix _))
  refine ⟨tail, htail.symm, segmentation.restart _ front tail htail.symm, ?_⟩
  rw [← flatten_append, htail, segmentation.flatten_cut]

end Segmentation

/-! ## The greedy segmentation -/

namespace Segmentation

open List

variable {α : Type u}

/-- Extend the open segment while items continue it. -/
@[simp] def grow (continues : List α → α → Bool) : List α → List α → List (List α)
  | opened, [] => [opened]
  | opened, item :: rest =>
    if continues opened item then grow continues (opened ++ [item]) rest
    else opened :: grow continues [item] rest

def greedyCut (continues : List α → α → Bool) : List α → List (List α)
  | [] => []
  | item :: rest => grow continues [item] rest

variable {continues : List α → α → Bool}

theorem flatten_grow (opened items : List α) :
    (grow continues opened items).flatten = opened ++ items := by
  induction items generalizing opened with
  | nil => simp [grow]
  | cons item rest ih =>
    rw [grow]
    split
    · rw [ih, append_assoc, singleton_append]
    · rw [flatten_cons, ih, singleton_append]

variable {opened items : List α} {front back : List (List α)}

theorem ne_nil_of_mem_grow (hopened : opened ≠ []) (items : List α) :
    ∀ segment ∈ grow continues opened items, segment ≠ [] := by
  induction items generalizing opened with
  | nil => simpa [grow] using hopened
  | cons item rest ih =>
    rw [grow]
    split
    · exact ih (by simp)
    · exact forall_mem_cons.mpr ⟨hopened, ih (by simp)⟩

theorem restart_grow (hfront : front ≠ []) (hcut : grow continues opened items = front ++ back) :
    greedyCut continues back.flatten = back := by
  induction items generalizing opened front with
  | nil =>
    rw [grow] at hcut
    obtain ⟨first, rest, rfl⟩ := exists_cons_of_ne_nil hfront
    rw [cons_append, List.cons.injEq, nil_eq, append_eq_nil_iff] at hcut
    rw [hcut.2.2]
    rfl
  | cons item rest ih =>
    rw [grow] at hcut
    split at hcut
    · exact ih hfront hcut
    · obtain ⟨first, others, rfl⟩ := exists_cons_of_ne_nil hfront
      rw [cons_append, List.cons.injEq] at hcut
      cases others with
      | nil =>
        rw [← nil_append back, ← hcut.2, flatten_grow]
        rfl
      | cons second others => exact ih (by simp) hcut.2

theorem grow_concat (opened items : List α) (item : α) :
    ∃ reopened, reopened.length ≤ 2 ∧
      grow continues opened (items ++ [item]) =
        (grow continues opened items).dropLast ++ reopened := by
  induction items generalizing opened with
  | nil =>
    refine ⟨grow continues opened [item], ?_, by simp [grow]⟩
    rw [grow]
    split <;> simp [grow]
  | cons first rest ih =>
    rw [cons_append, grow, grow]
    split
    · exact ih (opened ++ [first])
    · obtain ⟨reopened, hlength, hcut⟩ := ih [first]
      have hrest : grow continues [first] rest ≠ [] := by
        intro hnil
        have hflat : (grow continues [first] rest).flatten = [first] ++ rest :=
          flatten_grow [first] rest
        rw [hnil] at hflat
        exact absurd hflat (by simp)
      exact ⟨reopened, hlength, by rw [hcut, dropLast_cons_of_ne_nil hrest, cons_append]⟩

theorem head_grow (item : α) (opened items : List α) :
    ∃ more, (grow continues (item :: opened) items).head? = some (item :: more) := by
  induction items generalizing opened with
  | nil => exact ⟨opened, rfl⟩
  | cons next rest ih =>
    rw [grow]
    split
    · exact ih (opened ++ [next])
    · exact ⟨opened, rfl⟩

theorem not_continues_of_grow
    {first second : List α} (hcut : grow continues opened items = front ++ first :: second :: back) :
    ∃ item rest, second = item :: rest ∧ continues first item = false := by
  induction items generalizing opened front with
  | nil =>
    rw [grow] at hcut
    have hlength := congrArg List.length hcut
    simp only [length_append, length_cons, length_nil] at hlength
    omega
  | cons item rest ih =>
    rw [grow] at hcut
    split at hcut
    · exact ih hcut
    next hbreak =>
      cases front with
      | cons other front => exact ih (List.cons.inj hcut).2
      | nil =>
        obtain ⟨rfl, hrest⟩ := List.cons.inj hcut
        obtain ⟨more, hmore⟩ : ∃ more, (grow continues [item] rest).head? = some (item :: more) :=
          head_grow item [] rest
        rw [hrest] at hmore
        exact ⟨item, more, Option.some.inj hmore, (Bool.not_eq_true _).mp hbreak⟩

theorem continues_of_mem_grow
    (hopened : ∀ before item after, opened = before ++ item :: after → before ≠ [] →
      continues before item = true) {before after : List α} {item : α}
    (hmem : before ++ item :: after ∈ grow continues opened items) (hbefore : before ≠ []) :
    continues before item = true := by
  induction items generalizing opened with
  | nil =>
    rw [grow, mem_singleton] at hmem
    exact hopened before item after hmem.symm hbefore
  | cons next rest ih =>
    rw [grow] at hmem
    split at hmem
    next hnext =>
      apply ih _ hmem
      intro front last back hsplit hfront
      cases back using List.reverseRecOn with
      | nil =>
        obtain ⟨rfl, rfl⟩ := append_singleton_inj.mp hsplit
        exact hnext
      | append_singleton back other _ =>
        rw [← cons_append, ← append_assoc] at hsplit
        exact hopened front last back (append_singleton_inj.mp hsplit).1 hfront
    next hbreak =>
      rcases mem_cons.mp hmem with hsegment | hmem
      · exact hopened before item after hsegment.symm hbefore
      · apply ih _ hmem
        intro front last back hsplit hfront
        obtain ⟨first, others, rfl⟩ := exists_cons_of_ne_nil hfront
        exact absurd (List.cons.inj hsplit).2 (by simp)

/-- Items that continue the open segment join it; any other starts a segment. -/
def greedy (continues : List α → α → Bool) : Segmentation α where
  cut := greedyCut continues
  flatten_cut items := by
    cases items with
    | nil => rfl
    | cons item rest => exact flatten_grow [item] rest
  ne_nil items := by
    cases items with
    | nil => simp [greedyCut]
    | cons item rest => exact ne_nil_of_mem_grow (by simp) rest
  restart items front back hcut := by
    cases items with
    | nil =>
      obtain ⟨-, rfl⟩ := append_eq_nil_iff.mp hcut.symm
      rfl
    | cons item rest =>
      cases front with
      | nil =>
        rw [← nil_append back, ← hcut]
        exact congrArg (greedyCut continues) (flatten_grow [item] rest)
      | cons first others => exact restart_grow (by simp) hcut
  cut_concat items item := by
    cases items with
    | nil => exact ⟨[[item]], by simp, rfl⟩
    | cons first rest => exact grow_concat [first] rest item

theorem greedy_not_continues {first second : List α}
    (hcut : (greedy continues).cut items = front ++ first :: second :: back) :
    ∃ item rest, second = item :: rest ∧ continues first item = false := by
  cases items with
  | nil =>
    have hlength := congrArg List.length hcut
    simp [greedy] at hlength
  | cons item rest => exact not_continues_of_grow hcut

theorem greedy_continues {before after : List α} {item : α}
    (hmem : before ++ item :: after ∈ (greedy continues).cut items) (hbefore : before ≠ []) :
    continues before item = true := by
  cases items with
  | nil => cases hmem
  | cons first rest =>
    apply continues_of_mem_grow _ hmem hbefore
    intro front last back hsplit hfront
    obtain ⟨head, others, rfl⟩ := exists_cons_of_ne_nil hfront
    exact absurd (List.cons.inj hsplit).2 (by simp)

end Segmentation
