import Mathlib.Data.List.Forall2
import Mathlib.Data.List.Lookmap
import Mathlib.Data.List.Nodup

/-! # List updates in place

Updating the first accepted element of a list, seen element by element, and
lists that continue an earlier list: old elements change only along a relation
and new ones are added at the end.
-/

namespace Lists

open List

universe u v

variable {α : Type u} {update : α → Option α}

variable {list : List α} {value : α} {β : Type} {out : List β}

theorem mem_of_mem_lookmap (hvalue : value ∈ list.lookmap update) :
    value ∈ list ∨ ∃ old ∈ list, update old = some value := by
  induction list with
  | nil => simp at hvalue
  | cons head tail ih =>
    rw [lookmap_cons] at hvalue
    cases hhead : update head with
    | none =>
      simp only [hhead, mem_cons] at hvalue
      rcases hvalue with rfl | hvalue
      · exact .inl mem_cons_self
      · rcases ih hvalue with htail | ⟨old, hold, hupdate⟩
        · exact .inl (mem_cons_of_mem _ htail)
        · exact .inr ⟨old, mem_cons_of_mem _ hold, hupdate⟩
    | some new =>
      simp only [hhead, mem_cons] at hvalue
      rcases hvalue with rfl | hvalue
      · exact .inr ⟨head, mem_cons_self, hhead⟩
      · exact .inl (mem_cons_of_mem _ hvalue)

/-- Where at most one element has the wanted key, updating the first one with it
updates every one with it. -/
theorem lookmap_append (first second : List α) :
    (first ++ second).lookmap update =
      if first.any fun value => (update value).isSome then first.lookmap update ++ second
      else first ++ second.lookmap update := by
  induction first with
  | nil => rfl
  | cons head tail ih =>
    rw [cons_append, lookmap_cons, lookmap_cons, any_cons]
    cases hhead : update head with
    | none =>
      simp only [ih, Option.isSome_none, Bool.false_or]
      split <;> rfl
    | some value => rfl

/-- An update that touches only elements a filter drops, before and after, is not seen
through the filter. -/
theorem filter_lookmap {keep : α → Bool}
    (hdropped : ∀ old ∈ list, ∀ new, update old = some new → keep old = false ∧ keep new = false) :
    (list.lookmap update).filter keep = list.filter keep := by
  induction list with
  | nil => rfl
  | cons head tail ih =>
    rw [lookmap_cons]
    cases hhead : update head with
    | none =>
      simp only [filter_cons, ih fun old hold => hdropped old (mem_cons_of_mem _ hold)]
    | some value =>
      obtain ⟨hold, hnew⟩ := hdropped head mem_cons_self value hhead
      simp [hold, hnew]

theorem lookmap_eq_map_of_nodup {K : Type v} [DecidableEq K] (key : α → K) (wanted : K)
    (change : α → α) (hnodup : (list.map key).Nodup) :
    (list.lookmap fun value => if key value = wanted then some (change value) else none) =
      list.map fun value => if key value = wanted then change value else value := by
  induction list with
  | nil => rfl
  | cons head tail ih =>
    rw [map_cons, nodup_cons] at hnodup
    rw [lookmap_cons, map_cons]
    by_cases hhead : key head = wanted
    · have htail : ∀ value ∈ tail, key value ≠ wanted := fun value hvalue heq =>
        hnodup.1 (mem_map.mpr ⟨value, hvalue, heq.trans hhead.symm⟩)
      simp only [if_pos hhead, List.cons.injEq, true_and]
      conv_lhs => rw [← map_id tail]
      exact map_congr_left fun value hvalue => by simp [htail value hvalue]
    · simp only [if_neg hhead, ih hnodup.2]

theorem set_of_getElem? {index : Nat}
    (hvalue : list[index]? = some value) : list.set index value = list := by
  obtain ⟨hindex, rfl⟩ := List.getElem?_eq_some_iff.mp hvalue
  exact List.set_getElem_self hindex

theorem find?_key_of_nodup {K : Type v} [DecidableEq K] (key : α → K)
    (hdistinct : (list.map key).Nodup) (hvalue : value ∈ list) :
    list.find? (fun other => key other = key value) = some value := by
  rw [find?_eq_some_iff_append]
  obtain ⟨before, after, rfl⟩ := append_of_mem hvalue
  refine ⟨decide_eq_true rfl, before, after, rfl, fun other hother => ?_⟩
  rw [map_append, map_cons, nodup_append] at hdistinct
  have hne := hdistinct.2.2 (key other) (mem_map_of_mem hother) (key value) mem_cons_self
  simpa using hne

/-- A partial map over a list succeeds exactly when it does at every element. -/
theorem exists_mapM_eq_some_iff {α : Type} {f : α → Option β} {list : List α} :
    (∃ out, list.mapM f = some out) ↔ ∀ value ∈ list, ∃ result, f value = some result := by
  induction list with
  | nil => exact ⟨fun _ value hvalue => absurd hvalue not_mem_nil, fun _ => ⟨[], rfl⟩⟩
  | cons head tail ih =>
    rw [forall_mem_cons, ← ih, mapM_cons]
    constructor
    · rintro ⟨out, hout⟩
      obtain ⟨first, hfirst, hrest⟩ := Option.bind_eq_some_iff.mp hout
      obtain ⟨others, hothers, -⟩ := Option.bind_eq_some_iff.mp hrest
      exact ⟨⟨first, hfirst⟩, others, hothers⟩
    · rintro ⟨⟨first, hfirst⟩, others, hothers⟩
      exact ⟨first :: others, by rw [hfirst, hothers]; rfl⟩

theorem mapM_map_some {α γ : Type} {write : α → β} {parse : β → Option γ} {read : α → γ}
    {values : List α} (hread : ∀ value ∈ values, parse (write value) = some (read value)) :
    (values.map write).mapM parse = some (values.map read) := by
  induction values with
  | nil => rfl
  | cons value rest ih =>
    rw [map_cons, mapM_cons, hread value mem_cons_self,
      ih fun other hmem => hread other (mem_cons_of_mem _ hmem)]
    rfl

theorem exists_of_mem_mapM {α : Type} {f : α → Option β} {list : List α}
    (hout : list.mapM f = some out) {result : β} (hresult : result ∈ out) :
    ∃ value ∈ list, f value = some result := by
  induction list generalizing out with
  | nil =>
    cases hout
    cases hresult
  | cons head tail ih =>
    rw [mapM_cons] at hout
    obtain ⟨first, hfirst, hrest⟩ := Option.bind_eq_some_iff.mp hout
    obtain ⟨others, hothers, ⟨⟩⟩ := Option.bind_eq_some_iff.mp hrest
    obtain rfl | hresult := mem_cons.mp hresult
    · exact ⟨head, mem_cons_self, hfirst⟩
    · obtain ⟨value, hvalue, hmaps⟩ := ih hothers hresult
      exact ⟨value, mem_cons_of_mem _ hvalue, hmaps⟩

theorem mem_mapM_of_mem {α : Type} {f : α → Option β} {list : List α}
    (hout : list.mapM f = some out) {value : α} (hvalue : value ∈ list) {result : β}
    (hmaps : f value = some result) : result ∈ out := by
  induction list generalizing out with
  | nil => cases hvalue
  | cons head tail ih =>
    rw [mapM_cons] at hout
    obtain ⟨first, hfirst, hrest⟩ := Option.bind_eq_some_iff.mp hout
    obtain ⟨others, hothers, ⟨⟩⟩ := Option.bind_eq_some_iff.mp hrest
    obtain rfl | hvalue := mem_cons.mp hvalue
    · rw [hfirst] at hmaps
      exact mem_cons.mpr (.inl (Option.some.inj hmaps).symm)
    · exact mem_cons_of_mem _ (ih hothers hvalue)

theorem map_of_mapM {α γ : Type} {f : α → Option β} {key : α → γ} {read : β → γ}
    (hkey : ∀ value result, f value = some result → read result = key value) {list : List α} (hout :
      list.mapM f = some out) : out.map read = list.map key := by
  induction list generalizing out with
  | nil =>
    cases hout
    rfl
  | cons head tail ih =>
    rw [mapM_cons] at hout
    obtain ⟨first, hfirst, hrest⟩ := Option.bind_eq_some_iff.mp hout
    obtain ⟨others, hothers, ⟨⟩⟩ := Option.bind_eq_some_iff.mp hrest
    rw [map_cons, map_cons, hkey head first hfirst, ih hothers]

section DedupOn

variable {K : Type v} [DecidableEq K] (key : α → K)

def dedupOn : List α → List α
  | [] => []
  | head :: tail => head :: (dedupOn tail).filter fun other => key other ≠ key head

variable {key}

theorem dedupOn_of_nodup {list : List α} (hnodup : (list.map key).Nodup) :
    dedupOn key list = list := by
  induction list with
  | nil => rfl
  | cons head tail ih =>
    obtain ⟨hnew, hnodup⟩ := nodup_cons.mp hnodup
    rw [dedupOn, ih hnodup, filter_eq_self.mpr]
    intro other hother
    exact decide_eq_true fun hsame => hnew (hsame ▸ mem_map_of_mem hother)

theorem dedupOn_append (first second : List α) :
    dedupOn key (first ++ second) = dedupOn key first ++
      (dedupOn key second).filter fun other => key other ∉ first.map key := by
  induction first with
  | nil => simp [dedupOn]
  | cons head tail ih =>
    rw [cons_append, dedupOn, ih, dedupOn, filter_append, filter_filter,
      cons_append]
    simp [not_or]

/-- A beginning of a list and an end that overlap or meet make up the list. -/
theorem dedupOn_overlap {list : List α} (hnodup : (list.map key).Nodup) {start seen : Nat}
    (hmeet : start ≤ seen) (keep : α → Bool) :
    dedupOn key ((list.take seen).filter keep ++ (list.drop start).filter keep) =
      list.filter keep := by
  have hsub : ∀ part : List α, part.Sublist list → ((part.filter keep).map key).Nodup :=
    fun part hpart => hnodup.sublist ((filter_sublist.trans hpart).map key)
  have hsplit : list.drop start = (list.take seen).drop start ++ list.drop seen := by
    rcases Nat.le_total seen list.length with hle | hle
    · have hlength : start ≤ (list.take seen).length := by simp; omega
      rw [← drop_append_of_le_length hlength, take_append_drop]
    · rw [take_of_length_le hle, drop_of_length_le hle, append_nil]
  have hapart : ∀ old ∈ list.take seen, ∀ new ∈ list.drop seen, key old ≠ key new := by
    intro old hold new hnew
    rw [← take_append_drop seen list, map_append] at hnodup
    exact (nodup_append.mp hnodup).2.2 (key old) (mem_map_of_mem hold) (key new)
      (mem_map_of_mem hnew)
  have hover : (((list.take seen).drop start).filter keep).filter (fun other =>
      key other ∉ ((list.take seen).filter keep).map key) = [] := by
    refine filter_eq_nil_iff.mpr fun other hother => ?_
    obtain ⟨hin, hkeep⟩ := mem_filter.mp hother
    have hmem : other ∈ (list.take seen).filter keep :=
      mem_filter.mpr ⟨mem_of_mem_drop hin, hkeep⟩
    rw [decide_eq_true_eq, not_not]
    exact mem_map_of_mem hmem
  have hnew : ((list.drop seen).filter keep).filter (fun other =>
      key other ∉ ((list.take seen).filter keep).map key) = (list.drop seen).filter keep := by
    refine filter_eq_self.mpr fun other hother => decide_eq_true fun hold => ?_
    obtain ⟨old, hin, hsame⟩ := mem_map.mp hold
    exact hapart old (mem_filter.mp hin).1 other (mem_filter.mp hother).1 hsame
  rw [dedupOn_append, dedupOn_of_nodup (hsub _ (take_sublist _ _)),
    dedupOn_of_nodup (hsub _ (drop_sublist _ _)), hsplit, filter_append,
    filter_append, hover, hnew, nil_append, ← filter_append, take_append_drop]

end DedupOn

theorem exists_of_mem_left {β : Type v} {R : α → β → Prop} {other : List β}
    (hrelated : List.Forall₂ R list other) (hvalue : value ∈ list) :
    ∃ partner ∈ other, R value partner := by
  induction hrelated with
  | nil => cases hvalue
  | @cons head partner tail rest hhead htail ih =>
    rcases mem_cons.mp hvalue with rfl | hmem
    · exact ⟨partner, mem_cons_self, hhead⟩
    · obtain ⟨other, hother, hrelated⟩ := ih hmem
      exact ⟨other, mem_cons_of_mem _ hother, hrelated⟩

theorem pairwise_of_forall₂ {β : Type v} {R : α → β → Prop} {P : α → α → Prop} {Q : β → β → Prop}
    (hcarry : ∀ {first partner second partner'}, R first partner → R second partner' →
      Q partner partner' → P first second) {other : List β} (hrelated : List.Forall₂ R list other)
    (hpairwise : other.Pairwise Q) : list.Pairwise P := by
  induction hrelated with
  | nil => exact .nil
  | cons hhead htail ih =>
    rw [pairwise_cons] at hpairwise ⊢
    refine ⟨?_, ih hpairwise.2⟩
    intro value hvalue
    obtain ⟨partner, hpartner, hvalue'⟩ := exists_of_mem_left htail hvalue
    exact hcarry hhead hvalue' (hpairwise.1 partner hpartner)

/-- A value in lists that are distinct altogether is in exactly one of them. -/
theorem countP_mem_of_nodup_flatMap {β : Type v} [DecidableEq β] {f : α → List β}
    {value : β} (hnodup : (list.flatMap f).Nodup) (hvalue : value ∈ list.flatMap f) :
    (list.countP fun head => value ∈ f head) = 1 := by
  induction list with
  | nil => cases hvalue
  | cons head tail ih =>
    rw [flatMap_cons] at hnodup hvalue
    obtain ⟨-, htail, hdisjoint⟩ := nodup_append'.mp hnodup
    by_cases hhead : value ∈ f head
    · have hnone : (tail.countP fun other => value ∈ f other) = 0 := by
        refine countP_eq_zero.mpr fun other hother hmem => ?_
        exact hdisjoint hhead (mem_flatMap.mpr ⟨other, hother, of_decide_eq_true hmem⟩)
      simp only [countP_cons, hnone, hhead, decide_true, if_true, Nat.zero_add]
    · simp only [countP_cons, hhead, decide_false, Bool.false_eq_true, if_false, Nat.add_zero]
      exact ih htail ((mem_append.mp hvalue).resolve_left hhead)

/-- The second list continues the first: related element by element, with
elements added at the end. -/
inductive Grows (R : α → α → Prop) : List α → List α → Prop
  | nil (news : List α) : Grows R [] news
  | cons {old new : α} {olds news : List α} (hhead : R old new) (htail : Grows R olds news) :
      Grows R (old :: olds) (new :: news)

namespace Grows

variable {R : α → α → Prop}

theorem refl (hrefl : ∀ value, R value value) (list : List α) : Grows R list list := by
  induction list with
  | nil => exact .nil []
  | cons head tail ih => exact .cons (hrefl head) ih

theorem trans (htrans : ∀ {first second third}, R first second → R second third → R first third)
    {first second third : List α} (hfirst : Grows R first second)
    (hsecond : Grows R second third) : Grows R first third := by
  induction hfirst generalizing third with
  | nil => exact .nil third
  | cons hhead htail ih =>
    cases hsecond with
    | cons hhead' htail' => exact .cons (htrans hhead hhead') (ih htail')

variable {olds news : List α} {old : α}

theorem append (hgrows : Grows R olds news) (added : List α) : Grows R olds (news ++ added) := by
  induction hgrows with
  | nil news => exact .nil (news ++ added)
  | cons hhead htail ih => exact .cons hhead ih

theorem concat (hrefl : ∀ value, R value value) (init : List α) {new : α} (hlast : R old new) :
    Grows R (init ++ [old]) (init ++ [new]) := by
  induction init with
  | nil => exact .cons hlast (.nil [])
  | cons head tail ih => exact .cons (hrefl head) ih

theorem map_self {change : α → α} (hchange : ∀ value, R value (change value)) (list : List α) :
    Grows R list (list.map change) := by
  induction list with
  | nil => exact .nil []
  | cons head tail ih => exact .cons (hchange head) ih

theorem map {change : α → α} (hchange : ∀ {old new}, R old new → R (change old) (change new))
    (hgrows : Grows R olds news) :
    Grows R (olds.map change) (news.map change) := by
  induction hgrows with
  | nil news => exact .nil (news.map change)
  | cons hhead htail ih => exact .cons (hchange hhead) ih

theorem lookmap (hrefl : ∀ value, R value value)
    (hupdate : ∀ {old new}, update old = some new → R old new) (list : List α) :
    Grows R list (list.lookmap update) := by
  induction list with
  | nil => exact .nil []
  | cons head tail ih =>
    rw [lookmap_cons]
    cases hhead : update head with
    | none => exact .cons (hrefl head) ih
    | some new => exact .cons (hupdate hhead) (refl hrefl tail)

theorem set (hrefl : ∀ value, R value value) {list : List α} {index : Nat} {new : α}
    (hold : list[index]? = some old) (hnew : R old new) : Grows R list (list.set index new) := by
  induction list generalizing index with
  | nil => simp at hold
  | cons head tail ih =>
    cases index with
    | zero =>
      simp only [getElem?_cons_zero, Option.some.injEq] at hold
      subst hold
      exact .cons hnew (refl hrefl tail)
    | succ index => exact .cons (hrefl head) (ih hold)

theorem length_le (hgrows : Grows R olds news) : olds.length ≤ news.length := by
  induction hgrows with
  | nil => exact Nat.zero_le _
  | cons hhead htail ih => exact Nat.succ_le_succ ih

theorem getElem? (hgrows : Grows R olds news) {index : Nat}
    (hold : olds[index]? = some old) : ∃ new, news[index]? = some new ∧ R old new := by
  induction hgrows generalizing index with
  | nil => simp at hold
  | @cons head new olds news hhead htail ih =>
    cases index with
    | zero =>
      simp only [getElem?_cons_zero, Option.some.injEq] at hold
      subst hold
      exact ⟨new, rfl, hhead⟩
    | succ index => exact ih hold

end Grows

end Lists
