import Keel.Foundation.Text
import Mathlib.Data.List.Chain

/-! # Words and single spaces

Collapsing a text to its words with one space between them. The texts that
collapsing leaves alone are described character by character, so that a cut of
such a text can be judged by the character it ends in.
-/

namespace Text

open List

/-- The words of a text with one space between them. -/
def collapse (text : List Char) : List Char := join [' '] (splitWhitespace text)

/-- A nonempty run of characters without whitespace. -/
structure IsWord (word : List Char) : Prop where
  nonempty : word ≠ []
  solid : ∀ c ∈ word, isWhitespace c = false

/-- Words with single spaces between them and perhaps one more at the end. -/
structure Spaced (text : List Char) : Prop where
  blank : ∀ c ∈ text, isWhitespace c = true → c = ' '
  head : ∀ c ∈ text.head?, isWhitespace c = false
  apart : text.IsChain fun c d => isWhitespace c = true → isWhitespace d = false

/-- Words with single spaces between them and none at either end. -/
structure Tidy (text : List Char) : Prop extends Spaced text where
  last : ∀ c ∈ text.getLast?, isWhitespace c = false

theorem Tidy.nil : Tidy [] where
  blank := by simp
  head := by simp
  apart := .nil
  last := by simp

variable {word text : List Char}

theorem IsWord.tidy (hword : IsWord word) : Tidy word where
  blank c hc hspace := absurd hspace (by simp [hword.solid c hc])
  head c hc := hword.solid c (mem_of_mem_head? hc)
  apart := by
    apply List.Pairwise.isChain
    apply pairwise_of_forall_mem_list
    intro _ _ d hd _
    exact hword.solid d hd
  last c hc := hword.solid c (mem_of_getLast? hc)

theorem IsWord.tidy_append (hword : IsWord word) (htext : Tidy text)
    (hne : text ≠ []) : Tidy (word ++ ' ' :: text) where
  blank c hc hspace := by
    rw [mem_append, mem_cons] at hc
    obtain hc | rfl | hc := hc
    · exact absurd hspace (by simp [hword.solid c hc])
    · rfl
    · exact htext.blank c hc hspace
  head c hc := by
    rw [head?_append_of_ne_nil _ hword.nonempty] at hc
    exact hword.tidy.head c hc
  apart := by
    refine hword.tidy.apart.append (htext.apart.cons ?_) ?_
    · intro c hc _
      exact htext.head c hc
    · intro c hc _ _ hspace
      exact absurd hspace (by simp [hword.tidy.last c hc])
  last c hc := by
    rw [getLast?_append_of_ne_nil _ (cons_ne_nil _ _),
      getLast?_cons_of_ne_nil hne] at hc
    exact htext.last c hc

theorem tidy_join {words : List (List Char)} (hwords : ∀ word ∈ words, IsWord word) :
    Tidy (join [' '] words) := by
  induction words with
  | nil => exact Tidy.nil
  | cons word rest ih =>
    rw [forall_mem_cons] at hwords
    cases rest with
    | nil => simpa [join] using hwords.1.tidy
    | cons next rest =>
      have hrest := ih hwords.2
      rw [join, intercalate_cons_cons, append_assoc]
      apply hwords.1.tidy_append hrest
      have hnext := (hwords.2 next mem_cons_self).nonempty
      cases rest with
      | nil => simpa [join] using hnext
      | cons _ _ => simp [join, intercalate_cons_cons]

/-! ## The pieces of a split -/

/-- No piece of a split holds a separator, and all its elements are the list's. -/
theorem of_mem_splitOnP {α : Type} {p : α → Bool} {text : List α} {piece : List α}
    (hpiece : piece ∈ text.splitOnP p) : ∀ c ∈ piece, p c = false ∧ c ∈ text := by
  induction text generalizing piece with
  | nil => simp_all
  | cons d text ih =>
    rw [splitOnP_cons_eq_if_modifyHead] at hpiece
    split at hpiece
    · obtain rfl | hpiece := mem_cons.mp hpiece
      · simp
      · exact fun c hc => ⟨(ih hpiece c hc).1, mem_cons_of_mem _ (ih hpiece c hc).2⟩
    next hd =>
      obtain ⟨first, rest, hsplit⟩ := exists_cons_of_ne_nil (splitOnP_ne_nil p text)
      rw [hsplit] at hpiece ih
      rw [modifyHead_cons, mem_cons] at hpiece
      intro c hc
      obtain rfl | hpiece := hpiece
      · obtain rfl | hc := mem_cons.mp hc
        · exact ⟨by simpa using hd, mem_cons_self⟩
        · have hmem := ih mem_cons_self c hc
          exact ⟨hmem.1, mem_cons_of_mem _ hmem.2⟩
      · have hmem := ih (mem_cons_of_mem _ hpiece) c hc
        exact ⟨hmem.1, mem_cons_of_mem _ hmem.2⟩

theorem isWord_of_mem_splitWhitespace (hword : word ∈ splitWhitespace text) : IsWord word := by
  rw [splitWhitespace, mem_filter] at hword
  exact ⟨by simpa using hword.2, fun c hc => (of_mem_splitOnP hword.1 c hc).1⟩

theorem tidy_collapse (text : List Char) : Tidy (collapse text) :=
  tidy_join fun _ hword => isWord_of_mem_splitWhitespace hword

theorem mem_join {separator : List Char} {pieces : List (List Char)} {c : Char}
    (hc : c ∈ join separator pieces) : c ∈ separator ∨ ∃ piece ∈ pieces, c ∈ piece := by
  induction pieces with
  | nil => simp [join] at hc
  | cons piece rest ih =>
    cases rest with
    | nil => exact Or.inr ⟨piece, mem_cons_self, by simpa [join] using hc⟩
    | cons next rest =>
      rw [join, intercalate_cons_cons, append_assoc, mem_append,
        mem_append] at hc
      obtain hc | hc | hc := hc
      · exact Or.inr ⟨piece, mem_cons_self, hc⟩
      · exact Or.inl hc
      · obtain hc | ⟨other, hother, hc⟩ := ih hc
        · exact Or.inl hc
        · exact Or.inr ⟨other, mem_cons_of_mem _ hother, hc⟩

theorem mem_collapse {c : Char} (hc : c ∈ collapse text) : c = ' ' ∨ c ∈ text := by
  obtain hc | ⟨piece, hpiece, hc⟩ := mem_join hc
  · exact Or.inl (mem_singleton.mp hc)
  · exact Or.inr (of_mem_splitOnP (mem_of_mem_filter hpiece) c hc).2

/-- Without two separators in a row and without one at the end, only the first
piece of a split can be empty, and it is when the list begins with a separator. -/
theorem splitOnP_ne_nil_of_apart {α : Type} {p : α → Bool} {text : List α} (hne : text ≠ [])
    (hapart : text.IsChain fun c d => p c = true → p d = false)
    (hlast : ∀ c ∈ text.getLast?, p c = false) :
    ∃ first rest, text.splitOnP p = first :: rest ∧ (∀ piece ∈ rest, piece ≠ []) ∧
      ((∀ c ∈ text.head?, p c = false) → first ≠ []) := by
  induction text with
  | nil => exact absurd rfl hne
  | cons c text ih =>
    cases text with
    | nil =>
      have hc : p c = false := hlast c rfl
      exact ⟨[c], [], splitOnP_eq_singleton (by simpa using hc), by simp, by simp⟩
    | cons d text =>
      rw [isChain_cons_cons] at hapart
      obtain ⟨first, rest, hsplit, hrest, hfirst⟩ :=
        ih (cons_ne_nil d text) hapart.2 hlast
      rw [splitOnP_cons_eq_if_modifyHead, hsplit]
      split
      next hc =>
        have hd : ∀ e ∈ (d :: text).head?, p e = false := by
          simpa using hapart.1 hc
        refine ⟨[], first :: rest, rfl, ?_, ?_⟩
        · exact forall_mem_cons.mpr ⟨hfirst hd, hrest⟩
        · intro hhead
          exact absurd hc (by simp [hhead c rfl])
      · exact ⟨c :: first, rest, rfl, hrest, fun _ => cons_ne_nil c first⟩

theorem join_splitOnP {separator : Char} {p : Char → Bool}
    (hblank : ∀ c ∈ text, p c = true ↔ c = separator) :
    join [separator] (text.splitOnP p) = text := by
  have hsplit : text.splitOnP p = text.splitOn separator := by
    rw [splitOn_eq_splitOnP]
    induction text with
    | nil => rfl
    | cons c text ih =>
      rw [forall_mem_cons] at hblank
      rw [splitOnP_cons_eq_if_modifyHead, splitOnP_cons_eq_if_modifyHead, ih hblank.2]
      simp only [hblank.1, beq_iff_eq]
  rw [hsplit]
  exact intercalate_splitOn separator

/-! ## What collapsing leaves alone -/

theorem Tidy.collapse_eq (htext : Tidy text) : collapse text = text := by
  by_cases hne : text = []
  · subst hne
    rfl
  · obtain ⟨first, rest, hsplit, hrest, hfirst⟩ :=
      splitOnP_ne_nil_of_apart hne htext.apart htext.last
    have hfilter : splitWhitespace text = text.splitOnP isWhitespace := by
      rw [splitWhitespace, filter_eq_self, hsplit, forall_mem_cons]
      exact ⟨by simpa using hfirst htext.head, fun piece hpiece => by simpa using hrest piece hpiece⟩
    rw [collapse, hfilter]
    apply join_splitOnP
    intro c hc
    refine ⟨htext.blank c hc, ?_⟩
    rintro rfl
    rfl

theorem collapse_eq_self_iff : collapse text = text ↔ Tidy text := by
  constructor
  · intro htext
    rw [← htext]
    exact tidy_collapse text
  · exact Tidy.collapse_eq

theorem collapse_append_space (text : List Char) : collapse (text ++ [' ']) = collapse text := by
  have hspace : isWhitespace ' ' = true := rfl
  have hsplit := splitOnP_append_cons text [] hspace
  rw [collapse, splitWhitespace, hsplit, splitOnP_nil, filter_append]
  exact congrArg (join [' ']) (append_nil _)

theorem filter_collapse {p : Char → Bool} (hp : ∀ c, isWhitespace c = true → p c = false)
    (text : List Char) : (collapse text).filter p = text.filter p := by
  have hjoin : ∀ words, (join [' '] words).filter p = words.flatten.filter p := by
    intro words
    induction words with
    | nil => rfl
    | cons word rest ih =>
      cases rest with
      | nil => simp [join]
      | cons next rest =>
        rw [join] at ih
        rw [join, intercalate_cons_cons, filter_append, filter_append, ih,
          filter_cons_of_neg (by simp [hp ' ' rfl])]
        simp
  rw [collapse, hjoin, splitWhitespace, flatten_filter_not_isEmpty]
  induction text with
  | nil => rfl
  | cons c text ih =>
    rw [splitOnP_cons_eq_if_modifyHead]
    split
    next hspace => rw [flatten_cons, nil_append, ih, filter_cons_of_neg (by simp [hp c hspace])]
    · obtain ⟨first, rest, hsplit⟩ := exists_cons_of_ne_nil (splitOnP_ne_nil isWhitespace text)
      rw [hsplit, flatten_cons] at ih
      rw [hsplit, modifyHead_cons, flatten_cons, cons_append, filter_cons, filter_cons, ih]

theorem Spaced.take (htext : Spaced text) (count : Nat) :
    Spaced (text.take count) where
  blank c hc := htext.blank c (mem_of_mem_take hc)
  head c hc := by
    rw [head?_take] at hc
    split at hc
    · cases hc
    · exact htext.head c hc
  apart := htext.apart.take count

theorem Spaced.tidy_or_append (htext : Spaced text) :
    Tidy text ∨ ∃ short, Tidy short ∧ text = short ++ [' '] := by
  by_cases hlast : ∀ c ∈ text.getLast?, isWhitespace c = false
  · exact Or.inl ⟨htext, hlast⟩
  · simp only [not_forall, Bool.not_eq_false] at hlast
    obtain ⟨c, hc, hspace⟩ := hlast
    obtain ⟨short, rfl⟩ := getLast?_eq_some_iff.mp hc
    have hspaced : c = ' ' := htext.blank c (by simp) hspace
    subst hspaced
    right
    refine ⟨short, ⟨?_, ?_⟩, rfl⟩
    · simpa using htext.take short.length
    · intro d hd
      cases hdspace : isWhitespace d with
      | false => rfl
      | true =>
        have happart := (isChain_append.mp htext.apart).2.2 d hd ' ' rfl hdspace
        cases happart

end Text
