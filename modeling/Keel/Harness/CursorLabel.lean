import Keel.Foundation.Utf8
import Keel.Foundation.Words

/-! # Model names without markup

Display names carry tags, and an effort badge inside a `span`. Cleaning drops the tags,
takes the badges aside and collapses whitespace; a badge that the rest repeats at its
end is dropped there. Outside the tags the scanner reads bytes, one character each.
-/

namespace Keel.CursorLabel

open Text List Option

/-- `str::to_ascii_lowercase`. -/
def lowercase (text : List Char) : List Char := text.map toAsciiLowercase

/-- `bytes[i] as char`, for every byte of a character. -/
def bytesAsChars (c : Char) : List Char :=
  (String.utf8EncodeChar c).map fun byte => Char.ofNat byte.toNat

def opensSpan (inside : List Char) : Bool :=
  "<span".toList.isPrefixOf (lowercase ('<' :: inside ++ ['>']))

/-- The text before the first `</span>` and the text behind it. -/
def splitClosing : List Char → Option (List Char × List Char)
  | [] => none
  | c :: rest =>
    if lowercase ((c :: rest).take 7) = "</span>".toList then some ([], (c :: rest).drop 7)
    else (splitClosing rest).map fun split => (c :: split.1, split.2)

/-- The badge behind a tag, if it opens one, and the text after the badge. -/
def badgeAfter (inside after : List Char) : Option (List Char × List Char) :=
  if opensSpan inside then splitClosing after else none

def addBadge (content : List Char) (badges : List (List Char)) : List (List Char) :=
  if trim content = [] then badges else trim content :: badges

/-- The first tag, when the text begins with a complete one. -/
def leadingTag (c : Char) (rest : List Char) : Option (List Char × List Char) :=
  if c = '<' then splitOnce '>' rest else none

theorem length_leadingTag {c : Char} {rest inside after : List Char}
    (htag : leadingTag c rest = some (inside, after)) : after.length < rest.length := by
  obtain ⟨-, hsplit⟩ := ite_none_right_eq_some.mp htag
  rw [(splitOnce_eq_some hsplit).1, length_append, length_cons]
  omega

theorem suffix_splitClosing {text content rest : List Char}
    (hsplit : splitClosing text = some (content, rest)) : rest <:+ text := by
  induction text generalizing content with
  | nil => cases hsplit
  | cons c text ih =>
    rw [splitClosing] at hsplit
    split at hsplit
    · cases hsplit
      exact drop_suffix 7 (c :: text)
    · obtain ⟨⟨inner, others⟩, hinner, hpair⟩ := map_eq_some_iff.mp hsplit
      cases hpair
      exact (ih hinner).trans (suffix_cons c text)

theorem suffix_badgeAfter {inside after content rest : List Char}
    (hbadge : badgeAfter inside after = some (content, rest)) : rest <:+ after :=
  suffix_splitClosing (ite_none_right_eq_some.mp hbadge).2

/-- What the loop puts out and the badges it finds. -/
def scan : List Char → List Char × List (List Char)
  | [] => ([], [])
  | c :: rest =>
    match _htag : leadingTag c rest with
    | none =>
      let out := scan rest
      (bytesAsChars c ++ out.1, out.2)
    | some (inside, after) =>
      match _hbadge : badgeAfter inside after with
      | some (content, rest) =>
        let out := scan rest
        (out.1, addBadge content out.2)
      | none => scan after
termination_by text => text.length
decreasing_by
  · exact Nat.lt_succ_self _
  · have htag := length_leadingTag ‹_›
    exact Nat.lt_succ_of_lt (Nat.lt_of_le_of_lt (suffix_badgeAfter ‹_›).length_le htag)
  · exact Nat.lt_succ_of_lt (length_leadingTag ‹_›)

/-- `str::strip_suffix`. -/
def stripSuffix (label suffix : List Char) : Option (List Char) :=
  if suffix <:+ label then some (label.take (label.length - suffix.length)) else none

/-- The label without a copy of the badge at its end. -/
def lessBadge (label badge : List Char) : List Char :=
  let suffixes := [" (".toList ++ badge ++ [')'], ' ' :: badge, '(' :: badge ++ [')']]
  let stripped := suffixes.findSome? fun suffix =>
    (stripSuffix label suffix).or (stripSuffix label (lowercase suffix))
  (stripped.map trimEnd).getD label

/-- The label made of the text outside the tags and the badges. -/
def labelOf (text : List Char) (badges : List (List Char)) : List Char :=
  match badges.head? with
  | some badge => lessBadge (collapse text) badge
  | none => collapse text

def cleanLabel (name : List Char) : List Char × Option (List Char) :=
  (labelOf (scan name).1 (scan name).2, (scan name).2.head?)

/-- The text of a name outside its complete tags and its badges, and the badges. -/
inductive Outside : List Char → List Char → List (List Char) → Prop
  | nil : Outside [] [] []
  | keep {c rest text badges} (hkept : c = '<' → '>' ∉ rest) (hrest : Outside rest text badges) :
    Outside (c :: rest) (c :: text) badges
  | tag {inside rest text badges} (hinside : '>' ∉ inside) (hplain : badgeAfter inside rest = none)
    (hrest : Outside rest text badges) : Outside ('<' :: (inside ++ '>' :: rest)) text badges
  | badge {inside after content rest text badges} (hinside : '>' ∉ inside)
    (hbadge : badgeAfter inside after = some (content, rest)) (hrest : Outside rest text badges) :
    Outside ('<' :: (inside ++ '>' :: after)) text (addBadge content badges)

/-- Cleaning keeps the text outside the tags, and keeps its own result. -/
structure Keeps (name : List Char) : Prop where
  outside : ∃ text badges, Outside name text badges ∧
    cleanLabel name = (labelOf text badges, badges.head?)
  again : cleanLabel (cleanLabel name).1 = ((cleanLabel name).1, none)

variable {name text label : List Char} {badges : List (List Char)}

/-- No `<` is followed by a `>`. -/
def Untagged (text : List Char) : Prop := text.Pairwise fun c d => c = '<' → d ≠ '>'

theorem Outside.sublist (houtside : Outside name text badges) : text.Sublist name := by
  induction houtside with
  | nil => exact Sublist.refl _
  | keep _ _ ih => exact ih.cons_cons _
  | tag _ _ _ ih => exact .cons _ ((ih.cons _).trans (sublist_append_right _ _))
  | badge _ hbadge _ ih =>
    have hrest := (suffix_badgeAfter hbadge).sublist.trans (sublist_cons_self '>' _)
    exact .cons _ (ih.trans (hrest.trans (sublist_append_right _ _)))

theorem untagged_iff_filter : Untagged text ↔
    Untagged (text.filter fun c => c = '<' ∨ c = '>') := by
  rw [Untagged, Untagged, pairwise_filter]
  exact ⟨fun h => h.imp fun hapart _ _ => hapart,
    fun h => h.imp fun hapart hopen hclose => hapart (by simp [hopen]) (by simp [hclose]) hopen hclose⟩

theorem Untagged.collapse (huntagged : Untagged text) : Untagged (collapse text) := by
  have hfilter := filter_collapse (p := fun c => c = '<' ∨ c = '>') (fun c hspace => ?_) text
  · rwa [untagged_iff_filter, hfilter, ← untagged_iff_filter]
  · refine decide_eq_false ?_
    rintro (rfl | rfl) <;> cases hspace

end Keel.CursorLabel
