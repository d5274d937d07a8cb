import Keel.Foundation.Utf8

/-! # Cutting a text near a byte offset

A byte offset that falls inside a character moves down to the character's first
byte. Cutting there loses at most the bytes of one character.
-/

namespace Utf8

open List Option

/-- `str::is_char_boundary`. -/
def isCharBoundary (text : List Char) (offset : Nat) : Bool := (sliceTo text offset).isSome

/-- The loop that moves an offset down to a boundary; the end of the text is one. -/
def backOff (text : List Char) : Nat → Nat
  | 0 => 0
  | offset + 1 =>
    if offset + 1 < byteLength text ∧ isCharBoundary text (offset + 1) = false then
      backOff text offset
    else offset + 1

/-- `&text[first..last]`; nothing when either end is inside a character. -/
def slice (text : List Char) (first last : Nat) : Option (List Char) :=
  if first ≤ last then (sliceFrom text first).bind fun rest => sliceTo rest (last - first)
  else none

variable {text : List Char} {offset : Nat}

theorem sliceTo_eq_some {kept : List Char}
    (hslice : sliceTo text offset = some kept) : kept <+: text ∧ byteLength kept = offset := by
  induction text generalizing offset kept with
  | nil =>
    cases offset with
    | zero =>
      cases hslice
      exact ⟨List.nil_prefix, rfl⟩
    | succ offset => cases hslice
  | cons c rest ih =>
    cases offset with
    | zero =>
      cases hslice
      exact ⟨List.nil_prefix, rfl⟩
    | succ offset =>
      rw [sliceTo] at hslice
      split at hslice
      next hsize =>
        obtain ⟨short, hshort, rfl⟩ := map_eq_some_iff.mp hslice
        obtain ⟨hbefore, hlength⟩ := ih hshort
        refine ⟨cons_prefix_cons.mpr ⟨rfl, hbefore⟩, ?_⟩
        rw [byteLength]
        omega
      · cases hslice

theorem isCharBoundary_iff :
    isCharBoundary text offset = true ↔ ∃ kept, kept <+: text ∧ byteLength kept = offset := by
  rw [isCharBoundary, isSome_iff_exists]
  constructor
  · rintro ⟨kept, hslice⟩
    exact ⟨kept, sliceTo_eq_some hslice⟩
  · rintro ⟨kept, ⟨rest, rfl⟩, rfl⟩
    exact ⟨kept, sliceTo_append kept rest⟩

theorem isCharBoundary_byteLength (text : List Char) :
    isCharBoundary text (byteLength text) = true :=
  isCharBoundary_iff.2 ⟨text, prefix_rfl, rfl⟩

theorem backOff_spec (hoffset : offset ≤ byteLength text) :
    isCharBoundary text (backOff text offset) = true ∧ backOff text offset ≤ offset ∧
      ∀ boundary ≤ offset, isCharBoundary text boundary = true →
        boundary ≤ backOff text offset := by
  induction offset with
  | zero => exact ⟨isCharBoundary_iff.2 ⟨[], List.nil_prefix, rfl⟩, Nat.le_refl 0, fun _ h _ => h⟩
  | succ offset ih =>
    rw [backOff]
    split
    next hinside =>
      obtain ⟨hboundary, hle, hlast⟩ := ih (by omega)
      refine ⟨hboundary, by omega, fun boundary hup hat => ?_⟩
      obtain rfl | hless := hup.eq_or_lt
      · rw [hinside.2] at hat
        cases hat
      · exact hlast boundary (by omega) hat
    next hstop =>
      refine ⟨?_, Nat.le_refl _, fun _ hup _ => hup⟩
      obtain hless | hend := hoffset.lt_or_eq
      · cases hat : isCharBoundary text (offset + 1) with
        | true => rfl
        | false => exact absurd ⟨hless, hat⟩ hstop
      · rw [hend]
        exact isCharBoundary_byteLength text

theorem byteLength_le_of_prefix {first second : List Char} (hbefore : first <+: second) :
    byteLength first ≤ byteLength second := by
  obtain ⟨rest, rfl⟩ := hbefore
  rw [byteLength_append]
  exact Nat.le_add_right _ _

/-- A cut of the remaining text that leaves room for one character takes a
nonempty piece that fits. -/
theorem backOff_append (before : List Char) {rest : List Char} {room : Nat} (hroom : 4 ≤ room)
    (hrest : rest ≠ []) :
    ∃ piece others, rest = piece ++ others ∧ piece ≠ [] ∧ byteLength piece ≤ room ∧
      backOff (before ++ rest)
        (min (byteLength before + room) (byteLength (before ++ rest))) =
          byteLength before + byteLength piece := by
  obtain ⟨hboundary, hle, hlast⟩ := backOff_spec
    (min_le_right (byteLength before + room) (byteLength (before ++ rest)))
  obtain ⟨kept, hkept, hlength⟩ := isCharBoundary_iff.1 hboundary
  obtain ⟨c, others, rfl⟩ := exists_cons_of_ne_nil hrest
  -- the cut goes at least past the first remaining character
  have hfirst : byteLength before + c.utf8Size ≤ byteLength kept := by
    have hsize := c.utf8Size_le_four
    have hkeeps : before ++ [c] <+: before ++ c :: others :=
      prefix_append_right_inj before |>.mpr (prefix_append [c] others)
    have htotal := byteLength_le_of_prefix hkeeps
    have hpiece : byteLength (before ++ [c]) = byteLength before + c.utf8Size := by
      rw [byteLength_append]
      rfl
    rw [hlength]
    apply hlast
    · omega
    · exact isCharBoundary_iff.2 ⟨before ++ [c], hkeeps, hpiece⟩
  have hpos := c.utf8Size_pos
  obtain hshort | ⟨piece, rfl⟩ :=
    prefix_or_prefix_of_prefix hkept (prefix_append before (c :: others))
  · have hless := byteLength_le_of_prefix hshort
    omega
  · obtain ⟨others', hpiece⟩ := (prefix_append_right_inj before).mp hkept
    rw [byteLength_append] at hfirst hlength
    refine ⟨piece, others', hpiece.symm, ?_, by omega, hlength.symm⟩
    rintro rfl
    rw [byteLength_nil] at hfirst
    omega

theorem slice_append (before piece others : List Char) :
    slice (before ++ (piece ++ others)) (byteLength before)
      (byteLength before + byteLength piece) = some piece := by
  rw [slice, if_pos (Nat.le_add_right _ _), sliceFrom_append, bind_some,
    Nat.add_sub_cancel_left, sliceTo_append]

end Utf8
