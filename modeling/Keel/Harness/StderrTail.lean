import Keel.Foundation.Utf8Cut

/-! # The tail of a child's stderr

An agent that exits unexpectedly is reported with the last lines it wrote. Lines are
kept up to a number of characters each, and the joined text is cut at a number of
bytes; a cut inside a character aborts the report.
-/

namespace Keel.StderrTail

open Utf8 List Text

def keepLines : Nat := 6

def keepBytes : Nat := 700

def push (tail : List (List Char)) (line : List Char) : List (List Char) :=
  let line := trim line
  if line = [] then tail else (tail ++ [line.take keepBytes]).rtake keepLines

/-- `String::truncate`; nothing when it aborts. -/
def truncate (text : List Char) (length : Nat) : Option (List Char) :=
  if length ≤ byteLength text then sliceTo text length else some text

/-- The captured tail as one display string; nothing when taking it aborts. -/
def snapshot (tail : List (List Char)) : Option (Option (List Char)) :=
  if tail = [] then some none else (truncate (join ['\n'] tail) (keepBytes * 2)).map some

def crashMessage (name status : List Char) (tail : List (List Char)) : Option (List Char) :=
  let message := name ++ " exited unexpectedly (".toList ++ status ++ [')']
  (snapshot tail).map fun
    | some text => message ++ ": ".toList ++ text
    | none => message

inductive Call
  | push (line : List Char)
  | snapshot

def step (tail : List (List Char)) : Call → List (List Char)
  | .push line => push tail line
  | .snapshot => tail

def pushed (calls : List Call) : List (List Char) :=
  calls.filterMap fun
    | .push line => some line
    | .snapshot => none

/-- The lines to report: the last nonblank ones, trimmed and cut to their length. -/
def shown (lines : List (List Char)) : List (List Char) :=
  (((lines.map trim).filter (· ≠ [])).map (·.take keepBytes)).rtake keepLines

/-- `kept` is the longest start of a text that has at most `limit` bytes. -/
structure CutTo (limit : Nat) (text kept : List Char) : Prop where
  start : kept <+: text
  fits : byteLength kept ≤ limit
  longest : ∀ longer, longer <+: text → byteLength longer ≤ limit → longer <+: kept

/-- What a snapshot taken after some lines should answer. -/
structure Reported (lines : List (List Char)) (answer : Option (Option (List Char))) : Prop where
  answers : answer ≠ none
  none_iff : answer = some none ↔ ∀ line ∈ lines, trim line = []
  text : ∀ text, answer = some (some text) →
    CutTo (keepBytes * 2) (join ['\n'] (shown lines)) text

theorem push_shown (lines : List (List Char)) (line : List Char) :
    push (shown lines) line = shown (lines ++ [line]) := by
  rw [push, shown, shown, map_append, filter_append, map_append]
  by_cases hblank : trim line = []
  · simp [hblank]
  · simp only [map_cons, map_nil, filter_cons, hblank, ne_eq, not_false_eq_true,
      decide_true, if_true, filter_nil, if_false, keepLines, rtake_concat_succ]
    simp only [List.rtake, drop_drop, length_drop]
    congr 2
    omega

theorem foldl_step (calls : List Call) : calls.foldl step [] = shown (pushed calls) := by
  induction calls using List.reverseRecOn with
  | nil => rfl
  | append_singleton calls call ih =>
    have hpushed : pushed (calls ++ [call]) = pushed calls ++ pushed [call] := filterMap_append
    rw [foldl_concat, ih, hpushed]
    cases call with
    | push line => exact push_shown _ line
    | snapshot => exact congrArg shown (append_nil _).symm

theorem shown_eq_nil_iff {lines : List (List Char)} :
    shown lines = [] ↔ ∀ line ∈ lines, trim line = [] := by
  have hlast : ∀ texts : List (List Char), texts.rtake keepLines = [] ↔ texts = [] := by
    intro texts
    rw [List.rtake, drop_eq_nil_iff, ← length_eq_zero_iff, keepLines]
    omega
  simp [shown, hlast, filter_eq_nil_iff]

theorem truncate_cuts {text kept : List Char} {limit : Nat} (hkept : truncate text limit = some kept) :
    CutTo limit text kept := by
  rw [truncate] at hkept
  split at hkept
  · obtain ⟨hstart, hlength⟩ := sliceTo_eq_some hkept
    refine ⟨hstart, hlength.le, fun longer hlonger hfits => ?_⟩
    obtain hshort | ⟨rest, rfl⟩ := prefix_or_prefix_of_prefix hlonger hstart
    · exact hshort
    · -- nothing fits behind a cut that uses all the bytes
      cases rest with
      | nil => simp
      | cons c rest =>
        have hpos := byteLength_cons_pos c rest
        rw [byteLength_append] at hfits
        omega
  next hshort =>
    cases hkept
    exact ⟨prefix_rfl, by omega, fun _ hlonger _ => hlonger⟩

theorem truncate_isSome_iff {text : List Char} {limit : Nat} :
    (truncate text limit).isSome = true ↔
      byteLength text ≤ limit ∨ isCharBoundary text limit = true := by
  rw [truncate, isCharBoundary]
  split
  next hlong =>
    refine ⟨.inr, fun hcut => hcut.elim (fun hfits => ?_) id⟩
    rw [← le_antisymm hfits hlong]
    exact isCharBoundary_byteLength text
  next hshort => exact ⟨fun _ => .inl (by omega), fun _ => rfl⟩

/-- At every point of a run, a snapshot reports the last lines exactly when the joined
text fits or has a character that ends where it is cut. -/
theorem snapshot_reports_iff (calls : List Call) :
    Reported (pushed calls) (snapshot (calls.foldl step [])) ↔
      byteLength (Text.join ['\n'] (shown (pushed calls))) ≤ keepBytes * 2 ∨
        isCharBoundary (Text.join ['\n'] (shown (pushed calls))) (keepBytes * 2) = true := by
  rw [foldl_step, snapshot, ← truncate_isSome_iff]
  split
  next hnone =>
    have hblank := shown_eq_nil_iff.1 hnone
    rw [hnone]
    exact ⟨fun _ => rfl, fun _ => ⟨nofun, iff_of_true rfl hblank, nofun⟩⟩
  next hsome =>
    cases hcut : truncate (Text.join ['\n'] (shown (pushed calls))) (keepBytes * 2) with
    | none => exact ⟨fun hreported => absurd rfl hreported.answers, nofun⟩
    | some kept =>
      refine ⟨fun _ => rfl, fun _ => ⟨nofun, iff_of_false nofun (hsome ∘ shown_eq_nil_iff.2), ?_⟩⟩
      rintro text ⟨⟩
      exact truncate_cuts hcut

/-- One line of 467 characters of three bytes each has a character across the cut. -/
theorem snapshot_aborts :
    ¬ Reported (pushed [.push (List.replicate 467 '€')])
        (snapshot ([Call.push (List.replicate 467 '€')].foldl step [])) ∧
      crashMessage "agent".toList "exit code 1".toList
        ([Call.push (List.replicate 467 '€')].foldl step []) = none := by
  have hnone : snapshot ([Call.push (List.replicate 467 '€')].foldl step []) = none := by
    decide +kernel
  exact ⟨fun hreported => hreported.answers hnone, by rw [crashMessage, hnone]; rfl⟩

end Keel.StderrTail
