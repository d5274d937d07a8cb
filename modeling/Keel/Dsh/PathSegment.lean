import Keel.Foundation.Text
import Mathlib.Data.List.Basic
import Mathlib.Tactic.Push

/-! # File names for session ids

A session id is any text; its file is named by a path segment. A text of safe
characters names itself. Every other text is written unit by unit of its UTF-16 form,
where the units that are not safe, and then the dot as well, become `~XXXX`.
-/

namespace Keel.Session

open List

section PrefixFree

variable {α β : Type}

/-- No value of the code begins another one, and none is empty. -/
def PrefixFree (code : α → List β) : Prop :=
  ∀ a b rest others, code a ++ rest = code b ++ others → code a ≠ [] ∧ a = b

theorem PrefixFree.flatMap_injective {code : α → List β} (hfree : PrefixFree code) :
    Function.Injective (List.flatMap code) := by
  intro first second heq
  induction first generalizing second with
  | nil =>
    cases second with
    | nil => rfl
    | cons b others =>
      rw [flatMap_nil, flatMap_cons] at heq
      exact absurd (append_eq_nil_iff.mp heq.symm).1 (hfree b b [] [] rfl).1
  | cons a rest ih =>
    cases second with
    | nil =>
      rw [flatMap_nil, flatMap_cons] at heq
      exact absurd (append_eq_nil_iff.mp heq).1 (hfree a a [] [] rfl).1
    | cons b others =>
      rw [flatMap_cons, flatMap_cons] at heq
      obtain ⟨-, rfl⟩ := hfree a b _ _ heq
      rw [ih (append_cancel_left heq)]

end PrefixFree

/-- `char::encode_utf16`. -/
def encodeUtf16 (c : Char) : List UInt16 :=
  if c.toNat < 0x10000 then [UInt16.ofNat c.toNat]
  else
    [UInt16.ofNat (0xd800 + (c.toNat - 0x10000) / 0x400),
      UInt16.ofNat (0xdc00 + (c.toNat - 0x10000) % 0x400)]

/-- The characters both encodings leave as they are. -/
def isLiteral (c : Char) : Bool := Text.isAsciiAlphanumeric c || c == '-' || c == '_'

def isSafe (c : Char) : Bool := isLiteral c || c == '.'

/-- `char::from_u32` on a unit. -/
def fromUnit (unit : UInt16) : Option Char :=
  if unit.toNat.isValidChar then some (Char.ofNat unit.toNat) else none

/-- `{unit:04x}`. -/
def hex4 (unit : UInt16) : List Char :=
  [Nat.digitChar (unit.toNat / 4096), Nat.digitChar (unit.toNat / 256 % 16),
    Nat.digitChar (unit.toNat / 16 % 16), Nat.digitChar (unit.toNat % 16)]

def encodeUnit (unit : UInt16) : List Char :=
  match (fromUnit unit).filter isLiteral with
  | some c => [c]
  | none => '~' :: hex4 unit

/-- The segment for a text; nothing when it aborts. -/
def encodePathSegment (raw : List Char) : Option (List Char) :=
  if raw = [] then none
  else if raw ≠ ['.'] ∧ raw ≠ ['.', '.'] ∧ raw.all isSafe = true then some raw
  else
    let encoded := (raw.flatMap encodeUtf16).flatMap encodeUnit
    some (if encoded = [] then ['~'] else encoded)

structure SafeSegment (segment : List Char) : Prop where
  nonempty : segment ≠ []
  alphabet : ∀ c ∈ segment, isSafe c = true ∨ c = '~'
  not_dot : segment ≠ ['.']
  not_dots : segment ≠ ['.', '.']

theorem toNat_char (c : Char) : c.toNat < 0xd800 ∨ 0xdfff < c.toNat ∧ c.toNat < 0x110000 := c.valid

theorem encodeUtf16_prefixFree : PrefixFree encodeUtf16 := by
  intro a b rest others heq
  have ha := toNat_char a
  have hb := toNat_char b
  refine ⟨by rw [encodeUtf16]; split <;> nofun, Char.toNat_inj.mp ?_⟩
  have hunit : ∀ m n, UInt16.ofNat m = UInt16.ofNat n → m < 65536 → n < 65536 → m = n := by
    intro m n hmn hm hn
    have hmod := congrArg UInt16.toNat hmn
    rwa [UInt16.toNat_ofNat', UInt16.toNat_ofNat', Nat.mod_eq_of_lt hm, Nat.mod_eq_of_lt hn] at hmod
  rw [encodeUtf16, encodeUtf16] at heq
  -- the first unit tells a surrogate pair from a single unit
  split at heq <;> split at heq <;>
    simp only [cons_append, nil_append, List.cons.injEq] at heq
  · exact hunit _ _ heq.1 (by omega) (by omega)
  · have hfirst := hunit _ _ heq.1 (by omega) (by omega)
    omega
  · have hfirst := hunit _ _ heq.1 (by omega) (by omega)
    omega
  · have hfirst := hunit _ _ heq.1 (by omega) (by omega)
    have hsecond := hunit _ _ heq.2.1 (by omega) (by omega)
    omega

theorem fromUnit_literal {unit : UInt16} {c : Char}
    (hunit : (fromUnit unit).filter isLiteral = some c) :
    c.toNat = unit.toNat ∧ isLiteral c = true := by
  rw [Option.filter_eq_some_iff, fromUnit] at hunit
  obtain ⟨hchar, hliteral⟩ := hunit
  split at hchar
  next hvalid =>
    cases hchar
    exact ⟨by rw [Char.ofNat, dif_pos hvalid]; rfl, hliteral⟩
  · cases hchar

theorem digitChar_inj : ∀ m < 16, ∀ n < 16, Nat.digitChar m = Nat.digitChar n → m = n := by decide

theorem isSafe_digitChar : ∀ n < 16, isSafe (Nat.digitChar n) = true := by decide

theorem encodeUnit_prefixFree : PrefixFree encodeUnit := by
  intro a b rest others heq
  refine ⟨by rw [encodeUnit]; split <;> nofun, UInt16.toNat_inj.mp ?_⟩
  have ha := a.toNat_lt
  have hb := b.toNat_lt
  rw [encodeUnit, encodeUnit] at heq
  split at heq <;> split at heq <;>
    simp only [cons_append, nil_append, hex4, List.cons.injEq] at heq
  next _ c hc _ d hd =>
    rw [← (fromUnit_literal hc).1, ← (fromUnit_literal hd).1, heq.1]
  next _ c hc _ _ =>
    rw [heq.1] at hc
    exact absurd (fromUnit_literal hc).2 (by decide)
  next _ _ _ d hd =>
    rw [← heq.1] at hd
    exact absurd (fromUnit_literal hd).2 (by decide)
  · obtain ⟨-, h1, h2, h3, h4, -⟩ := heq
    have h1 := digitChar_inj _ (by omega) _ (by omega) h1
    have h2 := digitChar_inj _ (by omega) _ (by omega) h2
    have h3 := digitChar_inj _ (by omega) _ (by omega) h3
    have h4 := digitChar_inj _ (by omega) _ (by omega) h4
    omega

theorem mem_encodeUnit {unit : UInt16} {c : Char} (hc : c ∈ encodeUnit unit) :
    isSafe c = true ∨ c = '~' := by
  have hlt := unit.toNat_lt
  rw [encodeUnit] at hc
  split at hc
  next d hd =>
    obtain rfl := mem_singleton.mp hc
    exact .inl (by rw [isSafe, (fromUnit_literal hd).2, Bool.true_or])
  · rw [hex4, mem_cons, mem_cons, mem_cons, mem_cons, mem_singleton] at hc
    rcases hc with rfl | rfl | rfl | rfl | rfl
    · exact .inr rfl
    all_goals exact .inl (isSafe_digitChar _ (by omega))

/-- A character that is not literal is written with an escape. -/
theorem tilde_mem_encode {c : Char} (hc : isLiteral c = false) :
    '~' ∈ (encodeUtf16 c).flatMap encodeUnit := by
  have hchar := toNat_char c
  obtain ⟨unit, hunit, hnone⟩ : ∃ unit ∈ encodeUtf16 c, (fromUnit unit).filter isLiteral = none := by
    rw [encodeUtf16]
    split
    next hsmall =>
      refine ⟨_, mem_singleton_self _, ?_⟩
      cases hfilter : (fromUnit (UInt16.ofNat c.toNat)).filter isLiteral with
      | none => rfl
      | some d =>
        obtain ⟨hd, hliteral⟩ := fromUnit_literal hfilter
        rw [UInt16.toNat_ofNat', Nat.mod_eq_of_lt (by omega)] at hd
        rw [Char.toNat_inj.mp hd, hc] at hliteral
        cases hliteral
    next hlarge =>
      refine ⟨_, mem_cons_self, ?_⟩
      have hunit : ¬ (UInt16.ofNat (0xd800 + (c.toNat - 0x10000) / 0x400)).toNat.isValidChar := by
        rw [UInt16.toNat_ofNat', Nat.isValidChar]
        omega
      rw [fromUnit, if_neg hunit]
      rfl
  refine mem_flatMap.mpr ⟨unit, hunit, ?_⟩
  rw [encodeUnit, hnone]
  exact mem_cons_self

theorem tilde_mem_escaped {raw : List Char} (hraw : raw ≠ [])
    (hescape : ¬ (raw ≠ ['.'] ∧ raw ≠ ['.', '.'] ∧ raw.all isSafe = true)) :
    '~' ∈ (raw.flatMap encodeUtf16).flatMap encodeUnit := by
  obtain ⟨c, hmem, hc⟩ : ∃ c ∈ raw, isLiteral c = false := by
    by_cases hdots : raw = ['.'] ∨ raw = ['.', '.']
    · rcases hdots with rfl | rfl <;> exact ⟨'.', mem_cons_self, by decide⟩
    · rw [not_or] at hdots
      have hall : ¬ raw.all isSafe = true := fun hall => hescape ⟨hdots.1, hdots.2, hall⟩
      rw [all_eq_true] at hall
      push Not at hall
      obtain ⟨c, hmem, hc⟩ := hall
      exact ⟨c, hmem, by rw [isSafe] at hc; simp at hc; simpa using hc.1⟩
  rw [flatMap_assoc]
  exact mem_flatMap.mpr ⟨c, hmem, tilde_mem_encode hc⟩

theorem encodePathSegment_cases {raw segment : List Char}
    (hsegment : encodePathSegment raw = some segment) :
    (segment = raw ∧ raw ≠ [] ∧ raw ≠ ['.'] ∧ raw ≠ ['.', '.'] ∧ raw.all isSafe = true) ∨
      '~' ∈ segment ∧ segment = (raw.flatMap encodeUtf16).flatMap encodeUnit := by
  rw [encodePathSegment] at hsegment
  split at hsegment
  · cases hsegment
  next hraw =>
    split at hsegment
    next hsafe => exact .inl ⟨(Option.some.inj hsegment).symm, hraw, hsafe⟩
    next hescape =>
      have htilde := tilde_mem_escaped hraw hescape
      simp only [if_neg (ne_nil_of_mem htilde)] at hsegment
      cases hsegment
      exact .inr ⟨htilde, rfl⟩

theorem tilde_notMem {raw : List Char} (hsafe : raw.all isSafe = true) : '~' ∉ raw :=
  fun hmem => absurd (all_eq_true.mp hsafe _ hmem) (by decide)

theorem safeSegment_of_encode {raw segment : List Char}
    (hsegment : encodePathSegment raw = some segment) : SafeSegment segment := by
  obtain ⟨rfl, hraw, hdot, hdots, hsafe⟩ | ⟨htilde, rfl⟩ := encodePathSegment_cases hsegment
  · exact ⟨hraw, fun c hc => .inl (all_eq_true.mp hsafe c hc), hdot, hdots⟩
  · refine ⟨ne_nil_of_mem htilde, fun c hc => ?_, ?_, ?_⟩
    · obtain ⟨unit, -, hc⟩ := mem_flatMap.mp hc
      exact mem_encodeUnit hc
    all_goals
      intro heq
      rw [heq] at htilde
      exact absurd htilde (by decide)

theorem encodePathSegment_eq_none {raw : List Char} : encodePathSegment raw = none ↔ raw = [] := by
  rw [encodePathSegment]
  split
  next hraw => simp [hraw]
  next hraw => split <;> simp [hraw]

/-- Two ids never share a file, and every file is named by a safe segment. -/
theorem encodePathSegment_injective_safe :
    Function.Injective encodePathSegment ∧
      ∀ raw, raw ≠ [] → ∃ segment, encodePathSegment raw = some segment ∧ SafeSegment segment := by
  constructor
  · intro first second heq
    cases hsegment : encodePathSegment first with
    | none =>
      have hsecond := heq ▸ hsegment
      rw [encodePathSegment_eq_none.1 hsegment, encodePathSegment_eq_none.1 hsecond]
    | some segment =>
      obtain ⟨rfl, -, -, -, hfirst⟩ | ⟨htilde, hfirst⟩ := encodePathSegment_cases hsegment <;>
        obtain ⟨rfl, -, -, -, hsecond⟩ | ⟨htilde', hsecond⟩ :=
          encodePathSegment_cases (heq ▸ hsegment)
      · rfl
      · exact absurd htilde' (tilde_notMem hfirst)
      · exact absurd htilde (tilde_notMem hsecond)
      · exact encodeUtf16_prefixFree.flatMap_injective
          (encodeUnit_prefixFree.flatMap_injective (hfirst.symm.trans hsecond))
  · intro raw hraw
    obtain ⟨segment, hsegment⟩ := Option.ne_none_iff_exists'.mp (mt encodePathSegment_eq_none.1 hraw)
    exact ⟨segment, hsegment, safeSegment_of_encode hsegment⟩

end Keel.Session
