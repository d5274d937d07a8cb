import Keel.Foundation.Utf8

/-! # Malformed bytes

The standard decoders on arbitrary bytes. The strict one reports how far the bytes
are a text. The lossy one goes on: each malformed sequence, as far as it could have
started a character, is replaced by U+FFFD. Both agree on the longest prefix that is
a text.
-/

namespace Utf8

open List

/-- The character that the bytes start with. -/
def headChar? (bytes : List UInt8) : Option Char := bytes.toByteArray.utf8DecodeChar? 0

/-- Whether the second byte of a sequence of three or four bytes fits the first. -/
def secondFits (first second : UInt8) : Bool :=
  if first = 0xE0 then 0xA0 ≤ second && second ≤ 0xBF
  else if first = 0xED then 0x80 ≤ second && second ≤ 0x9F
  else if first = 0xF0 then 0x90 ≤ second && second ≤ 0xBF
  else if first = 0xF4 then 0x80 ≤ second && second ≤ 0x8F
  else 0x80 ≤ second && second ≤ 0xBF

/-- How many bytes at the start, where no character starts, one replacement stands
for: as many as could have started a character. -/
def malformedLength : List UInt8 → Nat
  | first :: second :: rest =>
    if 0xE0 ≤ first && first ≤ 0xF4 && secondFits first second then
      match rest with
      | third :: _ => if 0xF0 ≤ first && 0x80 ≤ third && third ≤ 0xBF then 3 else 2
      | [] => 2
    else 1
  | _ => 1

/-- The longest prefix that is a text, after some bytes that belong to the character
before. -/
def validFrom : Nat → List UInt8 → List Char
  | _, [] => []
  | skip + 1, _ :: rest => validFrom skip rest
  | 0, byte :: rest =>
    match headChar? (byte :: rest) with
    | some c => c :: validFrom (c.utf8Size - 1) rest
    | none => []

def validText (bytes : List UInt8) : List Char := validFrom 0 bytes

def validUpTo (bytes : List UInt8) : Nat := (encode (validText bytes)).length

def replacement : Char := '\uFFFD'

def lossyFrom : Nat → List UInt8 → List Char
  | _, [] => []
  | skip + 1, _ :: rest => lossyFrom skip rest
  | 0, byte :: rest =>
    match headChar? (byte :: rest) with
    | some c => c :: lossyFrom (c.utf8Size - 1) rest
    | none => replacement :: lossyFrom (malformedLength (byte :: rest) - 1) rest

/-- The text of arbitrary bytes, malformed sequences being replaced. -/
def lossy (bytes : List UInt8) : List Char := lossyFrom 0 bytes

section Head

@[simp] theorem headChar?_encode_append (c : Char) (rest : List UInt8) :
    headChar? (String.utf8EncodeChar c ++ rest) = some c := by
  rw [headChar?, toByteArray_append]
  exact ByteArray.utf8DecodeChar?_utf8EncodeChar_append

theorem exists_of_headChar? {bytes : List UInt8} {c : Char} (hhead : headChar? bytes = some c) :
    ∃ rest, bytes = String.utf8EncodeChar c ++ rest := by
  obtain ⟨rest, hrest⟩ := ByteArray.exists_of_utf8DecodeChar?_eq_some hhead
  refine ⟨rest.data.toList, ?_⟩
  have hlist := congrArg (fun array : ByteArray => array.data.toList) hrest
  simpa using hlist

theorem exists_utf8EncodeChar_cons (c : Char) :
    ∃ byte others, String.utf8EncodeChar c = byte :: others ∧ others.length = c.utf8Size - 1 := by
  have hlength := String.length_utf8EncodeChar c
  cases hbytes : String.utf8EncodeChar c with
  | nil =>
    rw [hbytes, length_nil] at hlength
    exact absurd c.utf8Size_pos (by omega)
  | cons byte others =>
    rw [hbytes, length_cons] at hlength
    exact ⟨byte, others, rfl, by omega⟩

end Head

section Valid

theorem validFrom_skip (others rest : List UInt8) :
    validFrom others.length (others ++ rest) = validText rest := by
  induction others with
  | nil => rfl
  | cons byte others ih => exact ih

theorem validText_char (c : Char) (rest : List UInt8) :
    validText (String.utf8EncodeChar c ++ rest) = c :: validText rest := by
  have hhead := headChar?_encode_append c rest
  obtain ⟨byte, others, hbytes, hlength⟩ := exists_utf8EncodeChar_cons c
  rw [hbytes, cons_append] at hhead ⊢
  rw [validText, validFrom, hhead]
  simp only
  rw [← hlength, validFrom_skip]

theorem validText_eq_nil_iff {bytes : List UInt8} (hbytes : bytes ≠ []) :
    validText bytes = [] ↔ headChar? bytes = none := by
  cases bytes with
  | nil => exact absurd rfl hbytes
  | cons byte rest =>
    rw [validText, validFrom]
    split
    next c hhead => simp [hhead]
    next hhead => simp [hhead]

@[simp] theorem validText_encode_append (text : List Char) (rest : List UInt8) :
    validText (encode text ++ rest) = text ++ validText rest := by
  induction text with
  | nil => rfl
  | cons c text ih => rw [encode_cons, append_assoc, validText_char, ih, cons_append]

theorem exists_validText_rest (bytes : List UInt8) :
    ∃ rest, bytes = encode (validText bytes) ++ rest ∧ validText rest = [] := by
  induction hsize : bytes.length using Nat.strong_induction_on generalizing bytes with
  | _ size ih =>
    cases hhead : headChar? bytes with
    | none =>
      refine ⟨bytes, ?_⟩
      by_cases hbytes : bytes = []
      · subst hbytes
        exact ⟨rfl, rfl⟩
      · have hnil := (validText_eq_nil_iff hbytes).mpr hhead
        rw [hnil]
        exact ⟨rfl, rfl⟩
    | some c =>
      obtain ⟨rest, rfl⟩ := exists_of_headChar? hhead
      have hlength := String.length_utf8EncodeChar c
      have hpositive := c.utf8Size_pos
      rw [length_append] at hsize
      obtain ⟨last, hlast, hnil⟩ := ih rest.length (by omega) rest rfl
      refine ⟨last, ?_, hnil⟩
      rw [validText_char, encode_cons, append_assoc, ← hlast]

theorem take_validUpTo (bytes : List UInt8) :
    bytes.take (validUpTo bytes) = encode (validText bytes) := by
  obtain ⟨rest, hrest, -⟩ := exists_validText_rest bytes
  have htake : (encode (validText bytes) ++ rest).take (validUpTo bytes) =
      encode (validText bytes) := take_left
  rwa [← hrest] at htake

end Valid

section Lossy

theorem lossyFrom_skip (others rest : List UInt8) :
    lossyFrom others.length (others ++ rest) = lossy rest := by
  induction others with
  | nil => rfl
  | cons byte others ih => exact ih

theorem lossy_char (c : Char) (rest : List UInt8) :
    lossy (String.utf8EncodeChar c ++ rest) = c :: lossy rest := by
  have hhead := headChar?_encode_append c rest
  obtain ⟨byte, others, hbytes, hlength⟩ := exists_utf8EncodeChar_cons c
  rw [hbytes, cons_append] at hhead ⊢
  rw [lossy, lossyFrom, hhead]
  simp only
  rw [← hlength, lossyFrom_skip]

theorem lossy_encode_append (text : List Char) (rest : List UInt8) :
    lossy (encode text ++ rest) = text ++ lossy rest := by
  induction text with
  | nil => rfl
  | cons c text ih => rw [encode_cons, append_assoc, lossy_char, ih, cons_append]

@[simp] theorem lossy_encode (text : List Char) : lossy (encode text) = text := by
  have happend := lossy_encode_append text []
  rwa [append_nil, show lossy [] = [] from rfl, append_nil] at happend

theorem head_lossy_of_validText_nil {rest : List UInt8} (hnil : validText rest = []) :
    ∀ c ∈ (lossy rest).head?, c = replacement := by
  intro c hc
  cases rest with
  | nil => cases hc
  | cons byte rest =>
    have hhead := (validText_eq_nil_iff (cons_ne_nil byte rest)).mp hnil
    rw [lossy, lossyFrom, hhead] at hc
    exact (Option.some.inj hc).symm

/-- The decoders agree on the valid prefix; then comes a replacement or nothing. -/
theorem lossy_eq_validText_append (bytes : List UInt8) :
    ∃ others, lossy bytes = validText bytes ++ others ∧
      ∀ c ∈ others.head?, c = replacement := by
  obtain ⟨rest, hrest, hnil⟩ := exists_validText_rest bytes
  refine ⟨lossy rest, ?_, head_lossy_of_validText_nil hnil⟩
  have happend := lossy_encode_append (validText bytes) rest
  rwa [← hrest] at happend

end Lossy

end Utf8
