import Keel.Foundation.Lists
import Keel.Foundation.Text

/-! # Text as bytes

A text is written as the UTF-8 encoding of its characters. Reading is partial: a
sequence of bytes that ends inside a character is no text. Cutting an encoded text
at a byte offset therefore gives a text exactly at the boundaries of characters,
and the text it gives is then a prefix of the original.

A file read line by line is split at the newline byte before each line is decoded.
Since the newline byte occurs in no other encoded character, this succeeds exactly
when the whole file is a text, and gives the lines of that text.
-/

namespace Utf8

open List Text

def encode (text : List Char) : List UInt8 := text.flatMap String.utf8EncodeChar

def decode (bytes : List UInt8) : Option (List Char) :=
  (String.fromUTF8? bytes.toByteArray).map String.toList

section Codec

@[simp] theorem encode_nil : encode [] = [] := rfl

theorem encode_cons (c : Char) (text : List Char) :
    encode (c :: text) = String.utf8EncodeChar c ++ encode text := rfl

@[simp] theorem encode_append (first second : List Char) :
    encode (first ++ second) = encode first ++ encode second := by
  rw [encode, flatMap_append]
  rfl

theorem decode_eq_some_iff {bytes : List UInt8} {text : List Char} :
    decode bytes = some text ↔ bytes = encode text := by
  rw [decode, Option.map_eq_some_iff]
  constructor
  · rintro ⟨decoded, hdecoded, rfl⟩
    rw [String.fromUTF8?] at hdecoded
    split at hdecoded
    next hvalid =>
      cases hdecoded
      have hbytes : (String.fromUTF8 bytes.toByteArray hvalid).toList.utf8Encode =
          bytes.toByteArray := String.utf8Encode_toList
      exact (toByteArray_inj.mp hbytes).symm
    · cases hdecoded
  · rintro rfl
    have hvalid : ByteArray.IsValidUTF8 (encode text).toByteArray := ⟨text, rfl⟩
    refine ⟨String.fromUTF8 _ hvalid, dif_pos hvalid, ?_⟩
    have hsame : String.fromUTF8 _ hvalid = String.ofList text := by
      rw [← String.toByteArray_inj, String.toByteArray_ofList]
      rfl
    rw [hsame, String.toList_ofList]

@[simp] theorem decode_encode (text : List Char) : decode (encode text) = some text :=
  decode_eq_some_iff.2 rfl

theorem encode_injective {first second : List Char} (heq : encode first = encode second) :
    first = second := by
  have hdecode := congrArg decode heq
  simpa using hdecode

theorem prefix_of_encode_append {first second : List Char} {rest : List UInt8}
    (heq : encode first ++ rest = encode second) : first <+: second := by
  apply isPrefix_of_utf8Encode_append_eq_utf8Encode rest.toByteArray
  exact toByteArray_append.symm.trans (congrArg List.toByteArray heq)

theorem decode_encode_append_isSome_iff (text : List Char) {bytes : List UInt8} :
    (decode (encode text ++ bytes)).isSome = true ↔ (decode bytes).isSome = true := by
  simp only [Option.isSome_iff_exists, decode_eq_some_iff]
  constructor
  · rintro ⟨whole, hwhole⟩
    obtain ⟨rest, rfl⟩ := prefix_of_encode_append hwhole
    rw [encode_append] at hwhole
    exact ⟨rest, append_cancel_left hwhole⟩
  · rintro ⟨rest, rfl⟩
    exact ⟨text ++ rest, (encode_append text rest).symm⟩

def Boundary (text : List Char) (offset : Nat) : Prop :=
  ∃ kept, kept ≤ text.length ∧ (encode (text.take kept)).length = offset

theorem take_encode_of_boundary (text : List Char) (kept : Nat) :
    (encode text).take (encode (text.take kept)).length = encode (text.take kept) := by
  have hsplit : encode text = encode (text.take kept) ++ encode (text.drop kept) := by
    rw [← encode_append, take_append_drop]
  rw [hsplit, take_left]

theorem length_encode_take_lt {text : List Char} {kept : Nat} (hkept : kept < text.length) :
    (encode (text.take kept)).length < (encode text).length := by
  by_contra hle
  have hbytes := take_encode_of_boundary text kept
  rw [take_of_length_le (Nat.le_of_not_lt hle)] at hbytes
  have hlength := congrArg List.length (encode_injective hbytes)
  rw [length_take] at hlength
  omega

/-- A text can be read back after a cut exactly when the cut is at a boundary. -/
theorem decode_take_isSome_iff {text : List Char} {offset : Nat}
    (hoffset : offset ≤ (encode text).length) :
    (decode ((encode text).take offset)).isSome = true ↔ Boundary text offset := by
  rw [Option.isSome_iff_exists]
  constructor
  · rintro ⟨kept, hkept⟩
    rw [decode_eq_some_iff] at hkept
    have hbytes : encode kept ++ (encode text).drop offset = encode text := by
      rw [← hkept, take_append_drop]
    obtain ⟨rest, rfl⟩ := prefix_of_encode_append hbytes
    refine ⟨kept.length, by simp, ?_⟩
    rw [take_left, ← hkept, length_take, min_eq_left hoffset]
  · rintro ⟨kept, -, rfl⟩
    exact ⟨text.take kept, by rw [take_encode_of_boundary, decode_encode]⟩

end Codec

section Slices

def byteLength : List Char → Nat
  | [] => 0
  | c :: rest => c.utf8Size + byteLength rest

/-- The text before a byte offset, when the offset is at a boundary of characters. -/
def sliceTo : List Char → Nat → Option (List Char)
  | _, 0 => some []
  | [], _ + 1 => none
  | c :: rest, offset + 1 =>
    if c.utf8Size ≤ offset + 1 then
      (sliceTo rest (offset + 1 - c.utf8Size)).map fun kept => c :: kept
    else none

/-- The text from a byte offset on, when the offset is at a boundary of characters. -/
def sliceFrom : List Char → Nat → Option (List Char)
  | text, 0 => some text
  | [], _ + 1 => none
  | c :: rest, offset + 1 =>
    if c.utf8Size ≤ offset + 1 then sliceFrom rest (offset + 1 - c.utf8Size) else none

@[simp] theorem byteLength_nil : byteLength [] = 0 := rfl

@[simp] theorem byteLength_append (first second : List Char) :
    byteLength (first ++ second) = byteLength first + byteLength second := by
  induction first with
  | nil => simp
  | cons c rest ih => rw [cons_append, byteLength, byteLength, ih, Nat.add_assoc]

theorem byteLength_le (text : List Char) : byteLength text ≤ 4 * text.length := by
  induction text with
  | nil => exact Nat.le_refl 0
  | cons c rest ih =>
    have hsize := c.utf8Size_le_four
    rw [byteLength, length_cons]
    omega

theorem byteLength_cons_pos (c : Char) (rest : List Char) : 0 < byteLength (c :: rest) :=
  Nat.lt_of_lt_of_le c.utf8Size_pos (Nat.le_add_right _ _)

@[simp] theorem sliceTo_append (first second : List Char) :
    sliceTo (first ++ second) (byteLength first) = some first := by
  induction first with
  | nil => exact sliceTo.eq_1 second
  | cons c rest ih =>
    obtain ⟨offset, hoffset⟩ := Nat.exists_eq_add_of_le' (byteLength_cons_pos c rest)
    have hsize : offset + 1 - c.utf8Size = byteLength rest := by
      rw [byteLength] at hoffset
      omega
    rw [hoffset, cons_append, sliceTo, hsize, ih, if_pos (by rw [byteLength] at hoffset; omega)]
    rfl

@[simp] theorem sliceFrom_append (first second : List Char) :
    sliceFrom (first ++ second) (byteLength first) = some second := by
  induction first with
  | nil => exact sliceFrom.eq_1 second
  | cons c rest ih =>
    obtain ⟨offset, hoffset⟩ := Nat.exists_eq_add_of_le' (byteLength_cons_pos c rest)
    have hsize : offset + 1 - c.utf8Size = byteLength rest := by
      rw [byteLength] at hoffset
      omega
    rw [hoffset, cons_append, sliceFrom, hsize, ih,
      if_pos (by rw [byteLength] at hoffset; omega)]

end Slices

section Lines

/-- The lines of a file as the standard line reader cuts them: at newline bytes, a
carriage return before a newline being dropped; an empty last piece is no line. -/
def byteLines (bytes : List UInt8) : List (List UInt8) :=
  let pieces := bytes.splitOn 10
  let terminated := pieces.dropLast.map fun line =>
    if line.getLast? = some 13 then line.dropLast else line
  match pieces.getLast? with
  | none | some [] => terminated
  | some last => terminated ++ [last]

theorem utf8EncodeChar_of_mem_ascii {c : Char} {byte : UInt8} (hmem : byte ∈ String.utf8EncodeChar c)
    (hascii : byte.toNat < 128) : String.utf8EncodeChar c = [byte] ∧ c.toNat = byte.toNat := by
  have hval : c.toNat = c.val.toNat := rfl
  rw [String.utf8EncodeChar] at hmem ⊢
  split at hmem
  next hsmall =>
    rw [mem_singleton] at hmem
    subst hmem
    rw [if_pos hsmall]
    refine ⟨rfl, ?_⟩
    rw [UInt8.toNat_ofNat']
    omega
  · exfalso
    split at hmem
    · simp only [mem_cons, not_mem_nil, or_false] at hmem
      rcases hmem with rfl | rfl <;> rw [UInt8.toNat_ofNat'] at hascii <;> omega
    · split at hmem
      · simp only [mem_cons, not_mem_nil, or_false] at hmem
        rcases hmem with rfl | rfl | rfl <;> rw [UInt8.toNat_ofNat'] at hascii <;> omega
      · simp only [mem_cons, not_mem_nil, or_false] at hmem
        rcases hmem with rfl | rfl | rfl | rfl <;> rw [UInt8.toNat_ofNat'] at hascii <;> omega

theorem newline_mem_utf8EncodeChar {c : Char} : 10 ∈ String.utf8EncodeChar c ↔ c = '\n' := by
  constructor
  · intro hmem
    obtain ⟨-, hval⟩ := utf8EncodeChar_of_mem_ascii hmem (by decide)
    exact Char.toNat_inj.mp hval
  · rintro rfl
    decide

theorem newline_mem_encode {text : List Char} : 10 ∈ encode text ↔ '\n' ∈ text := by
  rw [encode, mem_flatMap]
  constructor
  · rintro ⟨c, hc, hmem⟩
    rwa [newline_mem_utf8EncodeChar.1 hmem] at hc
  · exact fun hmem => ⟨'\n', hmem, by decide⟩

theorem splitOn_append_of_notMem {α : Type} [BEq α] [LawfulBEq α] {sep : α} {line : List α}
    (hline : sep ∉ line) (rest : List α) :
    (line ++ rest).splitOn sep = (rest.splitOn sep).modifyHead (line ++ ·) := by
  induction line with
  | nil => exact (congrFun modifyHead_id _).symm
  | cons head tail ih =>
    rw [mem_cons, not_or] at hline
    have hhead : (head == sep) = false := beq_eq_false_iff_ne.mpr (Ne.symm hline.1)
    rw [cons_append, splitOn_cons_eq_if_modifyHead, hhead, ih hline.2]
    simp [Function.comp_def]

theorem splitOn_encode (text : List Char) :
    (encode text).splitOn 10 = (text.splitOn '\n').map encode := by
  induction text with
  | nil => rfl
  | cons c rest ih =>
    rw [encode_cons, splitOn_cons_eq_if_modifyHead]
    by_cases hc : c = '\n'
    · subst hc
      have hbytes : String.utf8EncodeChar '\n' = [10] := by decide
      rw [hbytes, singleton_append, splitOn_cons_eq_if_modifyHead, ih]
      simp
    · have hbytes : 10 ∉ String.utf8EncodeChar c := fun h => hc (newline_mem_utf8EncodeChar.1 h)
      rw [splitOn_append_of_notMem hbytes, ih]
      cases hpieces : rest.splitOn '\n' with
      | nil => exact absurd hpieces (splitOn_ne_nil _ _)
      | cons line others => simp [hc, encode_cons]

theorem getLast?_encode {line : List Char} :
    (encode line).getLast? = some 13 ↔ line.getLast? = some '\r' := by
  rcases eq_nil_or_concat line with rfl | ⟨init, last, rfl⟩
  · simp
  · rw [concat_eq_append, encode_append, getLast?_append, getLast?_concat,
      Option.some.injEq]
    have hlast : encode [last] = String.utf8EncodeChar last := by simp [encode]
    rw [hlast]
    constructor
    · intro hbyte
      have hmem : (13 : UInt8) ∈ String.utf8EncodeChar last := by
        cases hchar : (String.utf8EncodeChar last).getLast? with
        | none =>
          have hsize := String.length_utf8EncodeChar last
          rw [getLast?_eq_none_iff.mp hchar] at hsize
          exact absurd last.utf8Size_pos (by simp [← hsize])
        | some byte =>
          rw [hchar, Option.some_or, Option.some.injEq] at hbyte
          exact hbyte ▸ mem_of_getLast? hchar
      obtain ⟨-, hval⟩ := utf8EncodeChar_of_mem_ascii hmem (by decide)
      exact Char.toNat_inj.mp hval
    · rintro rfl
      have hbytes : String.utf8EncodeChar '\r' = [13] := by decide
      rw [hbytes]
      rfl

theorem byteLines_encode (text : List Char) : byteLines (encode text) = (lines text).map encode := by
  have hstrip : ∀ line : List Char,
      (if (encode line).getLast? = some 13 then (encode line).dropLast else encode line) =
        encode (if line.getLast? = some '\r' then line.dropLast else line) := by
    intro line
    by_cases hcr : line.getLast? = some '\r'
    · rw [if_pos hcr, if_pos (getLast?_encode.mpr hcr)]
      obtain ⟨init, rfl⟩ := getLast?_eq_some_iff.mp hcr
      have hbytes : encode ['\r'] = [13] := by decide
      rw [encode_append, hbytes, dropLast_concat, dropLast_concat]
    · rw [if_neg hcr, if_neg (fun h => hcr (getLast?_encode.mp h))]
  have hempty : ∀ line : List Char, encode line = [] → line = [] := fun line h => encode_injective h
  have hterminated : ((text.splitOn '\n').map encode).dropLast.map
      (fun line => if line.getLast? = some 13 then line.dropLast else line) =
      ((text.splitOn '\n').dropLast.map
        fun line => if line.getLast? = some '\r' then line.dropLast else line).map encode := by
    rw [← map_dropLast, map_map, map_map]
    exact map_congr_left fun line _ => hstrip line
  simp only [byteLines, lines, splitOn_encode, hterminated, getLast?_map]
  cases hlast : (text.splitOn '\n').getLast? with
  | none => rfl
  | some last =>
    cases last with
    | nil => rfl
    | cons head tail =>
      cases hbytes : encode (head :: tail) with
      | nil => cases hempty _ hbytes
      | cons byte rest => simp [hbytes]

theorem exists_encode_intercalate {pieces : List (List UInt8)}
    (hpieces : ∀ piece ∈ pieces, ∃ text, piece = encode text) :
    ∃ text, [10].intercalate pieces = encode text := by
  induction pieces with
  | nil => exact ⟨[], rfl⟩
  | cons piece rest ih =>
    rw [forall_mem_cons] at hpieces
    obtain ⟨first, rfl⟩ := hpieces.1
    cases rest with
    | nil => exact ⟨first, by simp⟩
    | cons other rest =>
      obtain ⟨second, hsecond⟩ := ih hpieces.2
      refine ⟨first ++ '\n' :: second, ?_⟩
      have hbytes : String.utf8EncodeChar '\n' = [10] := by decide
      rw [intercalate_cons_cons, hsecond, encode_append, encode_cons, hbytes,
        append_assoc]

theorem exists_encode_of_byteLines {bytes : List UInt8}
    (hlines : ∀ line ∈ byteLines bytes, ∃ text, line = encode text) :
    ∃ text, bytes = encode text := by
  have hpieces : ∀ piece ∈ bytes.splitOn 10, ∃ text, piece = encode text := by
    intro piece hpiece
    obtain ⟨last, hlast⟩ : ∃ last, (bytes.splitOn 10).getLast? = some last :=
      ⟨_, getLast?_eq_some_getLast (splitOn_ne_nil _ _)⟩
    obtain ⟨init, hinit⟩ := getLast?_eq_some_iff.mp hlast
    rw [hinit, mem_append, mem_singleton] at hpiece
    have hbytes : byteLines bytes = init.map (fun line =>
        if line.getLast? = some 13 then line.dropLast else line) ++ if last = [] then [] else [last] := by
      simp only [byteLines, hinit, dropLast_concat]
      cases last with
      | nil | cons head tail => simp
    rw [hbytes] at hlines
    rcases hpiece with hterminated | rfl
    · obtain ⟨text, htext⟩ := hlines _ (mem_append_left _ (mem_map.mpr ⟨piece, hterminated, rfl⟩))
      split at htext
      next hcr =>
        obtain ⟨start, rfl⟩ := getLast?_eq_some_iff.mp hcr
        rw [dropLast_concat] at htext
        refine ⟨text ++ ['\r'], ?_⟩
        have hbyte : encode ['\r'] = [13] := by decide
        rw [htext, encode_append, hbyte]
      · exact ⟨text, htext⟩
    · by_cases hempty : piece = []
      · exact ⟨[], hempty⟩
      · refine hlines piece (mem_append_right _ ?_)
        rw [if_neg hempty]
        exact mem_singleton_self _
  obtain ⟨text, htext⟩ := exists_encode_intercalate hpieces
  exact ⟨text, by rw [← htext, intercalate_splitOn]⟩

/-- Reading a file line by line gives the lines of its text, and fails when the file
is no text. -/
theorem mapM_decode_byteLines (bytes : List UInt8) :
    (byteLines bytes).mapM decode = (decode bytes).map lines := by
  cases hdecode : decode bytes with
  | some text =>
    rw [decode_eq_some_iff] at hdecode
    rw [hdecode, byteLines_encode, Option.map_some]
    induction lines text with
    | nil => rfl
    | cons line rest ih => simp [ih]
  | none =>
    by_contra hsome
    rw [Option.map_none, ← ne_eq, Option.ne_none_iff_exists'] at hsome
    obtain ⟨lines, hlines⟩ := hsome
    have htexts : ∀ line ∈ byteLines bytes, ∃ text, line = encode text := by
      intro line hline
      obtain ⟨text, htext⟩ := Lists.exists_mapM_eq_some_iff.1 ⟨lines, hlines⟩ line hline
      exact ⟨text, decode_eq_some_iff.1 htext⟩
    obtain ⟨text, htext⟩ := exists_encode_of_byteLines htexts
    rw [decode_eq_some_iff.2 htext] at hdecode
    cases hdecode

end Lines

end Utf8
