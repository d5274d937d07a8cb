import Keel.Foundation.Uleb128
import Keel.Proto.JsonFields
import Keel.Rpc.Frames
import Mathlib.Data.Nat.Digits.Defs

/-! # Frames on the wire

The relay between two devices and the chat rooms carry binary frames: a length, a JSON
header of that length, and a payload that is the rest. Device frames have the length in
seven-bit groups, chat frames as four bytes behind a kind byte and under a cap.

Indexing, slicing and arithmetic on `usize` yield `none` where the code would panic.
-/

namespace Keel

open List Option

namespace Wire

open Rpc (RpcError)

section Machine

/-- `a + b` on `usize`. -/
def addUsize (a b : Nat) : Option Nat := if a + b < 2 ^ 64 then some (a + b) else none

/-- `a << shift` on `usize`; the bits beyond the width are lost. -/
def shlUsize (a shift : Nat) : Option Nat :=
  if shift < 64 then some ((a <<< shift) % 2 ^ 64) else none

/-- `bytes.get(start..stop)`. -/
def slice (bytes : List UInt8) (start stop : Nat) : Option (List UInt8) :=
  if start ≤ stop ∧ stop ≤ bytes.length then some ((bytes.take stop).drop start) else none

/-- `&bytes[start..]`. -/
def sliceFrom (bytes : List UInt8) (start : Nat) : Option (List UInt8) :=
  if start ≤ bytes.length then some (bytes.drop start) else none

theorem slice_append (front middle back : List UInt8) :
    slice (front ++ middle ++ back) front.length (front.length + middle.length) = some middle := by
  have hlength : front.length + middle.length = (front ++ middle).length := by simp
  rw [slice, if_pos ⟨by omega, by simp⟩, hlength, take_left, drop_left]

theorem sliceFrom_append (front back : List UInt8) :
    sliceFrom (front ++ back) front.length = some back := by
  rw [sliceFrom, if_pos (by simp), drop_left]

theorem eq_append_of_slice {bytes middle : List UInt8} {start stop : Nat}
    (hslice : slice bytes start stop = some middle) :
    bytes = bytes.take start ++ middle ++ bytes.drop stop ∧ middle.length = stop - start ∧
      start ≤ stop ∧ stop ≤ bytes.length := by
  unfold slice at hslice
  split at hslice
  next hbounds =>
    cases hslice
    refine ⟨?_, by simp; omega, hbounds⟩
    have hstart : bytes.take start = (bytes.take stop).take start := by
      rw [take_take, Nat.min_eq_left hbounds.1]
    rw [hstart, take_append_drop, take_append_drop]
  · cases hslice

end Machine

/-- JSON as bytes (`serde_json::to_vec` and `from_slice`). `unfit` is the message for a value
that is not of the shape that is read. -/
structure JsonBytes where
  write : Json → List UInt8
  read : List UInt8 → Except String Json
  unfit : Json → String

/-- Printing and parsing are inverse on a value. -/
def JsonBytes.ReadsBack (text : JsonBytes) (json : Json) : Prop :=
  text.read (text.write json) = .ok json

section DeviceFrames

/-- The JSON frame header. -/
structure DeviceFrameHeader where
  /-- Stream id. -/
  s : String
  /-- Stream kind. -/
  k : String
  «to» : Option String := none
  «from» : Option String := none

def DeviceFrameHeader.toJson (header : DeviceFrameHeader) : Json :=
  .record [("s", some (.string header.s)), ("k", some (.string header.k)),
    ("to", header.«to».map .string), ("from", header.«from».map .string)]

/-- An object gives one of the keys twice. -/
def givesTwice (keys : List String) : Json → Bool
  | .object fields => keys.any fun key => 1 < (fields.filter fun field => field.1 = key).length
  | _ => false

def DeviceFrameHeader.ofJson (json : Json) : Option DeviceFrameHeader := do
  if json.isRecord 4 ∧ ¬ givesTwice ["s", "k", "to", "from"] json then
    let s ← (json.member? 0 "s").bind Json.str?
    let k ← (json.member? 1 "k").bind Json.str?
    let target ← Json.optional? Json.str? (json.member? 2 "to")
    let origin ← Json.optional? Json.str? (json.member? 3 "from")
    some { s, k, «to» := target, «from» := origin }
  else none

variable (text : JsonBytes)

def bad (message : String) : RpcError := .transport ("device frame: " ++ message)

/-- Encode `uleb128(header_len) ‖ header JSON ‖ payload`. -/
def encodeDeviceFrame (header : DeviceFrameHeader) (payload : List UInt8) : List UInt8 :=
  let json := text.write header.toJson
  Uleb128.groups json.length ++ json ++ payload

/-- The loop over the groups of the length: the offset behind them, and the length. -/
def readLength : List UInt8 → Nat → Nat → Nat → Option (Except RpcError (Nat × Nat))
  | [], _, _, _ => some (.error (bad "truncated uleb128"))
  | byte :: rest, offset, len, shift => do
      let offset ← addUsize offset 1
      if 32 ≤ shift then some (.error (bad "uleb128 overflow"))
      else
        let group ← shlUsize (byte &&& 0x7f).toNat shift
        let len := len ||| group
        if byte &&& 0x80 = 0 then some (.ok (offset, len))
        else readLength rest offset len (shift + 7)

def readHeader (bytes : List UInt8) : Except String DeviceFrameHeader :=
  match text.read bytes with
  | .error message => .error message
  | .ok json =>
    match DeviceFrameHeader.ofJson json with
    | some header => .ok header
    | none => .error (text.unfit json)

def decodeDeviceFrame (bytes : List UInt8) :
    Option (Except RpcError (DeviceFrameHeader × List UInt8)) := do
  match ← readLength bytes 0 0 0 with
  | .error error => some (.error error)
  | .ok (offset, len) =>
    match addUsize offset len with
    | none => some (.error (bad "header length overflow"))
    | some headerEnd =>
      match slice bytes offset headerEnd with
      | none => some (.error (bad "truncated header"))
      | some headerBytes =>
        match readHeader text headerBytes with
        | .error message => some (.error (bad ("bad header JSON: " ++ message)))
        | .ok header => do
            let payload ← sliceFrom bytes headerEnd
            some (.ok (header, payload))

end DeviceFrames

section ChatFrames

/-- Headers are ids and a few integers; anything bigger is a peer bug. -/
def MAX_HEADER_BYTES : Nat := 4096

structure WireFrame where
  kind : UInt8
  header : Json
  payload : List UInt8

/-- `u32::to_le_bytes`. -/
def toLeBytes (n : Nat) : List UInt8 :=
  [UInt8.ofNat n, UInt8.ofNat (n >>> 8), UInt8.ofNat (n >>> 16), UInt8.ofNat (n >>> 24)]

/-- `u32::from_le_bytes`. -/
def fromLeBytes (bytes : List UInt8) : Nat := Nat.ofDigits 256 (bytes.map UInt8.toNat)

variable (text : JsonBytes)

def encode (kind : UInt8) (header : Json) (payload : List UInt8) : List UInt8 :=
  let json := text.write header
  kind :: toLeBytes (json.length % 2 ^ 32) ++ json ++ payload

/-- `none` within = malformed. -/
def decode (bytes : List UInt8) : Option (Option WireFrame) :=
  if bytes.length < 5 then some none
  else do
    let kind ← bytes[0]?
    let field ← slice bytes 1 5
    let headerLen := fromLeBytes field
    if MAX_HEADER_BYTES < headerLen then some none
    else
      let headerEnd ← addUsize 5 headerLen
      if bytes.length < headerEnd then some none
      else
        let headerBytes ← slice bytes 5 headerEnd
        match text.read headerBytes with
        | .error _ => some none
        | .ok header =>
          if header.isObject then do
            let payload ← sliceFrom bytes headerEnd
            some (some { kind, header, payload })
          else some none

end ChatFrames

section DeviceLemmas

variable {text : JsonBytes}

theorem ofJson_toJson (header : DeviceFrameHeader) :
    DeviceFrameHeader.ofJson header.toJson = some header := by
  obtain ⟨s, k, target, origin⟩ := header
  cases target with
  | none | some target => cases origin with
    | none | some origin => rfl

theorem readHeader_write {header : DeviceFrameHeader} (hback : text.ReadsBack header.toJson) :
    readHeader text (text.write header.toJson) = .ok header := by
  rw [JsonBytes.ReadsBack] at hback
  simp only [readHeader, hback, ofJson_toJson]

theorem shlUsize_group {byte : UInt8} {k : Nat} (hk : k < 5) :
    shlUsize (byte &&& 0x7f).toNat (7 * k) = some ((byte.toNat % 128) <<< (7 * k)) := by
  have hpow : 2 ^ (7 * k) ≤ 2 ^ 28 := Nat.pow_le_pow_right (by decide) (by omega)
  have hbyte : byte.toNat % 128 < 128 := Nat.mod_lt _ (by decide)
  rw [shlUsize, if_pos (by omega), Uleb128.toNat_and, Nat.mod_eq_of_lt]
  rw [Nat.shiftLeft_eq]
  calc byte.toNat % 128 * 2 ^ (7 * k) ≤ 127 * 2 ^ 28 := Nat.mul_le_mul (by omega) hpow
    _ < 2 ^ 64 := by decide

theorem readLength_cons {byte : UInt8} {rest : List UInt8} {k len : Nat} (hk : k < 5)
    (hlen : len < 2 ^ (7 * k)) :
    readLength (byte :: rest) k len (7 * k) =
      if byte.toNat < 128 then some (.ok (k + 1, len + 2 ^ (7 * k) * (byte.toNat % 128)))
      else readLength rest (k + 1) (len + 2 ^ (7 * k) * (byte.toNat % 128)) (7 * (k + 1)) := by
  have hadd : addUsize k 1 = some (k + 1) := if_pos (by omega)
  simp only [readLength, hadd, shlUsize_group hk, bind_eq_bind, bind_some,
    Uleb128.and_eq_zero_iff, Uleb128.or_shiftLeft hlen, Nat.mul_succ]
  rw [if_neg (by omega)]

theorem len_lt {len k group : Nat} (hlen : len < 2 ^ (7 * k)) (hgroup : group < 128) :
    len + 2 ^ (7 * k) * group < 2 ^ (7 * (k + 1)) := by
  have hle : 2 ^ (7 * k) * group ≤ 2 ^ (7 * k) * 127 := Nat.mul_le_mul_left _ (by omega)
  have hpow : 2 ^ (7 * (k + 1)) = 2 ^ (7 * k) * 128 := by
    rw [Nat.mul_succ, pow_add]; rfl
  omega

theorem readLength_number {number : List UInt8} (rest : List UInt8) {k len : Nat}
    (hnumber : Uleb128.IsNumber number) (hk : k + number.length ≤ 5) (hlen : len < 2 ^ (7 * k)) :
    readLength (number ++ rest) k len (7 * k) =
      some (.ok (k + number.length, len + 2 ^ (7 * k) * Uleb128.value number)) := by
  induction number generalizing k len with
  | nil => exact hnumber.elim
  | cons byte number ih =>
    rw [length_cons] at hk
    rw [cons_append, readLength_cons (by omega) hlen, length_cons, Uleb128.value]
    cases number with
    | nil => simp only [if_pos (Uleb128.isNumber_singleton.1 hnumber), Uleb128.value]; rfl
    | cons next number =>
      have hmore := hnumber.1
      rw [if_neg (by omega), ih hnumber.2 (by simp only [length_cons] at hk ⊢; omega)
        (len_lt hlen (by omega)), Nat.mul_succ 7, pow_add]
      congr 3
      · simp only [length_cons]
        omega
      · ring

/-- Whatever the bytes are, a number is read off their front or they are refused. -/
theorem readLength_total (bytes : List UInt8) {k len : Nat} (hk : k ≤ 5)
    (hlen : len < 2 ^ (7 * k)) :
    (∃ error, readLength bytes k len (7 * k) = some (.error error)) ∨
      ∃ number rest, bytes = number ++ rest ∧ Uleb128.IsNumber number ∧
        readLength bytes k len (7 * k) =
          some (.ok (k + number.length, len + 2 ^ (7 * k) * Uleb128.value number)) := by
  induction bytes generalizing k len with
  | nil => exact .inl ⟨_, rfl⟩
  | cons byte bytes ih =>
    by_cases hguard : k = 5
    · subst hguard
      exact .inl ⟨bad "uleb128 overflow", rfl⟩
    · rw [readLength_cons (by omega) hlen]
      by_cases hlast : byte.toNat < 128
      · refine .inr ⟨[byte], bytes, rfl, hlast, ?_⟩
        rw [if_pos hlast]
        rfl
      · rw [if_neg hlast]
        have hnext := len_lt hlen (Nat.mod_lt byte.toNat (by decide : 0 < 128))
        rcases ih (by omega) hnext with herror | ⟨number, rest, rfl, hnumber, hread⟩
        · exact .inl herror
        · refine .inr ⟨byte :: number, rest, rfl, (Uleb128.isNumber_cons hnumber).2 (by omega), ?_⟩
          rw [hread, Nat.mul_succ 7, pow_add, length_cons, Uleb128.value]
          congr 3
          · omega
          · ring

theorem decodeDeviceFrame_encode {header : DeviceFrameHeader} (payload : List UInt8)
    (hback : text.ReadsBack header.toJson) (hlength : (text.write header.toJson).length < 2 ^ 35) :
    decodeDeviceFrame text (encodeDeviceFrame text header payload) =
      some (.ok (header, payload)) := by
  generalize hjson : text.write header.toJson = json at hlength
  have hshort : (Uleb128.groups json.length).length ≤ 5 := Uleb128.length_groups_le hlength
  have hread : readLength (encodeDeviceFrame text header payload) 0 0 0 =
      some (.ok ((Uleb128.groups json.length).length, json.length)) := by
    have hnumber := @readLength_number _ (json ++ payload) 0 0 (Uleb128.isNumber_groups json.length)
      (by omega) (by decide)
    rw [Uleb128.value_groups] at hnumber
    simpa [encodeDeviceFrame, hjson] using hnumber
  have hadd : addUsize (Uleb128.groups json.length).length json.length =
      some ((Uleb128.groups json.length).length + json.length) := if_pos (by omega)
  have hslice : slice (encodeDeviceFrame text header payload) (Uleb128.groups json.length).length
      ((Uleb128.groups json.length).length + json.length) = some json := by
    rw [encodeDeviceFrame, hjson]
    exact slice_append _ _ _
  have hpayload : sliceFrom (encodeDeviceFrame text header payload)
      ((Uleb128.groups json.length).length + json.length) = some payload := by
    rw [encodeDeviceFrame, hjson, ← length_append]
    exact sliceFrom_append _ _
  simp only [decodeDeviceFrame, hread, bind_eq_bind, bind_some, hadd, hslice,
    hjson ▸ readHeader_write hback, hpayload]

/-- No bytes make the decoder panic, and a decoded frame is a length, a header of that length and
the rest. -/
theorem decodeDeviceFrame_total (text : JsonBytes) (bytes : List UInt8) :
    ∃ result, decodeDeviceFrame text bytes = some result ∧ ∀ header payload,
      result = .ok (header, payload) → ∃ number headerBytes,
        bytes = number ++ headerBytes ++ payload ∧ Uleb128.IsNumber number ∧
          headerBytes.length = Uleb128.value number ∧ readHeader text headerBytes = .ok header := by
  simp only [decodeDeviceFrame]
  rcases @readLength_total bytes 0 0 (by decide) (by decide) with ⟨error, herror⟩ |
    ⟨number, rest, rfl, hnumber, hread⟩
  · refine ⟨.error error, by rw [herror]; rfl, fun header payload hok => by cases hok⟩
  · simp only [Nat.mul_zero, pow_zero, Nat.one_mul, Nat.zero_add] at hread
    simp only [hread, bind_eq_bind, bind_some]
    split
    · exact ⟨_, rfl, fun header payload hok => by cases hok⟩
    next headerEnd hadd =>
      obtain rfl : number.length + Uleb128.value number = headerEnd := by
        unfold addUsize at hadd
        split at hadd
        · exact Option.some.inj hadd
        · cases hadd
      split
      · exact ⟨_, rfl, fun header payload hok => by cases hok⟩
      next headerBytes hslice =>
        split
        · exact ⟨_, rfl, fun header payload hok => by cases hok⟩
        next header hheader =>
          obtain ⟨hbytes, hlength, -, hfits⟩ := eq_append_of_slice hslice
          rw [sliceFrom, if_pos hfits]
          refine ⟨_, rfl, fun other payload hok => ?_⟩
          cases hok
          refine ⟨number, headerBytes, ?_, hnumber, by omega, hheader⟩
          rw [take_left] at hbytes
          exact hbytes

end DeviceLemmas

section ChatLemmas

variable {text : JsonBytes}

@[simp] theorem length_toLeBytes (n : Nat) : (toLeBytes n).length = 4 := rfl

theorem fromLeBytes_toLeBytes {n : Nat} (hn : n < 2 ^ 32) : fromLeBytes (toLeBytes n) = n := by
  simp only [fromLeBytes, toLeBytes, map_cons, map_nil, UInt8.toNat_ofNat',
    Nat.ofDigits_cons, Nat.ofDigits_nil, Nat.shiftRight_eq_div_pow]
  omega

theorem decode_encode {header : Json} (kind : UInt8) (payload : List UInt8)
    (hback : text.ReadsBack header) (hobject : header.isObject = true)
    (hlength : (text.write header).length ≤ MAX_HEADER_BYTES) :
    decode text (encode text kind header payload) = some (some ⟨kind, header, payload⟩) := by
  rw [JsonBytes.ReadsBack] at hback
  generalize hjson : text.write header = json at hback hlength
  have hcap : json.length < 2 ^ 32 := Nat.lt_of_le_of_lt hlength (by decide)
  have hframe : encode text kind header payload =
      kind :: (toLeBytes json.length ++ (json ++ payload)) := by
    rw [encode, hjson, Nat.mod_eq_of_lt hcap]
    simp
  have hfield : slice (encode text kind header payload) 1 5 = some (toLeBytes json.length) := by
    rw [hframe]
    simpa using slice_append [kind] (toLeBytes json.length) (json ++ payload)
  have hheader : slice (encode text kind header payload) 5 (5 + json.length) = some json := by
    rw [hframe]
    simpa using slice_append (kind :: toLeBytes json.length) json payload
  have hpayload : sliceFrom (encode text kind header payload) (5 + json.length) = some payload := by
    rw [hframe]
    have hrest := sliceFrom_append (kind :: toLeBytes json.length ++ json) payload
    simp only [length_append, length_cons, toLeBytes, length_nil] at hrest
    simpa [toLeBytes] using hrest
  have hlong : (encode text kind header payload).length = 5 + json.length + payload.length := by
    rw [hframe]
    simp [toLeBytes]
    omega
  have hkind : (encode text kind header payload)[0]? = some kind := by rw [hframe]; rfl
  have hadd : addUsize 5 json.length = some (5 + json.length) :=
    if_pos (by omega)
  rw [decode, if_neg (by omega)]
  simp only [hkind, hfield, bind_eq_bind, bind_some, fromLeBytes_toLeBytes hcap,
    if_neg (Nat.not_lt.mpr hlength), hadd, hlong, hheader, hback, hobject, hpayload]
  rw [if_neg (by omega), if_pos trivial]

/-- No bytes make the decoder panic, and a decoded frame is a kind, a length, an object of that
length and the rest. -/
theorem decode_total (text : JsonBytes) (bytes : List UInt8) :
    ∃ result, decode text bytes = some result ∧ ∀ frame, result = some frame →
      ∃ field headerBytes, bytes = frame.kind :: field ++ headerBytes ++ frame.payload ∧
        field.length = 4 ∧ headerBytes.length = fromLeBytes field ∧
          text.read headerBytes = .ok frame.header := by
  unfold decode
  split
  · exact ⟨none, rfl, fun frame hframe => by cases hframe⟩
  next hlength =>
    obtain ⟨kind, rest, rfl⟩ : ∃ kind rest, bytes = kind :: rest := by
      cases bytes with
      | nil => simp at hlength
      | cons kind rest => exact ⟨kind, rest, rfl⟩
    have hfield : slice (kind :: rest) 1 5 = some (rest.take 4) :=
      if_pos ⟨by decide, by omega⟩
    simp only [hfield, getElem?_cons_zero, bind_eq_bind, bind_some]
    split
    · exact ⟨none, rfl, fun frame hframe => by cases hframe⟩
    next hcap =>
      have hadd : addUsize 5 (fromLeBytes (rest.take 4)) = some (5 + fromLeBytes (rest.take 4)) := by
        refine if_pos ?_
        rw [MAX_HEADER_BYTES] at hcap
        omega
      simp only [hadd, bind_some]
      split
      · exact ⟨none, rfl, fun frame hframe => by cases hframe⟩
      next hfits =>
        cases hslice : slice (kind :: rest) 5 (5 + fromLeBytes (rest.take 4)) with
        | none =>
          rw [slice, if_pos ⟨by omega, by omega⟩] at hslice
          cases hslice
        | some headerBytes =>
          obtain ⟨hbytes, hheader, -, hstop⟩ := eq_append_of_slice hslice
          simp only [bind_some]
          split
          · exact ⟨none, rfl, fun frame hframe => by cases hframe⟩
          next header hread =>
            split
            · rw [sliceFrom, if_pos hstop]
              refine ⟨_, rfl, fun frame hframe => ?_⟩
              cases hframe
              refine ⟨rest.take 4, headerBytes, hbytes, ?_, by omega, hread⟩
              rw [length_cons] at hlength
              rw [length_take]
              omega
            · exact ⟨none, rfl, fun frame hframe => by cases hframe⟩

/-- The codecs of both wires lose nothing and take any bytes. -/
theorem frames_lossless_and_total (text : JsonBytes) :
    (∀ (header : DeviceFrameHeader) (payload : List UInt8), text.ReadsBack header.toJson →
      (text.write header.toJson).length < 2 ^ 35 →
      decodeDeviceFrame text (encodeDeviceFrame text header payload) =
        some (.ok (header, payload))) ∧
    (∀ (kind : UInt8) (header : Json) (payload : List UInt8), text.ReadsBack header →
      header.isObject = true → (text.write header).length ≤ MAX_HEADER_BYTES →
      decode text (encode text kind header payload) = some (some ⟨kind, header, payload⟩)) ∧
    (∀ bytes, ∃ result, decodeDeviceFrame text bytes = some result ∧ ∀ header payload,
      result = .ok (header, payload) → ∃ number headerBytes,
        bytes = number ++ headerBytes ++ payload ∧ Uleb128.IsNumber number ∧
          headerBytes.length = Uleb128.value number ∧ readHeader text headerBytes = .ok header) ∧
    ∀ bytes, ∃ result, decode text bytes = some result ∧ ∀ frame, result = some frame →
      ∃ field headerBytes, bytes = frame.kind :: field ++ headerBytes ++ frame.payload ∧
        field.length = 4 ∧ headerBytes.length = fromLeBytes field ∧
          text.read headerBytes = .ok frame.header :=
  ⟨fun _ payload hback hlength => decodeDeviceFrame_encode payload hback hlength,
    fun kind _ payload hback hobject hlength => decode_encode kind payload hback hobject hlength,
    decodeDeviceFrame_total text, decode_total text⟩

def oneHeader : JsonBytes where
  write _ := [123, 125]
  read bytes := if bytes = [123, 125] then .ok (.object []) else .error "expected value"
  unfit _ := "missing field"

theorem frames_lossless_and_total_oneHeader :
    decode oneHeader (encode oneHeader 6 (.object []) [1, 2]) =
      some (some ⟨6, .object [], [1, 2]⟩) :=
  (frames_lossless_and_total oneHeader).2.1 6 (.object []) [1, 2] rfl rfl (by decide)

end ChatLemmas

end Wire

end Keel
