import Keel.Doc.RegistryQueue

/-! # The order of clocks as strings

Numbers of one width compare as their digits do, so an encoded clock compares like the
triple of its milliseconds, counter and device. The clock source moves up in the order of
pairs with every reading of the wall clock, whatever the wall clock does.
-/

namespace Keel

open List

section Decimal

theorem append_lt_append_iff {first second rest others : List Char}
    (hlength : first.length = second.length) :
    first ++ rest < second ++ others ↔ first < second ∨ first = second ∧ rest < others := by
  induction first generalizing second with
  | nil =>
    cases second with
    | nil => simp
    | cons head tail => cases hlength
  | cons head tail ih =>
    cases second with
    | nil => cases hlength
    | cons other others' =>
      have htail := ih (Nat.succ.inj hlength)
      rw [cons_append, cons_append, cons_lt_cons_iff, htail,
        cons_lt_cons_iff, List.cons.injEq]
      tauto

def digitValue (digit : Char) : Nat := digit.toNat - '0'.toNat

theorem digitValue_lt {digit : Char} (hdigit : digit.isDigit) : digitValue digit < 10 := by
  rw [Char.isDigit_iff_toNat] at hdigit
  simp only [digitValue]
  have h9 : '9'.toNat = 57 := rfl
  have h0 : '0'.toNat = 48 := rfl
  omega

theorem digit_lt_iff {first second : Char} (hfirst : first.isDigit) (hsecond : second.isDigit) :
    first < second ↔ digitValue first < digitValue second := by
  rw [Char.isDigit_iff_toNat] at hfirst hsecond
  have hlt : first < second ↔ first.toNat < second.toNat := Iff.rfl
  have hzero : '0'.toNat = 48 := rfl
  rw [hlt]
  simp only [digitValue]
  omega

theorem ofDigitChars_cons_zero (digit : Char) (digits : List Char) :
    Nat.ofDigitChars 10 (digit :: digits) 0 =
      10 ^ digits.length * digitValue digit + Nat.ofDigitChars 10 digits 0 := by
  rw [Nat.ofDigitChars_cons, Nat.ofDigitChars_eq_ofDigitChars_zero, Nat.mul_zero, Nat.zero_add]
  rfl

theorem ofDigitChars_lt {digits : List Char} (hdigits : ∀ digit ∈ digits, digit.isDigit) :
    Nat.ofDigitChars 10 digits 0 < 10 ^ digits.length := by
  induction digits with
  | nil => simp
  | cons digit rest ih =>
    have hvalue := digitValue_lt (hdigits digit mem_cons_self)
    have hrest := ih fun other hother => hdigits other (mem_cons_of_mem _ hother)
    rw [ofDigitChars_cons_zero, length_cons, Nat.pow_succ]
    calc 10 ^ rest.length * digitValue digit + Nat.ofDigitChars 10 rest 0
        < 10 ^ rest.length * digitValue digit + 10 ^ rest.length := Nat.add_lt_add_left hrest _
      _ = 10 ^ rest.length * (digitValue digit + 1) := (Nat.mul_succ _ _).symm
      _ ≤ 10 ^ rest.length * 10 := Nat.mul_le_mul_left _ hvalue

theorem digits_lt_iff {first second : List Char} (hlength : first.length = second.length)
    (hfirst : ∀ digit ∈ first, digit.isDigit) (hsecond : ∀ digit ∈ second, digit.isDigit) :
    first < second ↔ Nat.ofDigitChars 10 first 0 < Nat.ofDigitChars 10 second 0 := by
  induction first generalizing second with
  | nil =>
    cases second with
    | nil => simp
    | cons digit rest => cases hlength
  | cons digit rest ih =>
    cases second with
    | nil => cases hlength
    | cons other others =>
      have hrests : rest.length = others.length := Nat.succ.inj hlength
      have hrest := fun c hc => hfirst c (mem_cons_of_mem _ hc)
      have hothers := fun c hc => hsecond c (mem_cons_of_mem _ hc)
      have hdigit := hfirst digit mem_cons_self
      have hother := hsecond other mem_cons_self
      have hlow := ofDigitChars_lt hrest
      have hhigh := ofDigitChars_lt hothers
      rw [cons_lt_cons_iff, ih hrests hrest hothers, ofDigitChars_cons_zero,
        ofDigitChars_cons_zero, digit_lt_iff hdigit hother, hrests]
      rw [hrests] at hlow
      constructor
      · rintro (hlt | ⟨rfl, hlt⟩)
        · calc 10 ^ others.length * digitValue digit + Nat.ofDigitChars 10 rest 0
              < 10 ^ others.length * digitValue digit + 10 ^ others.length :=
                Nat.add_lt_add_left hlow _
            _ = 10 ^ others.length * (digitValue digit + 1) := (Nat.mul_succ _ _).symm
            _ ≤ 10 ^ others.length * digitValue other := Nat.mul_le_mul_left _ hlt
            _ ≤ _ := Nat.le_add_right _ _
        · exact Nat.add_lt_add_left hlt _
      · intro hlt
        rcases Nat.lt_trichotomy (digitValue digit) (digitValue other) with hless | heq | hmore
        · exact .inl hless
        · refine .inr ⟨?_, ?_⟩
          · have hnone : ¬ digit < other := by rw [digit_lt_iff hdigit hother, heq]; exact lt_irrefl _
            have hnone' : ¬ other < digit := by rw [digit_lt_iff hother hdigit, heq]; exact lt_irrefl _
            exact le_antisymm (not_lt.mp hnone') (not_lt.mp hnone)
          · rw [heq] at hlt
            exact Nat.lt_of_add_lt_add_left hlt
        · refine absurd hlt (not_lt.mpr ?_)
          calc 10 ^ others.length * digitValue other + Nat.ofDigitChars 10 others 0
              ≤ 10 ^ others.length * digitValue other + 10 ^ others.length :=
                Nat.add_le_add_left (le_of_lt hhigh) _
            _ = 10 ^ others.length * (digitValue other + 1) := (Nat.mul_succ _ _).symm
            _ ≤ 10 ^ others.length * digitValue digit := Nat.mul_le_mul_left _ hmore
            _ ≤ _ := Nat.le_add_right _ _

theorem zeroPadded_digits {width value : Nat} (hwidth : 0 < width) (hfits : value < 10 ^ width) :
    (zeroPadded width (value : Int)).toList.length = width ∧
      (∀ digit ∈ (zeroPadded width (value : Int)).toList, digit.isDigit) ∧
      Nat.ofDigitChars 10 (zeroPadded width (value : Int)).toList 0 = value := by
  have hdigits := (Nat.length_toDigits_le_iff (by decide : 1 < 10) hwidth).mpr hfits
  have htext : (zeroPadded width (value : Int)).toList =
      List.replicate (width - (Nat.toDigits 10 value).length) '0' ++ Nat.toDigits 10 value := by
    have hsign : ¬((value : Int) < 0) := by omega
    have hlength : value.repr.length = (Nat.toDigits 10 value).length := by
      rw [← String.length_toList, Nat.toList_repr]
    simp [zeroPadded, hsign, String.toList_append, toList_pushn, hlength]
  rw [htext]
  refine ⟨?_, ?_, ?_⟩
  · rw [length_append, length_replicate]
    omega
  · intro digit hmem
    cases mem_append.mp hmem with
    | inl hzero => rw [eq_of_mem_replicate hzero]; decide
    | inr hdigit => exact Nat.isDigit_of_mem_toDigits (by decide) (by decide) hdigit
  · rw [Nat.ofDigitChars_append, Nat.ofDigitChars_replicate_zero, Nat.mul_zero,
      Nat.ofDigitChars_ten_toDigits]

theorem zeroPadded_lt_iff {width first second : Nat} (hwidth : 0 < width)
    (hfirst : first < 10 ^ width) (hsecond : second < 10 ^ width) :
    (zeroPadded width (first : Int)).toList < (zeroPadded width (second : Int)).toList ↔
      first < second := by
  obtain ⟨hlength, hdigits, hvalue⟩ := zeroPadded_digits hwidth hfirst
  obtain ⟨hlength', hdigits', hvalue'⟩ := zeroPadded_digits hwidth hsecond
  rw [digits_lt_iff (hlength.trans hlength'.symm) hdigits hdigits', hvalue, hvalue']

end Decimal

section Encoded

def hlcKey (ms : Int) (counter : Nat) (device : String) : Int ×ₗ (Nat ×ₗ String) :=
  toLex (ms, toLex (counter, device))

theorem encodeHlc_lt_iff {ms otherMs : Int} {counter otherCounter : Nat} (device other : String)
    (hms : 0 ≤ ms ∧ ms < 10 ^ 13) (hotherMs : 0 ≤ otherMs ∧ otherMs < 10 ^ 13)
    (hcounter : counter ≤ 999999) (hotherCounter : otherCounter ≤ 999999) :
    encodeHlc ms counter device < encodeHlc otherMs otherCounter other ↔
      hlcKey ms counter device < hlcKey otherMs otherCounter other := by
  obtain ⟨first, rfl⟩ := Int.eq_ofNat_of_zero_le hms.1
  obtain ⟨second, rfl⟩ := Int.eq_ofNat_of_zero_le hotherMs.1
  have hfirst : first < 10 ^ 13 := by exact_mod_cast hms.2
  have hsecond : second < 10 ^ 13 := by exact_mod_cast hotherMs.2
  have hcount : counter < 10 ^ 6 := by omega
  have hotherCount : otherCounter < 10 ^ 6 := by omega
  have hdash : "-".toList = ['-'] := by simp
  -- both texts are the padded numbers, each with a dash behind it, and the device
  have htext : ∀ (ms counter : Nat) (device : String), (encodeHlc ms counter device).toList =
      (zeroPadded 13 (ms : Int)).toList ++
        ('-' :: ((zeroPadded 6 (counter : Int)).toList ++ ('-' :: device.toList))) := by
    intro ms counter device
    simp only [encodeHlc, String.toList_append, append_assoc, hdash, cons_append,
      nil_append]
  obtain ⟨hlength, -, hvalue⟩ := zeroPadded_digits (by decide : 0 < 13) hfirst
  obtain ⟨hlength', -, hvalue'⟩ := zeroPadded_digits (by decide : 0 < 13) hsecond
  obtain ⟨hwidth, -, hnumber⟩ := zeroPadded_digits (by decide : 0 < 6) hcount
  obtain ⟨hwidth', -, hnumber'⟩ := zeroPadded_digits (by decide : 0 < 6) hotherCount
  have heq : (zeroPadded 13 (first : Int)).toList = (zeroPadded 13 (second : Int)).toList ↔
      first = second :=
    ⟨fun h => by rw [← hvalue, h, hvalue'], fun h => by rw [h]⟩
  have heqCounter : (zeroPadded 6 (counter : Int)).toList =
      (zeroPadded 6 (otherCounter : Int)).toList ↔ counter = otherCounter :=
    ⟨fun h => by rw [← hnumber, h, hnumber'], fun h => by rw [h]⟩
  rw [String.lt_iff_toList_lt, htext, htext, append_lt_append_iff (hlength.trans hlength'.symm),
    cons_lt_cons_iff, append_lt_append_iff (hwidth.trans hwidth'.symm),
    cons_lt_cons_iff, zeroPadded_lt_iff (by decide) hfirst hsecond,
    zeroPadded_lt_iff (by decide) hcount hotherCount, heq, heqCounter, ← String.lt_iff_toList_lt]
  have hless : ¬ '-' < '-' := by decide
  simp only [hlcKey, Prod.Lex.toLex_lt_toLex, Int.ofNat_lt, Int.ofNat_inj, hless, false_or, true_and]

end Encoded

namespace HlcClock

/-- The successive clocks of one device under the readings of its wall clock. -/
def stamps (device : String) : HlcClock → List Int → List String
  | _, [] => []
  | clock, now :: rest => (clock.next now device).2 :: stamps device (clock.next now device).1 rest

def after (device : String) : HlcClock → List Int → HlcClock
  | clock, [] => clock
  | clock, now :: rest => after device (clock.next now device).1 rest

variable {device : String} {clock : HlcClock}

theorem counter_next_le (clock : HlcClock) (now : Int) (device : String) :
    (clock.next now device).1.counter ≤ 999999 := by
  simp only [next]
  split
  · exact Nat.zero_le _
  · split
    · exact Nat.zero_le _
    · next hwrap => exact not_lt.mp hwrap

theorem lastMs_next_nonneg (clock : HlcClock) {now : Int} (hnow : 0 ≤ now) (device : String) :
    0 ≤ (clock.next now device).1.lastMs := by
  simp only [next]
  split
  · exact hnow
  · next hbehind =>
      have hlast := hnow.trans (not_lt.mp hbehind)
      split
      · exact hlast.trans (le_of_lt (Int.lt_succ _))
      · exact hlast

theorem lastMs_le_after (device : String) (clock : HlcClock) (readings : List Int) :
    clock.lastMs ≤ (clock.after device readings).lastMs := by
  induction readings generalizing clock with
  | nil => exact le_refl _
  | cons now rest ih => exact (clock.lastMs_le_next now device).trans (ih _)

theorem mem_stamps {readings : List Int} {hlc : String} (hmem : hlc ∈ clock.stamps device readings)
    (hreadings : ∀ now ∈ readings, 0 ≤ now) :
    ∃ minted : HlcClock, clock.key < minted.key ∧ 0 ≤ minted.lastMs ∧
      minted.lastMs ≤ (clock.after device readings).lastMs ∧ minted.counter ≤ 999999 ∧
      hlc = encodeHlc minted.lastMs minted.counter device := by
  induction readings generalizing clock with
  | nil => cases hmem
  | cons now rest ih =>
    have hnext := clock.counter_next_le now device
    cases mem_cons.mp hmem with
    | inl hhead =>
      refine ⟨(clock.next now device).1, clock.key_lt_next now device,
        clock.lastMs_next_nonneg (hreadings now mem_cons_self) device,
        lastMs_le_after device _ rest, hnext, hhead⟩
    | inr hrest =>
      obtain ⟨minted, hkey, hms, hlast, hminted, hhlc⟩ :=
        ih hrest fun later hlater => hreadings later (mem_cons_of_mem _ hlater)
      exact ⟨minted, (clock.key_lt_next now device).trans hkey, hms, hlast, hminted, hhlc⟩

theorem pairwise_stamps {readings : List Int} (hreadings : ∀ now ∈ readings, 0 ≤ now)
    (hlast : (clock.after device readings).lastMs < 10 ^ 13) :
    (clock.stamps device readings).Pairwise (· < ·) := by
  induction readings generalizing clock with
  | nil => exact .nil
  | cons now rest ih =>
    have hnext := clock.counter_next_le now device
    have hrest : ∀ later ∈ rest, 0 ≤ later := fun later hlater =>
      hreadings later (mem_cons_of_mem _ hlater)
    refine .cons ?_ (ih hrest hlast)
    intro hlc hmem
    obtain ⟨minted, hkey, hms, hminted, hcount, rfl⟩ := mem_stamps hmem hrest
    have hfirst := clock.lastMs_next_nonneg (hreadings now mem_cons_self) device
    have hfits := (lastMs_le_after device (clock.next now device).1 rest).trans_lt hlast
    rw [next_snd, encodeHlc_lt_iff device device ⟨hfirst, hfits⟩
      ⟨hms, hminted.trans_lt hlast⟩ hnext hcount]
    simp only [key, Prod.Lex.toLex_lt_toLex] at hkey
    simp only [hlcKey, Prod.Lex.toLex_lt_toLex, lt_irrefl, and_false, or_false]
    exact hkey

end HlcClock

/-- The clocks that one device mints increase as strings, whatever its wall clock reads, and
encoded clocks compare as their milliseconds, counter and device. -/
theorem hlc_order :
    (∀ (device : String) (clock : HlcClock) (readings : List Int),
      clock.lastMs < 10 ^ 13 - 1 → clock.counter ≤ 999999 →
      (∀ now ∈ readings, 0 ≤ now ∧ now < 10 ^ 13) →
      (clock.after device readings).lastMs < 10 ^ 13 →
      (clock.stamps device readings).Pairwise (· < ·)) ∧
    ∀ (ms otherMs : Int) (counter otherCounter : Nat) (device other : String),
      0 ≤ ms ∧ ms < 10 ^ 13 → 0 ≤ otherMs ∧ otherMs < 10 ^ 13 →
      counter ≤ 999999 → otherCounter ≤ 999999 →
      (encodeHlc ms counter device < encodeHlc otherMs otherCounter other ↔
        hlcKey ms counter device < hlcKey otherMs otherCounter other) := by
  refine ⟨?_, ?_⟩
  · intro device clock readings _ _ hreadings hlast
    exact HlcClock.pairwise_stamps (fun now hmem => (hreadings now hmem).1) hlast
  · intro ms otherMs counter otherCounter device other hms hotherMs hcounter hotherCounter
    exact encodeHlc_lt_iff device other hms hotherMs hcounter hotherCounter

/-- At a full counter the clock moves on to the next millisecond. -/
theorem hlc_order_wrap :
    (HlcClock.stamps "d" ⟨1000, 999999⟩ [500, 1000]).Pairwise (· < ·) :=
  hlc_order.1 "d" ⟨1000, 999999⟩ [500, 1000] (by decide) (by decide) (by decide) (by decide)

end Keel
