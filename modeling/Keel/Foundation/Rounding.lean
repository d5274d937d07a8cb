import Mathlib.Data.Nat.Log
import Mathlib.Tactic.Common
import Mathlib.Tactic.Ring

/-! # Rounding integers to a binary significand

An integer is rounded to the nearest one with a significand of a given number of bits, a tie to
the even significand. The integers that rounding keeps are exactly those that have such a
significand.
-/

namespace Rounding

/-- The number has a significand of so many bits. -/
def Representable (precision number : Nat) : Prop :=
  ∃ significand exponent, significand < 2 ^ precision ∧ number = significand * 2 ^ exponent

/-- The distance between neighbours around a number. -/
def unit (precision number : Nat) : Nat := 2 ^ (number.log2 + 1 - precision)

def roundNat (precision number : Nat) : Nat :=
  let quotient := number / unit precision number
  let rest := number % unit precision number
  if 2 * rest < unit precision number ∨ (2 * rest = unit precision number ∧ quotient % 2 = 0) then
    quotient * unit precision number
  else (quotient + 1) * unit precision number

def roundInt (precision : Nat) (number : Int) : Int :=
  if number < 0 then -roundNat precision number.natAbs else roundNat precision number.natAbs

variable {precision number : Nat}

theorem unit_pos (precision number : Nat) : 0 < unit precision number := Nat.two_pow_pos _

theorem div_unit_lt (precision number : Nat) :
    number / unit precision number < 2 ^ precision := by
  rw [Nat.div_lt_iff_lt_mul (unit_pos precision number), unit, ← Nat.pow_add]
  calc
    number < 2 ^ (number.log2 + 1) := Nat.lt_log2_self
    _ ≤ 2 ^ (precision + (number.log2 + 1 - precision)) :=
      Nat.pow_le_pow_right Nat.two_pos (by omega)

theorem representable_roundNat (hprecision : 0 < precision) (number : Nat) :
    Representable precision (roundNat precision number) := by
  have hquotient := div_unit_lt precision number
  rw [roundNat]
  split
  · exact ⟨_, _, hquotient, rfl⟩
  · by_cases hcarry : number / unit precision number + 1 < 2 ^ precision
    · exact ⟨_, _, hcarry, rfl⟩
    · have hfull : number / unit precision number + 1 = 2 ^ precision := by omega
      have hone := Nat.one_lt_two_pow hprecision.ne'
      refine ⟨1, precision + (number.log2 + 1 - precision), hone, ?_⟩
      rw [hfull, unit, Nat.pow_add, Nat.one_mul]

theorem unit_dvd (hnumber : Representable precision number) : unit precision number ∣ number := by
  obtain ⟨significand, exponent, hsignificand, rfl⟩ := hnumber
  by_cases hzero : significand * 2 ^ exponent = 0
  · rw [hzero]
    exact Nat.dvd_zero _
  · have hbound : significand * 2 ^ exponent < 2 ^ (precision + exponent) := by
      rw [Nat.pow_add]
      exact Nat.mul_lt_mul_of_pos_right hsignificand (Nat.two_pow_pos _)
    have hlog := (Nat.log2_lt hzero).mpr hbound
    exact Nat.dvd_mul_left_of_dvd (Nat.pow_dvd_pow 2 (by omega)) _

theorem roundNat_eq_self (hprecision : 0 < precision) :
    roundNat precision number = number ↔ Representable precision number := by
  constructor
  · intro hround
    exact hround ▸ representable_roundNat hprecision number
  · intro hnumber
    have hexact := unit_dvd hnumber
    have hrest : number % unit precision number = 0 := Nat.mod_eq_zero_of_dvd hexact
    have hpos := unit_pos precision number
    rw [roundNat, if_pos (.inl (by omega)), Nat.div_mul_cancel hexact]

theorem roundInt_eq_self (hprecision : 0 < precision) {number : Int} :
    roundInt precision number = number ↔ Representable precision number.natAbs := by
  rw [← roundNat_eq_self hprecision, roundInt]
  split <;> omega

theorem natAbs_roundInt (precision : Nat) (number : Int) :
    (roundInt precision number).natAbs = roundNat precision number.natAbs := by
  rw [roundInt]
  split <;> omega

end Rounding
