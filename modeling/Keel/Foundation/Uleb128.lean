import Mathlib.Data.Nat.Bitwise
import Mathlib.Tactic.Common

/-! # Numbers in seven-bit groups

An unsigned number as bytes of seven bits each, the lowest first. Every byte but the last has
its highest bit set, so a reader finds the end of a number without knowing its length.
-/

namespace Uleb128

/-- The number that a list of groups stands for. -/
def value : List UInt8 → Nat
  | [] => 0
  | byte :: rest => byte.toNat % 128 + 128 * value rest

/-- Every byte but the last says that another one follows. -/
def IsNumber : List UInt8 → Prop
  | [] => False
  | [byte] => byte.toNat < 128
  | byte :: rest => 128 ≤ byte.toNat ∧ IsNumber rest

theorem isNumber_singleton {byte : UInt8} : IsNumber [byte] ↔ byte.toNat < 128 := Iff.rfl

theorem isNumber_cons {byte : UInt8} {rest : List UInt8} (hrest : IsNumber rest) :
    IsNumber (byte :: rest) ↔ 128 ≤ byte.toNat := by
  cases rest with
  | nil => exact hrest.elim
  | cons next rest => exact and_iff_left hrest

/-- The groups of a number, one byte for each seven bits. -/
def groups (n : Nat) : List UInt8 :=
  let byte := (n &&& 0x7f).toUInt8
  if n >>> 7 ≠ 0 then (byte ||| 0x80) :: groups (n >>> 7) else [byte]
termination_by n
decreasing_by
  rw [Nat.shiftRight_eq_div_pow] at *
  omega

theorem toNat_low (n : Nat) : (n &&& 0x7f).toUInt8.toNat = n % 128 := by
  rw [Nat.toUInt8_eq, UInt8.toNat_ofNat', Nat.and_two_pow_sub_one_eq_mod n 7]
  omega

theorem toNat_or {byte : UInt8} (hbyte : byte.toNat < 128) :
    (byte ||| 0x80).toNat = byte.toNat + 128 := by
  rw [UInt8.toNat_or, Nat.or_comm]
  have hor := Nat.two_pow_add_eq_or_of_lt (i := 7) hbyte 1
  simp only [Nat.reducePow, Nat.mul_one] at hor
  exact hor.symm.trans (Nat.add_comm 128 byte.toNat)

theorem toNat_and (byte : UInt8) : (byte &&& 0x7f).toNat = byte.toNat % 128 := by
  rw [UInt8.toNat_and]
  exact Nat.and_two_pow_sub_one_eq_mod byte.toNat 7

theorem and_eq_zero_iff (byte : UInt8) : byte &&& 0x80 = 0 ↔ byte.toNat < 128 := by
  have hlt := byte.toNat_lt
  rw [← UInt8.toNat_inj, UInt8.toNat_and, show (0x80 : UInt8).toNat = 2 ^ 7 from rfl,
    Nat.and_two_pow, Nat.testBit_eq_decide_div_mod_eq]
  by_cases hbit : byte.toNat / 2 ^ 7 % 2 = 1
  · simp only [hbit, decide_true, Bool.toNat_true, UInt8.toNat_zero]
    omega
  · simp only [hbit, decide_false, Bool.toNat_false, UInt8.toNat_zero]
    omega

theorem groups_eq (n : Nat) : groups n =
    if n < 128 then [(n &&& 0x7f).toUInt8]
    else ((n &&& 0x7f).toUInt8 ||| 0x80) :: groups (n / 128) := by
  rw [groups, Nat.shiftRight_eq_div_pow]
  by_cases hn : n < 128
  · rw [if_pos hn, if_neg (by simp; omega)]
  · rw [if_neg hn, if_pos (by simp; omega)]

theorem isNumber_groups (n : Nat) : IsNumber (groups n) := by
  induction n using Nat.strongRecOn with
  | ind n ih =>
    rw [groups_eq]
    split
    next hn => exact isNumber_singleton.2 (by rw [toNat_low]; omega)
    next hn =>
      refine (isNumber_cons (ih (n / 128) (by omega))).2 ?_
      rw [toNat_or (by rw [toNat_low]; omega)]
      omega

@[simp] theorem value_groups (n : Nat) : value (groups n) = n := by
  induction n using Nat.strongRecOn with
  | ind n ih =>
    rw [groups_eq]
    split
    next hn =>
      rw [value, value, toNat_low]
      omega
    next hn =>
      rw [value, ih (n / 128) (by omega), toNat_or (by rw [toNat_low]; omega), toNat_low]
      omega

theorem length_groups_le {k n : Nat} (hn : n < 2 ^ (7 * (k + 1))) : (groups n).length ≤ k + 1 := by
  induction k generalizing n with
  | zero =>
    rw [groups_eq, if_pos (by simpa using hn)]
    rfl
  | succ k ih =>
    rw [groups_eq]
    split
    · simp
    · refine Nat.succ_le_succ (ih ?_)
      rw [Nat.div_lt_iff_lt_mul (by decide)]
      calc n < 2 ^ (7 * (k + 1 + 1)) := hn
        _ = 2 ^ (7 * (k + 1)) * 128 := by rw [Nat.mul_succ 7, pow_add]; rfl

theorem or_shiftLeft {low shift group : Nat} (hlow : low < 2 ^ shift) :
    low ||| group <<< shift = low + 2 ^ shift * group := by
  rw [Nat.shiftLeft_eq, Nat.mul_comm group, Nat.or_comm,
    ← Nat.two_pow_add_eq_or_of_lt hlow group, Nat.add_comm]

end Uleb128
