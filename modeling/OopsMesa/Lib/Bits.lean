/-
  Sets of small numbers, in the bits of a word.

  A number is in the set of a word if its bit is set. `w ||| 1 <<< i` adds one, and
  `w &&& 1 <<< i` is not zero where it is in. Nothing here names a system.
-/
import Mathlib.Algebra.Group.Nat.Defs

namespace OopsMesa.Lib

/-- `i` is in the set of `w`. -/
def HasBit (w : UInt64) (i : Nat) : Prop := w.toNat.testBit i = true

section Bits

variable {w i : UInt64} {j : Nat}

theorem not_hasBit_zero : ¬ HasBit 0 j := by
  unfold HasBit
  rw [UInt64.toNat_zero, Nat.zero_testBit]
  exact Bool.false_ne_true

theorem bit_toNat (hi : i < 64) : ((1 : UInt64) <<< i).toNat = 2 ^ i.toNat := by
  have hlt : i.toNat < 64 := UInt64.lt_iff_toNat_lt.mp hi
  have hpow : 2 ^ i.toNat < 2 ^ 64 := Nat.pow_lt_pow_right (by decide) hlt
  rw [UInt64.toNat_shiftLeft, UInt64.toNat_one, Nat.mod_eq_of_lt hlt, Nat.one_shiftLeft,
    Nat.mod_eq_of_lt hpow]

theorem and_bit_ne_zero_iff (hi : i < 64) : w &&& 1 <<< i ≠ 0 ↔ HasBit w i.toNat := by
  have hbit : w &&& 1 <<< i = 0 ↔ w.toNat &&& 2 ^ i.toNat = 0 := by
    rw [← UInt64.toNat_inj, UInt64.toNat_and, bit_toNat hi, UInt64.toNat_zero]
  unfold HasBit
  rw [Ne, hbit]
  constructor
  · intro hne
    cases hset : w.toNat.testBit i.toNat with
    | true => rfl
    | false =>
      refine absurd (Nat.eq_of_testBit_eq fun j => ?_) hne
      rw [Nat.testBit_and, Nat.testBit_two_pow, Nat.zero_testBit]
      by_cases hj : i.toNat = j
      · rw [← hj, hset, Bool.false_and]
      · rw [decide_eq_false hj, Bool.and_false]
  · intro hset hzero
    have h : (w.toNat &&& 2 ^ i.toNat).testBit i.toNat = true := by
      rw [Nat.testBit_and, hset, Nat.testBit_two_pow_self]
      rfl
    rw [hzero, Nat.zero_testBit] at h
    cases h

theorem hasBit_or_bit (hi : i < 64) : HasBit (w ||| 1 <<< i) j ↔ HasBit w j ∨ i.toNat = j := by
  unfold HasBit
  rw [UInt64.toNat_or, Nat.testBit_or, bit_toNat hi, Nat.testBit_two_pow, Bool.or_eq_true,
    decide_eq_true_iff]

end Bits

end OopsMesa.Lib
