/-
  Hashing by exclusive or and multiplication.

  Each byte is taken into the low end of a word, which is then multiplied. Where the multiplier
  has an inverse nothing is lost: after the same bytes two words are equal only if they were before
  (`xorMulAll_inj`). How far apart two words come in one step is bounded by the bytes
  (`xorMul_diff`). Nothing here names a system.
-/
import Mathlib.Data.Nat.Bitwise
import Mathlib.Tactic.Linarith
import Mathlib.Tactic.Ring

namespace OopsMesa.Lib

variable {mult inv h x y : UInt64} {a b : UInt8} {s t : List UInt8}

def xorMul (mult h : UInt64) (b : UInt8) : UInt64 := (h ^^^ b.toUInt64) * mult

def xorMulAll (mult h : UInt64) (bs : List UInt8) : UInt64 := bs.foldl (xorMul mult) h

theorem xorMulAll_append : xorMulAll mult h (s ++ t) = xorMulAll mult (xorMulAll mult h s) t :=
  List.foldl_append

/-- Multiplication by what has an inverse. -/
theorem mul_inj (hinv : mult * inv = 1) (heq : x * mult = y * mult) : x = y := by
  have hback : x * mult * inv = y * mult * inv := congrArg (· * inv) heq
  rwa [UInt64.mul_assoc, UInt64.mul_assoc, hinv, UInt64.mul_one, UInt64.mul_one] at hback

theorem xor_inj {k : UInt64} (heq : x ^^^ k = y ^^^ k) : x = y := by
  have hback : x ^^^ k ^^^ k = y ^^^ k ^^^ k := congrArg (· ^^^ k) heq
  rwa [UInt64.xor_assoc, UInt64.xor_assoc, UInt64.xor_self, UInt64.xor_zero, UInt64.xor_zero]
    at hback

/-- The same bytes take different words to different ones. -/
theorem xorMulAll_inj (hinv : mult * inv = 1) (heq : xorMulAll mult x s = xorMulAll mult y s) :
    x = y := by
  induction s generalizing x y with
  | nil => exact heq
  | cons b s ih => exact xor_inj (mul_inj hinv (ih heq))

/-! ## The low byte -/

/-- The exclusive or with a byte changes the low byte only. -/
theorem xor_byte_div (h : UInt64) (b : UInt8) : (h ^^^ b.toUInt64).toNat / 256 = h.toNat / 256 := by
  have hb : b.toNat / 2 ^ 8 = 0 := Nat.div_eq_of_lt b.toNat_lt
  have hdiv := Nat.xor_div_two_pow (a := h.toNat) (b := b.toNat) (n := 8)
  rw [hb, Nat.xor_zero] at hdiv
  rw [UInt64.toNat_xor, UInt8.toNat_toUInt64]
  exact hdiv

/-- Bytes are told apart by what they make of a word. -/
theorem xor_byte_inj (heq : h ^^^ a.toUInt64 = h ^^^ b.toUInt64) : a = b := by
  rw [UInt64.xor_comm h, UInt64.xor_comm h] at heq
  have hbyte := congrArg UInt64.toNat (xor_inj heq)
  rw [UInt8.toNat_toUInt64, UInt8.toNat_toUInt64] at hbyte
  exact UInt8.toNat_inj.mp hbyte

/-- How far apart two words are after a byte each: by a multiple of how far they were, give or take
    what the bytes make of their low ends. -/
theorem xorMul_diff (mult x y : UInt64) (a b : UInt8) : ∃ e k : ℤ, -510 ≤ e ∧ e ≤ 510 ∧
    ((xorMul mult x a).toNat : ℤ) - (xorMul mult y b).toNat =
      (x.toNat - y.toNat + e) * mult.toNat - 2 ^ 64 * k ∧
    (x = y → -255 ≤ e ∧ e ≤ 255 ∧ (e = 0 → a = b)) := by
  have hx := xor_byte_div x a
  have hy := xor_byte_div y b
  have hmod (z : UInt64) : ∃ k : ℤ,
      ((z * mult).toNat : ℤ) = z.toNat * mult.toNat - 2 ^ 64 * k := by
    have hdiv : ((z.toNat * mult.toNat % 2 ^ 64 : ℕ) : ℤ) +
        2 ^ 64 * (z.toNat * mult.toNat / 2 ^ 64 : ℕ) = z.toNat * mult.toNat := by
      exact_mod_cast Nat.mod_add_div (z.toNat * mult.toNat) (2 ^ 64)
    refine ⟨(z.toNat * mult.toNat / 2 ^ 64 : ℕ), ?_⟩
    rw [UInt64.toNat_mul]
    linarith
  obtain ⟨k, hk⟩ := hmod (x ^^^ a.toUInt64)
  obtain ⟨l, hl⟩ := hmod (y ^^^ b.toUInt64)
  refine ⟨(x ^^^ a.toUInt64).toNat - (y ^^^ b.toUInt64).toNat - (x.toNat - y.toNat), k - l,
    by omega, by omega, ?_, ?_⟩
  · unfold xorMul
    rw [hk, hl]
    ring
  · rintro rfl
    refine ⟨by omega, by omega, fun he => ?_⟩
    have hsame : (x ^^^ a.toUInt64).toNat = (x ^^^ b.toUInt64).toNat := by omega
    exact xor_byte_inj (UInt64.toNat_inj.mp hsame)

/-- Words that a byte each makes equal are no further apart than bytes are. -/
theorem xorMul_close (hinv : mult * inv = 1) (heq : xorMul mult x a = xorMul mult y b) :
    -255 ≤ (x.toNat : ℤ) - y.toNat ∧ (x.toNat : ℤ) - y.toNat ≤ 255 := by
  have hx := xor_byte_div x a
  have hy := xor_byte_div y b
  rw [mul_inj hinv heq] at hx
  omega

end OopsMesa.Lib
