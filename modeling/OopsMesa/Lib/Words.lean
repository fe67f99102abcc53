/-
  Sizes and offsets in 64-bit words.

  `(n + a - 1) & ~(a - 1)`, for a power of two `a`, is the least multiple of `a` that is `n` or
  more, unless there is none below 2^64; then it is 0 (`roundUp_isLeast`, `roundUp_wraps`). And
  of the two ways to ask whether `bytes` from `off` on end within `size`, `bytes > size - off` is
  exact where `off` is within (`le_sub_iff`), while `off + bytes > size` is so only where the sum
  does not wrap (`add_le_iff`).
-/
import Mathlib.Algebra.Group.Nat.Defs
import Mathlib.Order.Bounds.Basic

namespace OopsMesa.Lib

variable {x n a off bytes size : UInt64} {k : Nat}

/-! ## Rounding up -/

/-- The bits of a mask cleared. -/
theorem and_not_toNat {mask : UInt64} (hmask : mask.toNat = 2 ^ k - 1) :
    (x &&& ~~~mask).toNat = x.toNat / 2 ^ k * 2 ^ k := by
  have hm : mask.toNat < 2 ^ 64 := mask.toNat_lt
  apply Nat.eq_of_testBit_eq
  intro i
  have hnot : (~~~mask).toNat = 2 ^ 64 - (mask.toNat + 1) := by
    have hsize : UInt64.size = 2 ^ 64 := rfl
    rw [UInt64.toNat_not, hsize]
    omega
  rw [UInt64.toNat_and, Nat.testBit_and, hnot, Nat.testBit_two_pow_sub_succ hm, hmask,
    Nat.testBit_two_pow_sub_one, Nat.testBit_mul_two_pow, Nat.testBit_div_two_pow]
  rcases Nat.lt_or_ge i k with hi | hi
  · simp [hi, Nat.not_le.mpr hi]
  · rw [Nat.sub_add_cancel hi]
    rcases Nat.lt_or_ge i 64 with hi' | hi'
    · simp [hi, hi', Nat.not_lt.mpr hi]
    · have hx : x.toNat.testBit i = false := Nat.testBit_lt_two_pow
        (Nat.lt_of_lt_of_le x.toNat_lt (Nat.pow_le_pow_right (by decide) hi'))
      simp [hx]

/-- What the mask is applied to. -/
theorem add_sub_one_toNat (ha : a.toNat = 2 ^ k) :
    (a - 1).toNat = 2 ^ k - 1 ∧ (n + a - 1).toNat = (n.toNat + (a.toNat - 1)) % 2 ^ 64 := by
  have h1 : (1 : UInt64) ≤ a := by
    rw [UInt64.le_iff_toNat_le, ha]
    exact Nat.two_pow_pos k
  have hmask : (a - 1).toNat = a.toNat - 1 := UInt64.toNat_sub_of_le _ _ h1
  refine ⟨by rw [hmask, ha], ?_⟩
  have hassoc : n + a - 1 = n + (a - 1) := by
    rw [UInt64.sub_eq_add_neg, UInt64.add_assoc, ← UInt64.sub_eq_add_neg]
  rw [hassoc, UInt64.toNat_add, hmask]

/-- The value of the rounding, where nothing wraps. -/
theorem roundUp_toNat (ha : a.toNat = 2 ^ k) (h : n.toNat + (a.toNat - 1) < 2 ^ 64) :
    ((n + a - 1) &&& ~~~(a - 1)).toNat = (n.toNat + (a.toNat - 1)) / a.toNat * a.toNat := by
  obtain ⟨hmask, hsum⟩ := add_sub_one_toNat (n := n) ha
  rw [and_not_toNat hmask, hsum, Nat.mod_eq_of_lt h, ha]

/-- Rounded up, a size is the least multiple there is. -/
theorem roundUp_isLeast (ha : a.toNat = 2 ^ k) (h : n.toNat + (a.toNat - 1) < 2 ^ 64) :
    IsLeast {m : Nat | a.toNat ∣ m ∧ n.toNat ≤ m} ((n + a - 1) &&& ~~~(a - 1)).toNat := by
  have hpos : 0 < a.toNat := by
    rw [ha]
    exact Nat.two_pow_pos k
  rw [roundUp_toNat ha h]
  refine ⟨⟨Nat.dvd_mul_left .., ?_⟩, ?_⟩
  · have hlt := Nat.lt_div_mul_add (a := n.toNat + (a.toNat - 1)) hpos
    omega
  · rintro m ⟨⟨c, rfl⟩, hm⟩
    rw [Nat.mul_comm a.toNat c] at hm ⊢
    apply Nat.mul_le_mul_right
    apply Nat.le_of_lt_succ
    rw [Nat.div_lt_iff_lt_mul hpos, Nat.succ_mul]
    omega

/-- Where the least multiple is past the top, rounding gives 0. -/
theorem roundUp_wraps (ha : a.toNat = 2 ^ k) (h : 2 ^ 64 ≤ n.toNat + (a.toNat - 1)) :
    (n + a - 1) &&& ~~~(a - 1) = 0 := by
  have hn : n.toNat < 2 ^ 64 := n.toNat_lt
  have hlt : a.toNat < 2 ^ 64 := a.toNat_lt
  obtain ⟨hmask, hsum⟩ := add_sub_one_toNat (n := n) ha
  have hpos : 0 < a.toNat := by
    rw [ha]
    exact Nat.two_pow_pos k
  have hquot : (n + a - 1).toNat / 2 ^ k = 0 := by
    rw [hsum, ← ha]
    exact Nat.div_eq_of_lt (by omega)
  apply UInt64.toNat_inj.mp
  rw [and_not_toNat hmask, hquot, Nat.zero_mul]
  rfl

/-! ## Ends -/

/-- `bytes > size - off` is the test that the end is past `size`. -/
theorem le_sub_iff (hoff : off ≤ size) :
    bytes ≤ size - off ↔ off.toNat + bytes.toNat ≤ size.toNat := by
  have hle := UInt64.le_iff_toNat_le.mp hoff
  rw [UInt64.le_iff_toNat_le, UInt64.toNat_sub_of_le _ _ hoff]
  omega

theorem toNat_add_of_lt {a b : UInt64} (h : a.toNat + b.toNat < 2 ^ 64) :
    (a + b).toNat = a.toNat + b.toNat := by
  rw [UInt64.toNat_add, Nat.mod_eq_of_lt h]

/-- `off + bytes > size` is that test where the sum does not wrap. -/
theorem add_le_iff (h : off.toNat + bytes.toNat < 2 ^ 64) :
    off + bytes ≤ size ↔ off.toNat + bytes.toNat ≤ size.toNat := by
  rw [UInt64.le_iff_toNat_le, toNat_add_of_lt h]

end OopsMesa.Lib
