/-
  The hash of raw bytes.

  libc++'s tables hash the bytes of their keys with FNV-1a. Its prime is 2^40 + 435. Keys of one
  length that differ in up to four neighbouring bytes, as numbers of 32 bits do wherever they stand
  in a key, never have the same hash (`hash_separates`): what such bytes can do to the state is
  too little for 2^64 to divide it.
-/
import OopsMesa.Lib.XorMul

namespace OopsMesa.Runtime

open OopsMesa.Lib

/-- `1099511628211ull` -/
def fnvPrime : UInt64 := 1099511628211

/-- `14695981039346656037ull` -/
def fnvBasis : UInt64 := 14695981039346656037

/-- `__hash_memory` -/
def hashMemory (key : List UInt8) : UInt64 :=
  key.foldl (fun h b => (h ^^^ b.toUInt64) * fnvPrime) fnvBasis

/-! ## Four bytes -/

/-- The inverse of the prime. -/
theorem fnvPrime_inv : fnvPrime * 14886173955864302971 = 1 := by decide

/-- A small number and a multiple of 2^40 make a multiple of 2^64 only if the small one is 0. -/
theorem low_zero {l h k : ℤ} (hl : -(2 ^ 39) < l ∧ l < 2 ^ 39) (heq : l + 2 ^ 40 * h = 2 ^ 64 * k) :
    l = 0 ∧ h = 2 ^ 24 * k := by
  have hzero : l = 0 := by omega
  exact ⟨hzero, by omega⟩

/-- What 435 divides, and is smaller, is 0. -/
theorem rest_zero {x d : ℤ} (hd : -255 ≤ d ∧ d ≤ 255) (heq : 435 * x + d = 0) : x = 0 ∧ d = 0 := by
  omega

/-- What 435 divides is a small multiple of it, and so is the rest. -/
theorem one_apart {d₁ d₂ t : ℤ} (h₂ : -510 ≤ d₂ ∧ d₂ ≤ 510) (h₃ : -510 ≤ 435 * t ∧ 435 * t ≤ 510)
    (heq : 435 * d₁ + d₂ + t = 0) : -1 ≤ d₁ ∧ d₁ ≤ 1 ∧ -1 ≤ t ∧ t ≤ 1 := by
  have ht : -1 ≤ t ∧ t ≤ 1 := by omega
  clear h₃
  omega

theorem none_apart {d t k : ℤ} (hone : -1 ≤ d ∧ d ≤ 1 ∧ -1 ≤ t ∧ t ≤ 1)
    (heq : 435 * (435 * d - t) = 2 ^ 24 * k) : d = 0 ∧ t = 0 := by
  have hk : k = 0 := by omega
  subst hk
  omega

/-- No small multiples of the powers of the prime cancel. -/
theorem powers_independent {d₁ d₂ d₃ d₄ k : ℤ} (h₁ : -255 ≤ d₁ ∧ d₁ ≤ 255)
    (h₂ : -510 ≤ d₂ ∧ d₂ ≤ 510) (h₃ : -510 ≤ d₃ ∧ d₃ ≤ 510) (h₄ : -255 ≤ d₄ ∧ d₄ ≤ 255)
    (heq : ((d₁ * 1099511628211 + d₂) * 1099511628211 + d₃) * 1099511628211 + d₄ =
      2 ^ 64 * k) : d₁ = 0 ∧ d₂ = 0 ∧ d₃ = 0 := by
  -- the powers by their remainders of 2^40, and what is above, of 2^64
  have hsplit : 435 * (435 * (435 * d₁ + d₂) + d₃) + d₄ +
      2 ^ 40 * (d₁ * 567675 + d₂ * 870 + d₃) =
      2 ^ 64 * (k - d₁ * 72057594123452416 - d₂ * 65536) := by
    rw [mul_sub, mul_sub, ← heq]
    ring
  have hsmall : -(2 ^ 39) < 435 * (435 * (435 * d₁ + d₂) + d₃) + d₄ ∧
      435 * (435 * (435 * d₁ + d₂) + d₃) + d₄ < 2 ^ 39 := by
    constructor <;> linarith only [h₁.1, h₁.2, h₂.1, h₂.2, h₃.1, h₃.2, h₄.1, h₄.2]
  obtain ⟨hlow, hhigh⟩ := low_zero hsmall hsplit
  obtain ⟨hrest, -⟩ := rest_zero h₄ hlow
  -- 435 divides the third
  obtain ⟨t, ht⟩ : ∃ t, t = -(435 * d₁ + d₂) := ⟨_, rfl⟩
  have h₃' : d₃ = 435 * t := by linarith only [hrest, ht]
  rw [h₃'] at h₃
  have hsum : 435 * d₁ + d₂ + t = 0 := by linarith only [ht]
  have hone := one_apart h₂ h₃ hsum
  have hmore : 435 * (435 * d₁ - t) = 2 ^ 24 * (k - d₁ * 72057594123452416 - d₂ * 65536) := by
    rw [← hhigh, h₃', ht]
    ring
  obtain ⟨hd₁, ht₀⟩ := none_apart hone hmore
  refine ⟨hd₁, ?_, by rw [h₃', ht₀, mul_zero]⟩
  linarith only [ht, ht₀, hd₁]

/-- Four bytes after the same state and before the same end are told apart. -/
theorem four_separate {h : UInt64} {a₁ a₂ a₃ a₄ b₁ b₂ b₃ b₄ : UInt8}
    (heq : xorMulAll fnvPrime h [a₁, a₂, a₃, a₄] = xorMulAll fnvPrime h [b₁, b₂, b₃, b₄]) :
    a₁ = b₁ ∧ a₂ = b₂ ∧ a₃ = b₃ ∧ a₄ = b₄ := by
  have hclose := xorMul_close fnvPrime_inv heq
  obtain ⟨d₁, k₁, hl₁, hu₁, hd₁, hs₁⟩ := xorMul_diff fnvPrime h h a₁ b₁
  obtain ⟨d₂, k₂, hl₂, hu₂, hd₂, hs₂⟩ :=
    xorMul_diff fnvPrime (xorMul fnvPrime h a₁) (xorMul fnvPrime h b₁) a₂ b₂
  obtain ⟨d₃, k₃, hl₃, hu₃, hd₃, hs₃⟩ := xorMul_diff fnvPrime
    (xorMul fnvPrime (xorMul fnvPrime h a₁) a₂) (xorMul fnvPrime (xorMul fnvPrime h b₁) b₂) a₃ b₃
  obtain ⟨hl, hu, hzero₁⟩ := hs₁ rfl
  have hprime : ((fnvPrime.toNat : ℕ) : ℤ) = 1099511628211 := rfl
  rw [hprime] at hd₁ hd₂ hd₃
  rw [hd₃, hd₂, hd₁] at hclose
  -- what is left after three bytes is the fourth's
  obtain ⟨d₄, hd₄⟩ : ∃ d₄, d₄ = 2 ^ 64 * (k₃ + (k₂ + k₁ * 1099511628211) * 1099511628211) -
      ((d₁ * 1099511628211 + d₂) * 1099511628211 + d₃) * 1099511628211 := ⟨_, rfl⟩
  have hsum : ((d₁ * 1099511628211 + d₂) * 1099511628211 + d₃) * 1099511628211 + d₄ =
      2 ^ 64 * (k₃ + (k₂ + k₁ * 1099511628211) * 1099511628211) := by
    rw [hd₄]
    ring
  have hbound : -255 ≤ d₄ ∧ d₄ ≤ 255 := by
    constructor <;> linarith [hclose.1, hclose.2]
  obtain ⟨h₁, h₂, h₃⟩ := powers_independent ⟨hl, hu⟩ ⟨hl₂, hu₂⟩ ⟨hl₃, hu₃⟩ hbound hsum
  obtain rfl := hzero₁ h₁
  obtain ⟨-, -, hzero₂⟩ := hs₂ rfl
  obtain rfl := hzero₂ h₂
  obtain ⟨-, -, hzero₃⟩ := hs₃ rfl
  obtain rfl := hzero₃ h₃
  exact ⟨rfl, rfl, rfl, xor_byte_inj (mul_inj fnvPrime_inv heq)⟩

/-- `hashMemory` in the library's words. -/
theorem hashMemory_eq (key : List UInt8) : hashMemory key = xorMulAll fnvPrime fnvBasis key := rfl

/-- At most four bytes of one number, filled up to four. -/
theorem upto_four_separate {h : UInt64} {a b : List UInt8} (hlen : a.length = b.length)
    (hfour : a.length ≤ 4) (heq : xorMulAll fnvPrime h a = xorMulAll fnvPrime h b) : a = b := by
  have hfill (n : ℕ) : xorMulAll fnvPrime h (a ++ List.replicate n 0) =
      xorMulAll fnvPrime h (b ++ List.replicate n 0) := by
    rw [xorMulAll_append, xorMulAll_append, heq]
  have hboth := hfill (4 - a.length)
  match a, b, hlen with
  | [], [], _ => rfl
  | [a₁], [b₁], _ =>
    obtain ⟨rfl, -⟩ := four_separate hboth
    rfl
  | [a₁, a₂], [b₁, b₂], _ =>
    obtain ⟨rfl, rfl, -⟩ := four_separate hboth
    rfl
  | [a₁, a₂, a₃], [b₁, b₂, b₃], _ =>
    obtain ⟨rfl, rfl, rfl, -⟩ := four_separate hboth
    rfl
  | [a₁, a₂, a₃, a₄], [b₁, b₂, b₃, b₄], _ =>
    obtain ⟨rfl, rfl, rfl, rfl⟩ := four_separate hboth
    rfl
  | _ :: _ :: _ :: _ :: _ :: _, _, _ =>
    simp only [List.length_cons] at hfour
    omega

/-- Keys that differ in up to four neighbouring bytes have different hashes. -/
theorem hash_separates {p a b s : List UInt8} (hlen : a.length = b.length) (hfour : a.length ≤ 4)
    (hne : a ≠ b) : hashMemory (p ++ a ++ s) ≠ hashMemory (p ++ b ++ s) := by
  intro heq
  rw [hashMemory_eq, hashMemory_eq, xorMulAll_append, xorMulAll_append, xorMulAll_append,
    xorMulAll_append] at heq
  exact hne (upto_four_separate hlen hfour (xorMulAll_inj fnvPrime_inv heq))

/-- Two numbers in the middle of a key. -/
theorem hash_separates_numbers : hashMemory [7, 1, 0, 0, 0, 9] ≠ hashMemory [7, 0, 1, 0, 0, 9] :=
  hash_separates (p := [7]) (a := [1, 0, 0, 0]) (b := [0, 1, 0, 0]) (s := [9]) rfl (by decide)
    (by decide)

end OopsMesa.Runtime
