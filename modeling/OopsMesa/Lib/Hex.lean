/-
  Numbers in hexadecimal text.

  `hexText w n` is what printf's `%0wx` writes of `n`: its digits in lower case, as bytes, with
  zeros before them up to `w`. `readHex` reads digits back, whatever their number, and nothing
  else. Zeros in front do not change what is read (`readHex_hexText`), a number below `16 ^ k`
  has at most `k` digits (`hexText_length`), and no digit is a separator. Nothing here names a
  system.
-/
import Mathlib.Data.List.Basic
import Mathlib.Tactic.IntervalCases

namespace OopsMesa.Lib

/-- The byte of a digit. -/
def hexDigit (d : Nat) : UInt8 := (Nat.digitChar d).toUInt8

/-- `%0wx` -/
def hexText (w n : Nat) : List UInt8 :=
  List.replicate (w - (Nat.toDigits 16 n).length) 48 ++
    (Nat.toDigits 16 n).map Char.toUInt8

/-- The value of a digit in lower case. -/
def readHexDigit (c : UInt8) : Option Nat :=
  if 48 ≤ c ∧ c ≤ 57 then some (c.toNat - 48)
  else if 97 ≤ c ∧ c ≤ 102 then some (c.toNat - 87)
  else none

/-- One more digit. -/
def takeDigit (n : Nat) (c : UInt8) : Option Nat := (readHexDigit c).map (16 * n + ·)

/-- The number that digits are, of which there has to be one. -/
def readHex (text : List UInt8) : Option Nat :=
  if text = [] then none else text.foldlM takeDigit 0

variable {w n k : Nat}

theorem readHexDigit_hexDigit {d : Nat} (h : d < 16) : readHexDigit (hexDigit d) = some d := by
  interval_cases d <;> rfl

theorem takeDigit_hexDigit {d : Nat} (h : d < 16) : takeDigit n (hexDigit d) = some (16 * n + d) :=
  congrArg (Option.map _) (readHexDigit_hexDigit h)

/-- The digits of a number are the digits of a sixteenth of it, and one more. -/
theorem digits_eq (n : Nat) : (Nat.toDigits 16 n).map Char.toUInt8 =
    if n < 16 then [hexDigit n]
    else (Nat.toDigits 16 (n / 16)).map Char.toUInt8 ++ [hexDigit (n % 16)] := by
  rw [Nat.toDigits_eq_if (by decide)]
  split
  · rfl
  · rw [List.map_append]
    rfl

/-- The digits read back. -/
theorem takeDigits (n : Nat) :
    ((Nat.toDigits 16 n).map Char.toUInt8).foldlM takeDigit 0 = some n := by
  induction n using Nat.strongRecOn with
  | ind n ih =>
    rw [digits_eq]
    split
    · next hlt =>
      have hdigit := takeDigit_hexDigit (n := 0) hlt
      rw [Nat.mul_zero, Nat.zero_add] at hdigit
      rw [List.foldlM_cons, hdigit]
      rfl
    · next hge =>
      rw [List.foldlM_append, ih (n / 16) (by omega)]
      show takeDigit (n / 16) (hexDigit (n % 16)) >>= pure = some n
      rw [bind_pure, takeDigit_hexDigit (Nat.mod_lt n (by decide)), Nat.div_add_mod]

theorem takeZeros (k : Nat) : (List.replicate k (48 : UInt8)).foldlM takeDigit 0 = some 0 := by
  induction k with
  | zero => rfl
  | succ k ih => exact ih

theorem hexText_ne_nil : hexText w n ≠ [] := by
  unfold hexText
  intro h
  exact Nat.toDigits_ne_nil (List.map_eq_nil_iff.mp (List.append_eq_nil_iff.mp h).2)

/-- A number reads back as it was written. -/
theorem readHex_hexText (w n : Nat) : readHex (hexText w n) = some n := by
  unfold readHex
  rw [if_neg hexText_ne_nil]
  unfold hexText
  rw [List.foldlM_append, takeZeros]
  exact takeDigits n

/-- A number of few digits is as long as it is made. -/
theorem hexText_length (hn : n < 16 ^ k) (hk : 0 < k) :
    w ≤ (hexText w n).length ∧ ((hexText w n).length ≤ w ∨ (hexText w n).length ≤ k) := by
  have hdigits := (Nat.length_toDigits_le_iff (b := 16) (by decide) hk).mpr hn
  unfold hexText
  rw [List.length_append, List.length_replicate, List.length_map]
  omega

/-- All that is written is digits. -/
theorem mem_hexText {c : UInt8} (h : c ∈ hexText w n) : (readHexDigit c).isSome := by
  have hdigits : ∀ n, ∀ c ∈ (Nat.toDigits 16 n).map Char.toUInt8, (readHexDigit c).isSome := by
    intro n
    induction n using Nat.strongRecOn with
    | ind n ih =>
      rw [digits_eq]
      intro c hc
      split at hc
      · next hlt =>
        rw [List.mem_singleton.mp hc, readHexDigit_hexDigit hlt]
        rfl
      · next hge =>
        rcases List.mem_append.mp hc with hc | hc
        · exact ih (n / 16) (by omega) c hc
        · rw [List.mem_singleton.mp hc, readHexDigit_hexDigit (Nat.mod_lt n (by decide))]
          rfl
  unfold hexText at h
  rcases List.mem_append.mp h with h | h
  · rw [List.eq_of_mem_replicate h]
    rfl
  · exact hdigits n c h

end OopsMesa.Lib
