/-
  Signed arithmetic as C has it, on the numbers themselves.

  A sum that leaves the type is undefined, and here it is nothing (`fits64`). `a / b` rounds
  toward zero and `a % b` has the sign of `a`. `tdiv_cases` says which way the quotient is off, by
  the sign of `a`; with a literal for `b` it is all that `omega` needs. The usual corrections make
  it the rounding down that `/` is: of the dividend, before the division (`tdiv_floor`), or of
  quotient and rest, after it (`tmod_floor`).
-/
import Mathlib.Algebra.Ring.Int.Defs
import Mathlib.Logic.Basic

namespace OopsMesa.Lib

variable {a b : Int}

/-- A value that an `int64_t` holds; where it does not, the behaviour is undefined. -/
def fits64 (x : Int) : Option Int :=
  if -0x8000000000000000 ≤ x ∧ x < 0x8000000000000000 then some x else none

theorem fits64_eq_some {x y : Int} : fits64 x = some y ↔
    (-0x8000000000000000 ≤ x ∧ x < 0x8000000000000000) ∧ x = y := by
  unfold fits64
  split
  · next h => exact ⟨fun he => ⟨h, Option.some.inj he⟩, fun he => congrArg some he.2⟩
  · next h => exact ⟨nofun, fun he => absurd he.1 h⟩

/-- The quotient is not above a number that is not negative, and not below a negative one. -/
theorem tdiv_cases (a : Int) (hb : 0 < b) :
    0 ≤ a ∧ 0 ≤ a.tdiv b ∧ b * a.tdiv b ≤ a ∧ a < b * a.tdiv b + b ∨
      a < 0 ∧ a.tdiv b ≤ 0 ∧ a ≤ b * a.tdiv b ∧ b * a.tdiv b < a + b := by
  have heq := Int.mul_tdiv_add_tmod a b
  rcases Int.lt_or_le a 0 with ha | ha
  · right
    have hq : a.tdiv b ≤ 0 := by
      have h := Int.tdiv_nonneg (a := -a) (by omega) (Int.le_of_lt hb)
      rw [Int.neg_tdiv] at h
      omega
    have hr : -b < a.tmod b ∧ a.tmod b ≤ 0 := by
      have h := Int.tmod_lt_of_pos (-a) hb
      have h' := Int.tmod_nonneg b (a := -a) (by omega)
      rw [Int.neg_tmod] at h h'
      omega
    omega
  · left
    have hq := Int.tdiv_nonneg ha (Int.le_of_lt hb)
    have hr := Int.tmod_lt_of_pos a hb
    have hr' := Int.tmod_nonneg b ha
    omega

/-- A negative dividend lowered first, the quotient is the one rounded down. -/
theorem tdiv_floor (a : Int) (hb : 0 < b) :
    (if 0 ≤ a then a else a - (b - 1)).tdiv b = a / b := by
  split
  · next ha => exact Int.tdiv_eq_ediv_of_nonneg ha
  · have h := tdiv_cases (a - (b - 1)) hb
    symm
    rw [Int.ediv_eq_iff_of_pos hb, Int.mul_comm]
    omega

/-- A negative rest raised, and one taken off the quotient, they are those of rounding down. -/
theorem tmod_floor (a : Int) (hb : 0 < b) :
    (if a.tmod b < 0 then a.tdiv b - 1 else a.tdiv b) = a / b ∧
      (if a.tmod b < 0 then a.tmod b + b else a.tmod b) = a % b := by
  have h := tdiv_cases a hb
  have heq := Int.mul_tdiv_add_tmod a b
  have hdown := Int.mul_ediv_add_emod a b
  have hquot : (if a.tmod b < 0 then a.tdiv b - 1 else a.tdiv b) = a / b := by
    symm
    rw [Int.ediv_eq_iff_of_pos hb, Int.mul_comm]
    split
    · rw [Int.mul_sub, Int.mul_one]
      omega
    · omega
  refine ⟨hquot, ?_⟩
  rw [← hquot] at hdown
  split_ifs at hdown ⊢
  · rw [Int.mul_sub, Int.mul_one] at hdown
    omega
  · omega

end OopsMesa.Lib
