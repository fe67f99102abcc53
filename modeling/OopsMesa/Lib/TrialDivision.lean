/-
  Trial division by the numbers that are one off a multiple of six.

  A number that 2 and 3 do not divide is tested by dividing it by 5 and 7, 11 and 13, and so on,
  up to its root. Where it is no prime its least factor is one of these (`exists_divisor`), and a
  prime is divided by none of them (`mod_ne_zero_of_prime`). Nothing here names a system.
-/
import Mathlib.Data.Nat.Find
import Mathlib.Data.Nat.Prime.Basic

namespace OopsMesa.Lib

variable {c d p : Nat}

theorem mod_ne_zero_of_prime (hp : p.Prime) (hd : 1 < d) (hlt : d < p) : p % d ≠ 0 := by
  intro h
  obtain rfl | rfl := hp.eq_one_or_self_of_dvd d (Nat.dvd_of_mod_eq_zero h) <;> omega

/-- A composite number has a divisor up to its root, one off a multiple of six. -/
theorem exists_divisor (hc : 1 < c) (h2 : c % 2 ≠ 0) (h3 : c % 3 ≠ 0) (hnp : ¬ c.Prime) :
    ∃ m, c % m = 0 ∧ m * m ≤ c ∧ 5 ≤ m ∧ (m % 6 = 1 ∨ m % 6 = 5) := by
  have hprime := Nat.minFac_prime (show c ≠ 1 by omega)
  have hdvd := Nat.minFac_dvd c
  have hroot := Nat.minFac_sq_le_self (by omega) hnp
  rw [sq] at hroot
  have hge := hprime.two_le
  have hodd : c.minFac % 2 ≠ 0 := fun h =>
    h2 (Nat.mod_eq_zero_of_dvd ((Nat.dvd_of_mod_eq_zero h).trans hdvd))
  have hthird : c.minFac % 3 ≠ 0 := fun h =>
    h3 (Nat.mod_eq_zero_of_dvd ((Nat.dvd_of_mod_eq_zero h).trans hdvd))
  exact ⟨c.minFac, Nat.mod_eq_zero_of_dvd hdvd, hroot, by omega, by omega⟩

/-- Where there is a prime from a number on, there is a least one. -/
theorem exists_least_prime (hp : p.Prime) (hle : c ≤ p) :
    ∃ q, q.Prime ∧ c ≤ q ∧ ∀ r, r.Prime → c ≤ r → q ≤ r := by
  have hex : ∃ q, q.Prime ∧ c ≤ q := ⟨p, hp, hle⟩
  obtain ⟨hq, hcq⟩ := Nat.find_spec hex
  exact ⟨Nat.find hex, hq, hcq, fun r hr hle => Nat.find_min' hex ⟨hr, hle⟩⟩

end OopsMesa.Lib
