/-
  The proleptic Gregorian calendar, by its rules.

  A year is leap by the rules of 4, 100 and 400, and the lengths of years and months follow from
  that; months are counted from 0. The first day of a year is a count of days from 1970-01-01,
  which goes up by the length of each year and, before 1970, down. Everything else is counted from
  these: `yearStart_eq` is the closed form, and no day is in two years (`InYear.unique`).

  An era is 400 years from March on, 146097 days. The day of an era gives its year by an
  estimate that never decreases (`estimate_mono`), so that it is enough to look at the first and
  the last day of each of the 400 years (`era_years`).
-/
import Mathlib.Algebra.Ring.Int.Defs
import Mathlib.Order.Monotone.Basic
import Mathlib.Tactic.IntervalCases

namespace OopsMesa.Lib

/-! ## The rules -/

def Leap (y : Int) : Prop := 4 ∣ y ∧ ¬ 100 ∣ y ∨ 400 ∣ y

instance : DecidablePred Leap := fun y => inferInstanceAs (Decidable (4 ∣ y ∧ ¬ 100 ∣ y ∨ 400 ∣ y))

def yearLength (y : Int) : Int := if Leap y then 366 else 365

def monthLength (y : Int) (m : Nat) : Int :=
  if m = 1 then if Leap y then 29 else 28
  else if m = 3 ∨ m = 5 ∨ m = 8 ∨ m = 10 then 30 else 31

/-- The days of `n` years, from the year `y` on. -/
def daysOfYears (y : Int) : Nat → Int
  | 0 => 0
  | n + 1 => daysOfYears y n + yearLength (y + n)

/-- The first day of a year, counted from 1970-01-01. -/
def yearStart (y : Int) : Int :=
  daysOfYears 1970 (y - 1970).toNat - daysOfYears y (1970 - y).toNat

/-- The days of a year before a month of it. -/
def monthStart (y : Int) : Nat → Int
  | 0 => 0
  | m + 1 => monthStart y m + monthLength y m

/-- The day is in the year. -/
def InYear (y day : Int) : Prop := yearStart y ≤ day ∧ day < yearStart (y + 1)

/-- The day is day `d` of month `m` of the year. -/
structure IsDate (y : Int) (m : Nat) (d day : Int) : Prop where
  month : m < 12
  first : 1 ≤ d
  last : d ≤ monthLength y m
  eq : day = yearStart y + monthStart y m + (d - 1)

variable {y z d day : Int} {n m p : Nat}

/-! ## Years -/

/-- The leap days before a year, up to a constant. -/
def leapDays (y : Int) : Int := (y - 1) / 4 - (y - 1) / 100 + (y - 1) / 400

theorem yearLength_eq (y : Int) : yearLength y = 365 + (leapDays (y + 1) - leapDays y) := by
  unfold yearLength leapDays
  split
  · next h =>
    unfold Leap at h
    omega
  · next h =>
    unfold Leap at h
    omega

theorem daysOfYears_eq (y : Int) (n : Nat) :
    daysOfYears y n = 365 * n + (leapDays (y + n) - leapDays y) := by
  induction n with
  | zero =>
    unfold daysOfYears
    rw [Int.natCast_zero, Int.add_zero]
    omega
  | succ n ih =>
    have hyear := yearLength_eq (y + n)
    unfold daysOfYears
    rw [ih, hyear, show y + ((n + 1 : Nat) : Int) = y + n + 1 by omega]
    omega

theorem yearStart_eq (y : Int) : yearStart y = 365 * (y - 1970) + (leapDays y - leapDays 1970) := by
  unfold yearStart
  rw [daysOfYears_eq, daysOfYears_eq]
  by_cases h : 1970 ≤ y
  · rw [show (1970 : Int) + (y - 1970).toNat = y by omega,
      show y + ((1970 - y).toNat : Int) = y by omega]
    omega
  · rw [show (1970 : Int) + (y - 1970).toNat = 1970 by omega,
      show y + ((1970 - y).toNat : Int) = 1970 by omega]
    omega

/-- A year starts where the one before ends. -/
theorem yearStart_succ (y : Int) : yearStart (y + 1) = yearStart y + yearLength y := by
  rw [yearStart_eq, yearStart_eq, yearLength_eq]
  omega

theorem yearStart_mono (h : y ≤ z) : yearStart y ≤ yearStart z := by
  rw [yearStart_eq, yearStart_eq]
  unfold leapDays
  omega

/-- A day is in one year. -/
theorem InYear.unique (hy : InYear y day) (hz : InYear z day) : y = z := by
  obtain ⟨hy0, hy1⟩ := hy
  obtain ⟨hz0, hz1⟩ := hz
  by_contra hne
  by_cases hlt : y < z
  · have h := yearStart_mono (y := y + 1) (z := z) (by omega)
    omega
  · have h := yearStart_mono (y := z + 1) (z := y) (by omega)
    omega

/-! ## Months -/

theorem monthLength_pos (y : Int) (m : Nat) : 0 < monthLength y m := by
  unfold monthLength
  split_ifs <;> omega

theorem monthLength_le (y : Int) (m : Nat) : monthLength y m ≤ 31 := by
  unfold monthLength
  split_ifs <;> omega

theorem monthStart_mono (y : Int) {m n : Nat} (h : m ≤ n) : monthStart y m ≤ monthStart y n := by
  induction h with
  | refl => exact Int.le_refl _
  | @step k _ ih =>
    have hpos := monthLength_pos y k
    have hnext : monthStart y (k + 1) = monthStart y k + monthLength y k := rfl
    rw [Nat.succ_eq_add_one, hnext]
    omega

/-- The months of a year are the year. -/
theorem monthStart_twelve (y : Int) : monthStart y 12 = yearLength y := by
  unfold yearLength
  by_cases h : Leap y <;> simp [monthStart, monthLength, h]

/-- A date is in its year. -/
theorem IsDate.inYear (h : IsDate y m d day) : InYear y day := by
  obtain ⟨hm, hfirst, hlast, rfl⟩ := h
  have hnext : monthStart y (m + 1) ≤ monthStart y 12 := monthStart_mono y hm
  have hstart : monthStart y 0 ≤ monthStart y m := monthStart_mono y (Nat.zero_le m)
  have hzero : monthStart y 0 = 0 := rfl
  have hmonth : monthStart y (m + 1) = monthStart y m + monthLength y m := rfl
  have hyear := yearStart_succ y
  rw [monthStart_twelve] at hnext
  constructor <;> omega

/-- The months counted from March start on evenly spaced days. -/
theorem monthStart_march (y : Int) (hp : p < 10) :
    monthStart y (p + 2) = ((153 * p + 2) / 5 : Nat) + 59 + (yearLength y - 365) ∧
      monthLength y (p + 2) = ((153 * (p + 1) + 2) / 5 : Nat) - ((153 * p + 2) / 5 : Nat) := by
  unfold yearLength
  by_cases h : Leap y <;> interval_cases p <;> simp [monthStart, monthLength, h]

/-- January and February, the last two from March on; February ends when the year from March on
    does. -/
theorem monthStart_february (y : Int) : monthStart y 0 = 0 ∧ monthLength y 0 = 31 ∧
    monthStart y 1 = 31 ∧ monthLength y 1 = yearLength y - 337 := by
  refine ⟨rfl, rfl, rfl, ?_⟩
  unfold monthLength yearLength
  by_cases h : Leap y <;> simp [h]

/-! ## Eras -/

/-- The first day of a year of an era, its years counted from March. -/
def marchStart (n : Nat) : Nat := 365 * n + n / 4 - n / 100 + n / 400

/-- 365 times the year of an era that a day is in, and up to 364 more. -/
def estimate (doe : Nat) : Nat := doe - doe / 1460 + doe / 36524 - doe / 146096

theorem estimate_mono : Monotone estimate := by
  refine monotone_nat_of_le_succ fun doe => ?_
  unfold estimate
  omega

/-- The first and the last day of each year of an era. -/
theorem era_years : ∀ n < 400, 365 * n ≤ estimate (marchStart n) ∧
    estimate (marchStart (n + 1) - 1) < 365 * (n + 1) := by
  decide +kernel

/-- The estimate gives the year that a day of an era is in. -/
theorem estimate_year {doe : Nat} (h : doe < 146097) : estimate doe / 365 < 400 ∧
    marchStart (estimate doe / 365) ≤ doe ∧ doe < marchStart (estimate doe / 365 + 1) := by
  generalize hn : estimate doe / 365 = n
  have hlow : 365 * n ≤ estimate doe := by omega
  have hhigh : estimate doe < 365 * (n + 1) := by omega
  have hlt : n < 400 := by
    have hmax := estimate_mono (show doe ≤ 146096 by omega)
    have hlast : estimate 146096 = 145999 := rfl
    omega
  refine ⟨hlt, ?_, ?_⟩
  · -- before the first day of the year, the estimate is that of an earlier one
    by_contra hbefore
    obtain _ | n := n
    · exact hbefore (Nat.zero_le _)
    · have hyear := (era_years n (by omega)).2
      have hle := estimate_mono (show doe ≤ marchStart (n + 1) - 1 by omega)
      omega
  · -- and after the last day, that of a later one
    by_contra hafter
    by_cases hlast : n + 1 < 400
    · have hyear := (era_years (n + 1) hlast).1
      have hle := estimate_mono (show marchStart (n + 1) ≤ doe by omega)
      omega
    · obtain rfl : n = 399 := by omega
      have hend : marchStart (399 + 1) = 146097 := rfl
      omega

/-- January of the year that an era's year is counted into starts 306 days after its March. -/
theorem yearStart_january (era : Int) (n : Nat) :
    yearStart (n + era * 400 + 1) = 146097 * era + marchStart n + 306 - 719468 := by
  rw [yearStart_eq]
  unfold leapDays marchStart
  omega

/-- And March, 59 days after January or one more. -/
theorem yearStart_march (era : Int) (n : Nat) :
    yearStart (n + era * 400) + (yearLength (n + era * 400) - 365) + 59 =
      146097 * era + marchStart n - 719468 := by
  rw [yearStart_eq, yearLength_eq]
  unfold leapDays marchStart
  omega

/-- A year of an era is of 366 days where the February at its end is of a leap year. -/
theorem marchStart_succ (era : Int) (n : Nat) :
    (marchStart (n + 1) : Int) = marchStart n + yearLength (n + era * 400 + 1) := by
  rw [yearLength_eq]
  unfold leapDays marchStart
  omega

/-- The month that a day of a year from March on is in. -/
theorem march_month : ∀ doy < 366, (5 * doy + 2) / 153 < 12 ∧
    (153 * ((5 * doy + 2) / 153) + 2) / 5 ≤ doy ∧
    doy < (153 * ((5 * doy + 2) / 153 + 1) + 2) / 5 := by
  decide +kernel

/-- The date of a day of an era, where `n` is its year and `doy` its day of it, from March on. -/
theorem era_date (era : Int) {doy : Nat} (h : marchStart n + doy < marchStart (n + 1)) :
    IsDate (n + era * 400 + if (5 * doy + 2) / 153 < 10 then 0 else 1)
      (if (5 * doy + 2) / 153 < 10 then (5 * doy + 2) / 153 + 2 else (5 * doy + 2) / 153 - 10)
      (doy - ((153 * ((5 * doy + 2) / 153) + 2) / 5 : Nat) + 1)
      (146097 * era + marchStart n + doy - 719468) := by
  have hlast := marchStart_succ era n
  have hlen : yearLength (n + era * 400 + 1) ≤ 366 := by
    unfold yearLength
    split <;> omega
  obtain ⟨hp, hge, hlt⟩ := march_month doy (by omega)
  generalize (5 * doy + 2) / 153 = p at *
  by_cases hp10 : p < 10
  · simp only [if_pos hp10]
    obtain ⟨hstart, hlength⟩ := monthStart_march (n + era * 400) hp10
    have hmarch := yearStart_march era n
    rw [Int.add_zero]
    exact ⟨by omega, by omega, by omega, by omega⟩
  · simp only [if_neg hp10]
    have hjanuary := yearStart_january era n
    obtain ⟨hstart0, hlength0, hstart1, hlength1⟩ :=
      monthStart_february (n + era * 400 + 1)
    obtain rfl | rfl : p = 10 ∨ p = 11 := by omega
    · rw [show 10 - 10 = 0 from rfl]
      exact ⟨by omega, by omega, by omega, by omega⟩
    · rw [show 11 - 10 = 1 from rfl]
      exact ⟨by omega, by omega, by omega, by omega⟩

end OopsMesa.Lib
