/-
  `localtime_r`, the broken-down time.

  The zone offset is the platform's, or 0 where it has none to give. The days and the seconds of
  the day are made by a division that is corrected to round down; the date is made from the days
  by the days-to-civil method, in years that start in March and eras of 400 of them. What it comes
  to is the proleptic Gregorian date (`localtime_gregorian`), before 1970 and after.

  Arithmetic is on integers. The one sum that can leave an `int64_t` is that of the time and the
  offset; a conversion to `int` keeps the low 32 bits.
-/
import OopsMesa.Lib.Calendar
import OopsMesa.Lib.Trunc

namespace OopsMesa.Runtime

open OopsMesa.Lib

/-! ## The code -/

/-- `(int)x` -/
def cInt (x : Int) : Int := x.bmod 0x100000000

/-- `struct tm` -/
structure Tm where
  tmSec : Int
  tmMin : Int
  tmHour : Int
  tmMday : Int
  tmMon : Int
  tmYear : Int
  tmWday : Int
  tmYday : Int
  tmIsdst : Int
  tmGmtoff : Int
  deriving DecidableEq

/-- `y`, `doy` and `mp`: a year, and a day and a month of the year that starts in March. -/
structure Civil where
  y : Int
  doy : Int
  mp : Int

/-- The days-to-civil method. -/
def daysToCivil (days : Int) : Civil :=
  let days := days + 719468
  let era := (if 0 ≤ days then days else days - 146096).tdiv 146097
  let doe := days - era * 146097
  let yoe := (doe - doe.tdiv 1460 + doe.tdiv 36524 - doe.tdiv 146096).tdiv 365
  let doy := doe - (365 * yoe + yoe.tdiv 4 - yoe.tdiv 100)
  let mp := (5 * doy + 2).tdiv 153
  ⟨yoe + era * 400 + (if 10 ≤ mp then 1 else 0), doy, mp⟩

/-- `before[mon]`; nothing outside the table. -/
def before (mon : Int) : Option Int :=
  if 0 ≤ mon then [0, 31, 59, 90, 120, 151, 181, 212, 243, 273, 304, 334][mon.toNat]? else none

/-- `leap` -/
def leap (y : Int) : Prop := y.tmod 4 = 0 ∧ y.tmod 100 ≠ 0 ∨ y.tmod 400 = 0

instance : DecidablePred leap := fun y =>
  inferInstanceAs (Decidable (y.tmod 4 = 0 ∧ y.tmod 100 ≠ 0 ∨ y.tmod 400 = 0))

/-- The fields, from the seconds with the offset in. -/
def brokenDown (secs offset : Int) : Option Tm := do
  let rem := if secs.tmod 86400 < 0 then secs.tmod 86400 + 86400 else secs.tmod 86400
  let days := if secs.tmod 86400 < 0 then secs.tdiv 86400 - 1 else secs.tdiv 86400
  let civil := daysToCivil days
  let mday := cInt (civil.doy - (153 * civil.mp + 2).tdiv 5 + 1)
  let mon := cInt (if civil.mp < 10 then civil.mp + 2 else civil.mp - 10)
  let days0 ← before mon
  some {
    tmSec := cInt (rem.tmod 60)
    tmMin := cInt ((rem.tmod 3600).tdiv 60)
    tmHour := cInt (rem.tdiv 3600)
    tmMday := mday
    tmMon := mon
    tmYear := cInt (civil.y - 1900)
    tmWday := cInt ((days.tmod 7 + 11).tmod 7)
    tmYday := days0 + mday - 1 + (if leap civil.y ∧ mon > 1 then 1 else 0)
    tmIsdst := 0
    tmGmtoff := offset }

/-- `localtime_r`: null, or the fields; nothing where the sum overflows. `utcOffset` is
    `oops_time_utc_offset`, and `result` whether there is a record to fill. -/
def localtimeR (utcOffset : Int64 → Option Int32) (clock : Option Int64) (result : Bool) :
    Option (Option Tm) :=
  clock.elim (some none) fun clock =>
    if result then do
      let offset := ((utcOffset clock).getD 0).toInt
      let secs ← fits64 (clock.toInt + offset)
      let tm ← brokenDown secs offset
      some (some tm)
    else some none

/-! ## The statement -/

/-- `tm_year` counts from 1900. -/
def Tm.year (tm : Tm) : Int := tm.tmYear + 1900

/-- The fields as seconds since 1970, by the lengths of years and months. -/
def Tm.seconds (tm : Tm) : Int :=
  (((yearStart tm.year + monthStart tm.year tm.tmMon.toNat + (tm.tmMday - 1)) * 24 + tm.tmHour) *
    60 + tm.tmMin) * 60 + tm.tmSec

/-- The fields are in range, and are those of the second: the day is `seconds / 86400`, rounded
    down, and day 0 was a Thursday. -/
structure IsLocalTime (seconds offset : Int) (tm : Tm) : Prop where
  sec : 0 ≤ tm.tmSec ∧ tm.tmSec ≤ 59
  min : 0 ≤ tm.tmMin ∧ tm.tmMin ≤ 59
  hour : 0 ≤ tm.tmHour ∧ tm.tmHour ≤ 23
  mon : 0 ≤ tm.tmMon ∧ tm.tmMon ≤ 11
  mday : 1 ≤ tm.tmMday ∧ tm.tmMday ≤ monthLength tm.year tm.tmMon.toNat
  back : tm.seconds = seconds
  wday : tm.tmWday = (seconds / 86400 + 4) % 7
  yday : tm.tmYday = seconds / 86400 - yearStart tm.year
  ydayRange : 0 ≤ tm.tmYday ∧ tm.tmYday < yearLength tm.year
  gmtoff : tm.tmGmtoff = offset

variable {x y days secs offset : Int}

/-! ## The pieces -/

theorem cInt_eq (h0 : -0x80000000 ≤ x) (h1 : x < 0x80000000) : cInt x = x :=
  Int.bmod_eq_of_le_mul_two (by omega) (by omega)

theorem leap_iff : leap y ↔ Leap y := by
  unfold leap Leap
  rw [Int.dvd_iff_tmod_eq_zero, Int.dvd_iff_tmod_eq_zero, Int.dvd_iff_tmod_eq_zero]

/-- The table has the first day of each month in a common year. -/
theorem before_eq (y : Int) {m : Nat} (hm : m < 12) :
    ∃ days, before m = some days ∧
      monthStart y m = days + if leap y ∧ (m : Int) > 1 then 1 else 0 := by
  by_cases h : Leap y <;> interval_cases m <;>
    exact ⟨_, rfl, by simp [monthStart, monthLength, leap_iff, h]⟩

/-- The method gives the year, the day and the month of the year from March on. -/
theorem daysToCivil_eq (days : Int) : ∃ (era : Int) (n doy : Nat),
    marchStart n + doy < marchStart (n + 1) ∧
      days = 146097 * era + marchStart n + doy - 719468 ∧
      daysToCivil days = ⟨n + era * 400 + if (5 * doy + 2) / 153 < 10 then 0 else 1, doy,
        ((5 * doy + 2) / 153 : Nat)⟩ := by
  have hera := tdiv_floor (days + 719468) (b := 146097) (by decide)
  obtain ⟨doe, hdoe⟩ := Int.eq_ofNat_of_zero_le
    (show 0 ≤ (days + 719468) % 146097 by omega)
  obtain ⟨hn, hstart, hend⟩ := estimate_year (show doe < 146097 by omega)
  refine ⟨(days + 719468) / 146097, estimate doe / 365, doe - marchStart (estimate doe / 365),
    by omega, by omega, ?_⟩
  have hrest : days + 719468 - (days + 719468) / 146097 * 146097 = doe := by omega
  have hnat : ∀ (a : Nat) (b : Int), (a : Int).tdiv b = a / b :=
    fun a _ => Int.tdiv_eq_ediv_of_nonneg (Int.natCast_nonneg a)
  have hyoe : ((doe : Int) - (doe : Int).tdiv 1460 + (doe : Int).tdiv 36524 -
      (doe : Int).tdiv 146096).tdiv 365 = (estimate doe / 365 : Nat) := by
    rw [hnat, hnat, hnat, Int.tdiv_eq_ediv_of_nonneg (by omega)]
    unfold estimate
    omega
  generalize estimate doe / 365 = n at *
  have hdoy : (doe : Int) - (365 * n + (n : Int).tdiv 4 - (n : Int).tdiv 100) =
      (doe - marchStart n : Nat) := by
    rw [hnat, hnat]
    unfold marchStart at *
    omega
  unfold daysToCivil
  dsimp only
  rw [show (days + 719468 - 146096 : Int) = days + 719468 - (146097 - 1) from rfl, hera, hrest,
    hyoe, hdoy]
  generalize doe - marchStart n = doy
  have hmp : (5 * (doy : Int) + 2).tdiv 153 = ((5 * doy + 2) / 153 : Nat) := by
    rw [Int.tdiv_eq_ediv_of_nonneg (by omega)]
    omega
  rw [hmp]
  congr 2
  split_ifs <;> omega

/-- The days and the seconds of the day, rounded down. -/
theorem brokenDown_days (secs : Int) :
    (if secs.tmod 86400 < 0 then secs.tdiv 86400 - 1 else secs.tdiv 86400) = secs / 86400 ∧
      (if secs.tmod 86400 < 0 then secs.tmod 86400 + 86400 else secs.tmod 86400) =
        secs % 86400 :=
  tmod_floor secs (by decide)

/-- The weekday, from Thursday on day 0. -/
theorem weekday_eq (days : Int) : (days.tmod 7 + 11).tmod 7 = (days + 4) % 7 := by
  have hdiv := tdiv_cases days (b := 7) (by decide)
  rw [Int.tmod_def days, Int.tmod_eq_emod_of_nonneg (by omega)]
  omega

/-! ## The broken-down time -/

/-- The date that the method gives, as the fields hold it. -/
theorem daysToCivil_date (days : Int) : ∃ (y : Int) (m : Nat) (d : Int), IsDate y m d days ∧
    (daysToCivil days).y = y ∧
    cInt (if (daysToCivil days).mp < 10 then (daysToCivil days).mp + 2
      else (daysToCivil days).mp - 10) = m ∧
    cInt ((daysToCivil days).doy - (153 * (daysToCivil days).mp + 2).tdiv 5 + 1) = d := by
  obtain ⟨era, n, doy, hdoy, hdays, hcivil⟩ := daysToCivil_eq days
  have hdate := era_date era hdoy
  rw [← hdays] at hdate
  have hlen := monthLength_le (n + era * 400 + if (5 * doy + 2) / 153 < 10 then 0 else 1)
    (if (5 * doy + 2) / 153 < 10 then (5 * doy + 2) / 153 + 2 else (5 * doy + 2) / 153 - 10)
  refine ⟨_, _, _, hdate, by rw [hcivil], ?_, ?_⟩
  · have hm := hdate.month
    rw [hcivil]
    dsimp only
    generalize (5 * doy + 2) / 153 = p at *
    by_cases hp : p < 10
    · simp only [if_pos hp] at hm ⊢
      rw [if_pos (by omega), cInt_eq (by omega) (by omega), Int.natCast_add]
      rfl
    · simp only [if_neg hp] at hm ⊢
      rw [if_neg (by omega), cInt_eq (by omega) (by omega)]
      omega
  · have hfirst := hdate.first
    have hlast := hdate.last
    have hdiv : (153 * (((5 * doy + 2) / 153 : Nat) : Int) + 2).tdiv 5 =
        ((153 * ((5 * doy + 2) / 153) + 2) / 5 : Nat) := by
      rw [Int.tdiv_eq_ediv_of_nonneg (by omega)]
      omega
    rw [hcivil]
    dsimp only
    rw [hdiv, cInt_eq (by omega) (by omega)]

/-- The fields are those of the second, where the year is an `int`. -/
theorem brokenDown_isLocalTime (secs offset : Int)
    (hyear : ∀ year, InYear year (secs / 86400) →
      -0x80000000 ≤ year - 1900 ∧ year - 1900 < 0x80000000) :
    ∃ tm, brokenDown secs offset = some tm ∧ IsLocalTime secs offset tm := by
  obtain ⟨y, m, d, hdate, hy, hm, hd⟩ := daysToCivil_date (secs / 86400)
  obtain ⟨hge, hlt⟩ := hdate.inYear
  obtain ⟨hmin, hmax⟩ := hyear y hdate.inYear
  obtain ⟨hmonth, hfirst, hlast, heq⟩ := hdate
  have hyears := yearStart_succ y
  obtain ⟨days, hbefore, hmonths⟩ := before_eq y hmonth
  have hfields : brokenDown secs offset = some {
      tmSec := secs % 86400 % 60
      tmMin := secs % 86400 % 3600 / 60
      tmHour := secs % 86400 / 3600
      tmMday := d
      tmMon := m
      tmYear := y - 1900
      tmWday := (secs / 86400 + 4) % 7
      tmYday := secs / 86400 - yearStart y
      tmIsdst := 0
      tmGmtoff := offset } := by
    unfold brokenDown
    dsimp only
    rw [(brokenDown_days secs).1, (brokenDown_days secs).2, hy, hm, hd, hbefore,
      weekday_eq, Int.tmod_eq_emod_of_nonneg (by omega), Int.tmod_eq_emod_of_nonneg (by omega),
      Int.tdiv_eq_ediv_of_nonneg (by omega), Int.tdiv_eq_ediv_of_nonneg (by omega),
      cInt_eq (by omega) (by omega), cInt_eq (by omega) (by omega),
      cInt_eq (by omega) (by omega), cInt_eq (by omega) (by omega),
      cInt_eq (by omega) (by omega)]
    rw [Option.bind_eq_bind, Option.bind_some]
    congr 2
    omega
  have hround : y - 1900 + 1900 = y := by omega
  refine ⟨_, hfields, ?_⟩
  exact {
    sec := by
      show 0 ≤ secs % 86400 % 60 ∧ secs % 86400 % 60 ≤ 59
      omega
    min := by
      show 0 ≤ secs % 86400 % 3600 / 60 ∧ secs % 86400 % 3600 / 60 ≤ 59
      omega
    hour := by
      show 0 ≤ secs % 86400 / 3600 ∧ secs % 86400 / 3600 ≤ 23
      omega
    mon := by
      show 0 ≤ (m : Int) ∧ (m : Int) ≤ 11
      omega
    mday := by
      show 1 ≤ d ∧ d ≤ monthLength (y - 1900 + 1900) m
      rw [hround]
      exact ⟨hfirst, hlast⟩
    back := by
      show (((yearStart (y - 1900 + 1900) + monthStart (y - 1900 + 1900) m + (d - 1)) * 24 +
        secs % 86400 / 3600) * 60 + secs % 86400 % 3600 / 60) * 60 + secs % 86400 % 60 = secs
      rw [hround, ← heq]
      omega
    wday := rfl
    yday := by
      show secs / 86400 - yearStart y = secs / 86400 - yearStart (y - 1900 + 1900)
      rw [hround]
    ydayRange := by
      show 0 ≤ secs / 86400 - yearStart y ∧
        secs / 86400 - yearStart y < yearLength (y - 1900 + 1900)
      rw [hround]
      omega
    gmtoff := rfl }

/-- 12:34:56 on a leap day, a Thursday. -/
example : (brokenDown 1709210096 0).map (fun tm => (tm.year, tm.tmMon, tm.tmMday, tm.tmWday)) =
    some (2024, 1, 29, 4) := by decide

/-- The local time of a second is its proleptic Gregorian date, on the platform's offset or none,
    where the sum is one of the type and the year is an `int`. -/
theorem localtime_gregorian (utcOffset : Int64 → Option Int32) (clock : Int64)
    (hfits : -0x8000000000000000 ≤ clock.toInt + ((utcOffset clock).getD 0).toInt ∧
      clock.toInt + ((utcOffset clock).getD 0).toInt < 0x8000000000000000)
    (hyear : ∀ year, InYear year ((clock.toInt + ((utcOffset clock).getD 0).toInt) / 86400) →
      -0x80000000 ≤ year - 1900 ∧ year - 1900 < 0x80000000) :
    ∃ tm, localtimeR utcOffset (some clock) true = some (some tm) ∧
      IsLocalTime (clock.toInt + ((utcOffset clock).getD 0).toInt)
        ((utcOffset clock).getD 0).toInt tm := by
  obtain ⟨tm, htm, hlocal⟩ := brokenDown_isLocalTime _ ((utcOffset clock).getD 0).toInt hyear
  refine ⟨tm, ?_, hlocal⟩
  have hsecs := fits64_eq_some.mpr ⟨hfits, rfl⟩
  unfold localtimeR
  rw [Option.elim_some, if_pos rfl]
  simp only [Option.bind_eq_bind]
  rw [hsecs, Option.bind_some, htm, Option.bind_some]

/-- The second before 1970. -/
theorem localtime_gregorian_before : ∃ tm,
    localtimeR (fun _ => none) (some (-1)) true = some (some tm) ∧ IsLocalTime (-1) 0 tm := by
  refine localtime_gregorian (fun _ => none) (-1) ⟨by decide, by decide⟩ fun year hin => ?_
  have hlast : InYear 1969 (((-1 : Int64).toInt + ((none : Option Int32).getD 0).toInt) / 86400) :=
    ⟨by decide, by decide⟩
  rw [hin.unique hlast]
  exact ⟨by decide, by decide⟩

end OopsMesa.Runtime
