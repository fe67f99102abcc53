/-
  Timed waits, from a deadline to the timeout the vendor call takes.

  POSIX gives `pthread_cond_timedwait` and `pthread_mutex_timedlock` a deadline, and the vendor
  calls take microseconds from now, as an `unsigned int`. The difference is made in `int64_t`: the
  seconds times a million, and the nanoseconds by a thousand, rounded toward zero; then it is
  clamped at both ends. A deadline that has passed is a wait of 0 whatever the nanoseconds
  (`usecTo_nonpos`). One that has not is waited for in full, up to the longest wait there is,
  where its nanoseconds are not ahead by a part of a microsecond (`timedwait_not_early`).

  A condition variable may be made for another clock than CLOCK_REALTIME. The selection is passed
  to the vendor, and the wait reads CLOCK_REALTIME all the same (`timedwait_on_clock_iff`).
-/
import Mathlib.Logic.Function.Basic
import OopsMesa.Lib.Trunc

namespace OopsMesa.Runtime

open OopsMesa.Lib

/-! ## The code -/

/-- The codes of the platform's errno.h that are used here. -/
def EINVAL : Nat := 22
def ENOSYS : Nat := 78
def ETIMEDOUT : Nat := 60

/-- The vendor's own ETIMEDOUT. -/
def sceETIMEDOUT : UInt32 := 0x8002003c

/-- `to_errno` -/
def toErrno (rc : UInt32) : Nat :=
  if rc = 0 then 0
  else if rc &&& 0xffff0000 = 0x80020000 then (rc &&& 0xffff).toNat
  else EINVAL

/-- `struct timespec` -/
structure Timespec where
  tvSec : Int64
  tvNsec : Int64
  deriving DecidableEq

/-- `clockid_t` -/
abbrev ClockId := Int32

/-- `CLOCK_REALTIME` -/
def clockRealtime : ClockId := 0

/-- `UINT32_MAX` -/
def uint32Max : Int := 0xffffffff

/-- `usec`, from the differences to the clamps. -/
def relativeUsec (deadline now : Timespec) : Option UInt32 := do
  let sec ← fits64 (deadline.tvSec.toInt - now.tvSec.toInt)
  let secUsec ← fits64 (sec * 1000000)
  let nsec ← fits64 (deadline.tvNsec.toInt - now.tvNsec.toInt)
  let usec ← fits64 (secUsec + nsec.tdiv 1000)
  let usec := if usec < 0 then 0 else usec
  let usec := if usec > uint32Max then uint32Max else usec
  some (UInt32.ofNat usec.toNat)

/-- What a timed wait comes to: it fails, or makes the vendor call. -/
inductive Timed where
  | fails (errno : Nat)
  | waits (usec : UInt32)
  deriving DecidableEq

/-- The body that the two share. `bound` is whether the vendor call is there, and `clockGettime`
    what `clock_gettime` reads; nothing where a sum overflows. -/
def timedCall (bound : Bool) (deadline : Option Timespec)
    (clockGettime : ClockId → Option Timespec) : Option Timed :=
  if !bound then some (.fails ENOSYS)
  else
    match deadline with
    | none => some (.fails EINVAL)
    | some deadline =>
      match clockGettime clockRealtime with
      | none => some (.fails EINVAL)
      | some now => (relativeUsec deadline now).map .waits

/-- `pthread_cond_timedwait`, up to the vendor call. -/
def pthreadCondTimedwait (scePthreadCondTimedwait : Bool) (deadline : Option Timespec)
    (clockGettime : ClockId → Option Timespec) : Option Timed :=
  timedCall scePthreadCondTimedwait deadline clockGettime

/-- `pthread_mutex_timedlock`, up to the vendor call. -/
def pthreadMutexTimedlock (scePthreadMutexTimedlock : Bool) (deadline : Option Timespec)
    (clockGettime : ClockId → Option Timespec) : Option Timed :=
  timedCall scePthreadMutexTimedlock deadline clockGettime

/-- What either returns; `vendor` is the answer of the vendor call. -/
def Timed.ret (vendor : UInt32 → UInt32) : Timed → Nat
  | .fails errno => errno
  | .waits usec => toErrno (vendor usec)

/-! ## The statement -/

/-- A time as nanoseconds. -/
def Timespec.ns (t : Timespec) : Int := t.tvSec.toInt * 1000000000 + t.tvNsec.toInt

/-- The nanoseconds are less than a second. -/
def Timespec.Normalised (t : Timespec) : Prop :=
  0 ≤ t.tvNsec.toInt ∧ t.tvNsec.toInt < 1000000000

/-- The microseconds to the deadline as the code makes them, before the clamps. -/
def usecTo (deadline now : Timespec) : Int :=
  (deadline.tvSec.toInt - now.tvSec.toInt) * 1000000 +
    (deadline.tvNsec.toInt - now.tvNsec.toInt).tdiv 1000

/-- Nothing overflows on the way: not the seconds times a million, and not the sum. -/
def NoOverflow (deadline now : Timespec) : Prop :=
  (-0x8000000000000000 ≤ (deadline.tvSec.toInt - now.tvSec.toInt) * 1000000 ∧
    (deadline.tvSec.toInt - now.tvSec.toInt) * 1000000 < 0x8000000000000000) ∧
  -0x8000000000000000 ≤ usecTo deadline now ∧ usecTo deadline now < 0x8000000000000000

/-- The nanoseconds of the deadline are not ahead by a part of a microsecond. -/
def WholeMicroseconds (deadline now : Timespec) : Prop :=
  deadline.tvNsec.toInt ≤ now.tvNsec.toInt ∨
    1000 ∣ deadline.tvNsec.toInt - now.tvNsec.toInt

/-- When a wait of `usec` from `now` on times out. -/
def expiry (now : Timespec) (usec : UInt32) : Int := now.ns + 1000 * usec.toNat

variable {deadline now : Timespec} {usec : UInt32}

/-! ## The arithmetic -/

/-- The clamps, on the microseconds. -/
def clampUsec (x : Int) : UInt32 :=
  UInt32.ofNat (if (if x < 0 then 0 else x) > uint32Max then uint32Max
    else if x < 0 then 0 else x).toNat

theorem clampUsec_toNat (x : Int) :
    ((clampUsec x).toNat : Int) = if x < 0 then 0 else if x > 0xffffffff then 0xffffffff else x := by
  have hnat : ∀ y : Int, 0 ≤ y → y ≤ 0xffffffff → ((UInt32.ofNat y.toNat).toNat : Int) = y := by
    intro y h0 h1
    rw [UInt32.toNat_ofNat_of_lt' (by rw [show UInt32.size = 4294967296 from rfl]; omega)]
    omega
  unfold clampUsec uint32Max
  by_cases h0 : x < 0
  · simp only [if_pos h0]
    rfl
  · simp only [if_neg h0]
    by_cases h1 : x > 0xffffffff
    · simp only [if_pos h1]
      exact hnat _ (by omega) (by omega)
    · simp only [if_neg h1]
      exact hnat _ (by omega) (by omega)

/-- A wait of no time or less is none. -/
theorem clampUsec_nonpos {x : Int} (h : x ≤ 0) : clampUsec x = 0 := by
  have hclamp := clampUsec_toNat x
  apply UInt32.toNat_inj.mp
  rw [show (0 : UInt32).toNat = 0 from rfl]
  split_ifs at hclamp <;> omega

/-- The timeout, where there is one. -/
theorem relativeUsec_eq_some (hd : deadline.Normalised) (hn : now.Normalised) :
    relativeUsec deadline now = some usec ↔
      NoOverflow deadline now ∧ usec = clampUsec (usecTo deadline now) := by
  obtain ⟨hd0, hd1⟩ := hd
  obtain ⟨hn0, hn1⟩ := hn
  unfold relativeUsec NoOverflow usecTo
  simp only [Option.bind_eq_bind, Option.bind_eq_some_iff, fits64_eq_some]
  constructor
  · rintro ⟨_, ⟨-, rfl⟩, _, ⟨hsec, rfl⟩, _, ⟨-, rfl⟩, _, ⟨husec, rfl⟩, h⟩
    exact ⟨⟨hsec, husec⟩, (Option.some.inj h).symm⟩
  · rintro ⟨⟨hsec, husec⟩, rfl⟩
    exact ⟨_, ⟨by omega, rfl⟩, _, ⟨hsec, rfl⟩, _, ⟨by omega, rfl⟩, _, ⟨husec, rfl⟩, rfl⟩

/-- The microseconds are those to the deadline, rounded one way or the other. -/
theorem usecTo_bounds (deadline now : Timespec) :
    deadline.ns - now.ns - 1000 < 1000 * usecTo deadline now ∧
      1000 * usecTo deadline now < deadline.ns - now.ns + 1000 := by
  have h := tdiv_cases (deadline.tvNsec.toInt - now.tvNsec.toInt) (b := 1000) (by decide)
  unfold usecTo Timespec.ns
  omega

/-- A deadline that has passed is not waited for. -/
theorem usecTo_nonpos (h : deadline.ns ≤ now.ns) : usecTo deadline now ≤ 0 := by
  have hb := usecTo_bounds deadline now
  omega

/-- The microseconds are not short of the deadline exactly where its nanoseconds are not ahead by
    a part of one. -/
theorem le_usecTo_iff (deadline now : Timespec) :
    deadline.ns - now.ns ≤ 1000 * usecTo deadline now ↔ WholeMicroseconds deadline now := by
  have h := tdiv_cases (deadline.tvNsec.toInt - now.tvNsec.toInt) (b := 1000) (by decide)
  unfold usecTo Timespec.ns WholeMicroseconds
  omega

/-- A deadline that has not passed comes to no microseconds only within the second, and the
    microsecond. -/
theorem usecTo_eq_zero_iff (hd : deadline.Normalised) (hn : now.Normalised)
    (h : now.ns < deadline.ns) : usecTo deadline now ≤ 0 ↔
      deadline.tvSec = now.tvSec ∧ deadline.ns - now.ns < 1000 := by
  have hdiv := tdiv_cases (deadline.tvNsec.toInt - now.tvNsec.toInt) (b := 1000) (by decide)
  obtain ⟨hd0, hd1⟩ := hd
  obtain ⟨hn0, hn1⟩ := hn
  rw [← Int64.toInt_inj]
  unfold usecTo Timespec.ns at *
  omega

/-! ## How long a timed wait waits -/

/-- ETIMEDOUT is the vendor's own answer. -/
theorem toErrno_eq_ETIMEDOUT {rc : UInt32} : toErrno rc = ETIMEDOUT ↔ rc = sceETIMEDOUT := by
  constructor
  · intro h
    unfold toErrno at h
    split_ifs at h with h0 hv
    · exact nomatch h
    · have hlow : rc.toNat &&& 0xffff = 0x3c := by rwa [UInt32.toNat_and] at h
      have hhigh : rc.toNat &&& 0xffff0000 = 0x80020000 := by
        rw [← UInt32.toNat_inj, UInt32.toNat_and] at hv
        exact hv
      have hall : rc.toNat &&& (0xffff0000 ||| 0xffff) = rc.toNat :=
        Nat.and_two_pow_sub_one_of_lt_two_pow rc.toNat_lt
      apply UInt32.toNat_inj.mp
      rw [← hall, Nat.and_or_distrib_left, hhigh, hlow]
      rfl
    · exact nomatch h
  · rintro rfl
    rfl

/-- With the vendor call there, a deadline given and the clock read, both make the call with the
    timeout computed. -/
theorem timedwait_eq (deadline : Timespec) {clock : ClockId → Option Timespec}
    (h : clock clockRealtime = some now) :
    pthreadCondTimedwait true (some deadline) clock = (relativeUsec deadline now).map .waits ∧
      pthreadMutexTimedlock true (some deadline) clock =
        (relativeUsec deadline now).map .waits := by
  unfold pthreadCondTimedwait pthreadMutexTimedlock timedCall
  rw [h]
  exact ⟨rfl, rfl⟩

theorem timedwait_waits (hd : deadline.Normalised) (hn : now.Normalised)
    {clock : ClockId → Option Timespec} (h : clock clockRealtime = some now) :
    pthreadCondTimedwait true (some deadline) clock = some (.waits usec) ↔
      NoOverflow deadline now ∧ usec = clampUsec (usecTo deadline now) := by
  rw [(timedwait_eq deadline h).1, ← relativeUsec_eq_some hd hn, Option.map_eq_some_iff]
  constructor
  · rintro ⟨u, hu, hw⟩
    rw [hu, Timed.waits.inj hw]
  · intro hu
    exact ⟨usec, hu, rfl⟩

/-- What was claimed of the timeout, where it is right: nothing overflows, and the deadline has
    passed or is in whole microseconds and at most the longest wait away. -/
theorem timeout_covers_iff (hd : deadline.Normalised) (hn : now.Normalised) :
    (∃ usec, relativeUsec deadline now = some usec ∧ (deadline.ns ≤ now.ns → usec = 0) ∧
        (now.ns < deadline.ns → deadline.ns ≤ expiry now usec)) ↔
      NoOverflow deadline now ∧ (deadline.ns ≤ now.ns ∨
        WholeMicroseconds deadline now ∧ deadline.ns - now.ns ≤ 1000 * uint32Max) := by
  have hb := usecTo_bounds deadline now
  have hclamp := clampUsec_toNat (usecTo deadline now)
  have hwhole := le_usecTo_iff deadline now
  unfold expiry uint32Max
  constructor
  · rintro ⟨usec, husec, -, hcover⟩
    obtain ⟨hover, rfl⟩ := (relativeUsec_eq_some hd hn).mp husec
    refine ⟨hover, ?_⟩
    by_cases hpast : deadline.ns ≤ now.ns
    · exact .inl hpast
    · have hle := hcover (by omega)
      right
      rw [← hwhole]
      split_ifs at hclamp <;> omega
  · rintro ⟨hover, hcase⟩
    refine ⟨_, (relativeUsec_eq_some hd hn).mpr ⟨hover, rfl⟩, fun hpast => ?_, fun hahead => ?_⟩
    · exact clampUsec_nonpos (usecTo_nonpos hpast)
    · rw [← hwhole] at hcase
      split_ifs at hclamp <;> omega

/-- A timed wait does not expire before its deadline, or the longest wait there is, where nothing
    overflows and the deadline's nanoseconds are not ahead by a part of a microsecond; it does not
    wait for one that has passed; and it returns ETIMEDOUT when the vendor call has. -/
theorem timedwait_not_early (hd : deadline.Normalised) (hn : now.Normalised)
    (hover : NoOverflow deadline now) (clock : ClockId → Option Timespec)
    (hclock : clock clockRealtime = some now) :
    ∃ usec, pthreadCondTimedwait true (some deadline) clock = some (.waits usec) ∧
      pthreadMutexTimedlock true (some deadline) clock = some (.waits usec) ∧
      (deadline.ns ≤ now.ns → usec = 0) ∧
      (now.ns < deadline.ns → WholeMicroseconds deadline now →
        deadline.ns ≤ expiry now usec ∨ expiry now usec = now.ns + 1000 * uint32Max) ∧
      ∀ vendor, (Timed.waits usec).ret vendor = ETIMEDOUT ↔ vendor usec = sceETIMEDOUT := by
  have husec := (relativeUsec_eq_some hd hn).mpr ⟨hover, rfl⟩
  obtain ⟨hcond, hmutex⟩ := timedwait_eq deadline hclock
  rw [husec] at hcond hmutex
  have hclamp := clampUsec_toNat (usecTo deadline now)
  refine ⟨_, hcond, hmutex, fun hpast => ?_, fun hahead hwhole => ?_,
    fun vendor => toErrno_eq_ETIMEDOUT⟩
  · exact clampUsec_nonpos (usecTo_nonpos hpast)
  · rw [← le_usecTo_iff] at hwhole
    unfold expiry uint32Max
    split_ifs at hclamp <;> omega

/-- `sec` seconds. -/
def atSeconds (sec : Int64) : Timespec := ⟨sec, 0⟩

theorem timedwait_not_early_second : ∃ usec,
    pthreadCondTimedwait true (some (atSeconds 8)) (fun _ => some (atSeconds 7)) =
      some (.waits usec) ∧ (atSeconds 8).ns ≤ expiry (atSeconds 7) usec := by
  have hd : (atSeconds 8).Normalised := ⟨by decide, by decide⟩
  have hn : (atSeconds 7).Normalised := ⟨by decide, by decide⟩
  obtain ⟨usec, hcond, -, -, hcover, -⟩ := timedwait_not_early hd hn
    ⟨⟨by decide, by decide⟩, by decide, by decide⟩ (fun _ => some (atSeconds 7)) rfl
  refine ⟨usec, hcond, (hcover (by decide) (.inl (by decide))).resolve_right fun hmax => ?_⟩
  obtain ⟨-, rfl⟩ := (timedwait_waits hd hn rfl).mp hcond
  exact absurd hmax (by decide)

/-- A deadline 5000 seconds away is given up 705 seconds early. -/
theorem not_timedwait_not_early :
    ¬ ∀ deadline now : Timespec, deadline.Normalised → now.Normalised →
      ∃ usec, pthreadCondTimedwait true (some deadline) (fun _ => some now) = some (.waits usec) ∧
        (deadline.ns ≤ now.ns → usec = 0) ∧
        (now.ns < deadline.ns → deadline.ns ≤ expiry now usec) := by
  intro h
  have hd : (atSeconds 5000).Normalised := ⟨by decide, by decide⟩
  have hn : (atSeconds 0).Normalised := ⟨by decide, by decide⟩
  obtain ⟨usec, hcond, -, hcover⟩ := h _ _ hd hn
  obtain ⟨-, rfl⟩ := (timedwait_waits hd hn rfl).mp hcond
  exact absurd (hcover (by decide)) (by decide)

/-! ## The clock of a condition variable -/

/-- What a call that only passes the vendor's answer on returns; there is no answer where the
    vendor call is not there. -/
def passOn (answer : Option UInt32) : Nat := (answer.map toErrno).getD ENOSYS

/-- The calls that make attributes and condition variables: `pthread_condattr_init`,
    `pthread_condattr_setclock`, and `pthread_cond_init` with an attribute or none. -/
inductive CondCall where
  | attrInit (attr : Nat) (answer : Option UInt32)
  | attrSetclock (attr : Nat) (clock : ClockId) (answer : Option UInt32)
  | condInit (cond : Nat) (attr : Option Nat) (answer : Option UInt32)
  deriving DecidableEq

/-- The clock that each attribute and each condition variable was given. -/
structure CondClocks where
  attr : Nat → ClockId
  cond : Nat → ClockId

/-- CLOCK_REALTIME, where no call has said otherwise. -/
def CondClocks.init : CondClocks := ⟨fun _ => clockRealtime, fun _ => clockRealtime⟩

/-- What a call that returns 0 has selected. -/
def CondClocks.after (s : CondClocks) : CondCall → CondClocks
  | .attrInit attr answer =>
    if passOn answer = 0 then { s with attr := Function.update s.attr attr clockRealtime } else s
  | .attrSetclock attr clock answer =>
    if passOn answer = 0 then { s with attr := Function.update s.attr attr clock } else s
  | .condInit cond attr answer =>
    if passOn answer = 0 then
      { s with cond := Function.update s.cond cond ((attr.map s.attr).getD clockRealtime) }
    else s

/-- The clock a condition variable was made with, after a history of calls. -/
def selectedClock (calls : List CondCall) (cond : Nat) : ClockId :=
  (calls.foldl CondClocks.after .init).cond cond

/-- `usec` is about `ahead` nanoseconds, and not 0 unless nothing is left to wait for. -/
def WaitsFor (usec : UInt32) (ahead : Int) : Prop :=
  (ahead ≤ 0 → usec = 0) ∧
    (0 < ahead → usec ≠ 0 ∧ -1000 < 1000 * (usec.toNat : Int) - ahead ∧
      1000 * (usec.toNat : Int) - ahead < 1000)

/-- Whatever the clocks read but CLOCK_REALTIME, a wait on the variable is for what is left on its
    own clock. -/
def WaitsOnOwnClock (calls : List CondCall) (cond : Nat) (deadline rt : Timespec) : Prop :=
  ∀ clock : ClockId → Timespec, (∀ k, (clock k).Normalised) → clock clockRealtime = rt →
    ∃ usec, pthreadCondTimedwait true (some deadline) (fun k => some (clock k)) =
        some (.waits usec) ∧
      WaitsFor usec (deadline.ns - (clock (selectedClock calls cond)).ns)

/-- There is no earlier time. -/
def Timespec.Earliest (t : Timespec) : Prop :=
  t.tvSec.toInt = -0x8000000000000000 ∧ t.tvNsec.toInt = 0

/-- The time a nanosecond before. -/
theorem exists_before (hd : deadline.Normalised) (h : ¬ deadline.Earliest) :
    ∃ t : Timespec, t.Normalised ∧ t.ns = deadline.ns - 1 := by
  have hmin := deadline.tvSec.le_toInt
  have hmax := deadline.tvSec.toInt_lt
  obtain ⟨h0, h1⟩ := hd
  unfold Timespec.Earliest at h
  by_cases hz : deadline.tvNsec.toInt = 0
  · have hs : (Int64.ofInt (deadline.tvSec.toInt - 1)).toInt = deadline.tvSec.toInt - 1 :=
      Int64.toInt_ofInt_of_le (by omega) (by omega)
    have hn : (999999999 : Int64).toInt = 999999999 := by decide
    refine ⟨⟨Int64.ofInt (deadline.tvSec.toInt - 1), 999999999⟩, ?_, ?_⟩
    · unfold Timespec.Normalised
      dsimp only
      rw [hn]
      omega
    · unfold Timespec.ns
      dsimp only
      rw [hs, hz, hn]
      omega
  · have hs : (Int64.ofInt (deadline.tvNsec.toInt - 1)).toInt = deadline.tvNsec.toInt - 1 :=
      Int64.toInt_ofInt_of_le (by omega) (by omega)
    refine ⟨⟨deadline.tvSec, Int64.ofInt (deadline.tvNsec.toInt - 1)⟩, ?_, ?_⟩
    · unfold Timespec.Normalised
      dsimp only
      rw [hs]
      omega
    · unfold Timespec.ns
      dsimp only
      rw [hs]
      omega

theorem earliest_le (h : deadline.Earliest) {t : Timespec} (ht : t.Normalised) :
    deadline.ns ≤ t.ns := by
  have hmin := t.tvSec.le_toInt
  obtain ⟨hs, hz⟩ := h
  have h0 := ht.1
  unfold Timespec.ns
  omega

/-- Waiting on CLOCK_REALTIME is waiting for what is left, but for a deadline less than a
    microsecond away within the second, and one further than the longest wait. -/
theorem clampUsec_waitsFor (hd : deadline.Normalised) (hn : now.Normalised) :
    WaitsFor (clampUsec (usecTo deadline now)) (deadline.ns - now.ns) ↔
      deadline.ns ≤ now.ns ∨ deadline.ns - now.ns < 1000 * 0x100000000 ∧
        ¬ (deadline.tvSec = now.tvSec ∧ deadline.ns - now.ns < 1000) := by
  have hb := usecTo_bounds deadline now
  have hclamp := clampUsec_toNat (usecTo deadline now)
  have hzero : clampUsec (usecTo deadline now) = 0 ↔
      (clampUsec (usecTo deadline now)).toNat = 0 := UInt32.toNat_inj.symm
  unfold WaitsFor
  rw [hzero, ne_eq, hzero]
  by_cases hpast : deadline.ns ≤ now.ns
  · have hle := usecTo_nonpos hpast
    refine ⟨fun _ => .inl hpast, fun _ => ⟨fun _ => ?_, fun hahead => by omega⟩⟩
    split_ifs at hclamp <;> omega
  · have hz := usecTo_eq_zero_iff hd hn (by omega)
    constructor
    · rintro ⟨-, hwaits⟩
      obtain ⟨hne, hlow, hhigh⟩ := hwaits (by omega)
      right
      rw [← hz]
      split_ifs at hclamp <;> omega
    · intro hcase
      rw [← hz] at hcase
      refine ⟨fun h => by omega, fun hahead => ?_⟩
      split_ifs at hclamp <;> omega

/-- A wait is for what is left on the variable's own clock exactly where that is CLOCK_REALTIME,
    nothing overflows, and the deadline has passed or is away by a microsecond or in another
    second, and by no more than the longest wait; or where the deadline is the earliest there
    is. -/
theorem timedwait_on_clock_iff (calls : List CondCall) (cond : Nat) {deadline rt : Timespec}
    (hd : deadline.Normalised) (hrt : rt.Normalised) :
    WaitsOnOwnClock calls cond deadline rt ↔
      NoOverflow deadline rt ∧ (deadline.Earliest ∨ selectedClock calls cond = clockRealtime ∧
        (deadline.ns ≤ rt.ns ∨ deadline.ns - rt.ns < 1000 * 0x100000000 ∧
          ¬ (deadline.tvSec = rt.tvSec ∧ deadline.ns - rt.ns < 1000))) := by
  unfold WaitsOnOwnClock
  generalize selectedClock calls cond = own
  constructor
  · intro h
    have hall : ∀ t : Timespec, t.Normalised → (own = clockRealtime → t = rt) →
        NoOverflow deadline rt ∧
          WaitsFor (clampUsec (usecTo deadline rt)) (deadline.ns - t.ns) := by
      intro t ht hown
      obtain ⟨usec, hcond, hwaits⟩ := h (fun k => if k = clockRealtime then rt else t)
        (fun k => by split; exacts [hrt, ht]) (if_pos rfl)
      obtain ⟨hover, rfl⟩ := (timedwait_waits hd hrt (congrArg some (if_pos rfl))).mp hcond
      refine ⟨hover, ?_⟩
      by_cases hk : own = clockRealtime
      · rw [if_pos hk] at hwaits
        rw [hown hk]
        exact hwaits
      · rw [if_neg hk] at hwaits
        exact hwaits
    by_cases hown : own = clockRealtime
    · obtain ⟨hover, hwaits⟩ := hall rt hrt fun _ => rfl
      exact ⟨hover, .inr ⟨hown, (clampUsec_waitsFor hd hrt).mp hwaits⟩⟩
    · -- the other clock may have come to the deadline, and may stand just before it
      obtain ⟨hover, hnow⟩ := hall deadline hd fun hk => absurd hk hown
      refine ⟨hover, .inl ?_⟩
      by_contra hearly
      obtain ⟨t, ht, hns⟩ := exists_before hd hearly
      obtain ⟨-, hbefore⟩ := hall t ht fun hk => absurd hk hown
      exact (hbefore.2 (by omega)).1 (hnow.1 (by omega))
  · rintro ⟨hover, hcase⟩ clock hnorm hclock
    refine ⟨_, (timedwait_waits hd hrt (congrArg some hclock)).mpr ⟨hover, rfl⟩, ?_⟩
    obtain hearly | ⟨rfl, hcase⟩ := hcase
    · have hown := earliest_le hearly (hnorm own)
      have hzero := clampUsec_nonpos (usecTo_nonpos (earliest_le hearly hrt))
      exact ⟨fun _ => hzero, fun hahead => by omega⟩
    · rw [hclock]
      exact (clampUsec_waitsFor hd hrt).mpr hcase

/-- A monotonic clock, of another number than CLOCK_REALTIME. -/
def clockMonotonic : ClockId := 4

/-- An attribute for the monotonic clock, and a condition variable made with it. -/
def monotonicCond : List CondCall :=
  [.attrInit 0 (some 0), .attrSetclock 0 clockMonotonic (some 0), .condInit 0 (some 0) (some 0)]

/-- After it a second variable, made with the attribute as it is set back to CLOCK_REALTIME. -/
def bothConds : List CondCall :=
  monotonicCond ++ [.attrSetclock 0 clockRealtime (some 0), .condInit 1 (some 0) (some 0)]

/-- The second variable waits on its own clock, and the first, made before the attribute was set
    back, does not. -/
theorem timedwait_on_clock_iff_both :
    WaitsOnOwnClock bothConds 1 (atSeconds 8) (atSeconds 7) ∧
      ¬ WaitsOnOwnClock bothConds 0 (atSeconds 8) (atSeconds 7) := by
  have hd : (atSeconds 8).Normalised := ⟨by decide, by decide⟩
  have hrt : (atSeconds 7).Normalised := ⟨by decide, by decide⟩
  constructor
  · have hover : NoOverflow (atSeconds 8) (atSeconds 7) :=
      ⟨⟨by decide, by decide⟩, by decide, by decide⟩
    exact (timedwait_on_clock_iff bothConds 1 hd hrt).mpr
      ⟨hover, .inr ⟨rfl, .inr ⟨by decide, fun h => absurd h.1 (by decide)⟩⟩⟩
  · intro hwaits
    obtain ⟨-, hearly | ⟨hclock, -⟩⟩ := (timedwait_on_clock_iff bothConds 0 hd hrt).mp hwaits
    · exact absurd hearly.1 (by decide)
    · exact absurd hclock (by decide)

/-- A deadline of five seconds from now on the monotonic clock, an hour and more after the epoch:
    the wait is of 0. -/
theorem not_timedwait_on_clock :
    ¬ ∀ (calls : List CondCall) (cond : Nat) (deadline rt : Timespec), deadline.Normalised →
      rt.Normalised → WaitsOnOwnClock calls cond deadline rt := by
  intro h
  have hd : (atSeconds 105).Normalised := ⟨by decide, by decide⟩
  have hrt : (atSeconds 4000).Normalised := ⟨by decide, by decide⟩
  have hmono : (atSeconds 100).Normalised := ⟨by decide, by decide⟩
  obtain ⟨usec, hcond, hwaits⟩ := h monotonicCond 0 _ _ hd hrt
    (fun k => if k = clockRealtime then atSeconds 4000 else atSeconds 100)
    (fun k => by split; exacts [hrt, hmono]) rfl
  obtain ⟨-, rfl⟩ := (timedwait_waits hd hrt rfl).mp hcond
  exact absurd (hwaits.2 (by decide)).1 (by decide)

end OopsMesa.Runtime
