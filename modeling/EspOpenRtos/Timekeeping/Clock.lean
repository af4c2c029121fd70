/-
# The timekeeping clock

The system clock is a free-running 32-bit microsecond counter. Everything
above it is done in software: an offset turns counter values into wall-clock
time, a detector adds one period to the offset when the counter has wrapped,
and `adjtime` slews the result at a fixed rate instead of stepping it.

Every read of the hardware counter is a separate argument of the function that
makes it, because the counter may advance, and wrap, between any two reads of
one call. The arguments are unreduced microsecond counts; the register sees
them modulo `2 ^ 32`.

Times and offsets are signed 64-bit microsecond counts in the source and integers
here. They agree as long as the times stay below `2 ^ 63`: the seconds that
`settimeofday` is given have to be below 9223372036854 by the time that passes
afterwards and by the slew, which is what `TimesFit` is proved from. The two 32-bit
quantities that are computed from wider ones are narrowed explicitly.
-/

import Mathlib.Tactic.Linarith

namespace EspOpenRtos.Timekeeping

/-- `struct timeval`, with the 64-bit `time_t` of the bundled C library. -/
structure Timeval where
  sec : ℤ
  usec : ℤ
  deriving DecidableEq, Repr

/-- The microseconds a `timeval` stands for. -/
def Timeval.micros (tv : Timeval) : ℤ := tv.sec * 1000000 + tv.usec

/-- The one error code these calls report. -/
inductive Errno
  | einval
  deriving DecidableEq, Repr

def systemClockWrapUs : ℤ := 0x100000000

/-- Microseconds of time needed to slew one microsecond. -/
def adjtimeSlewPeriod : ℤ := 2000

def adjtimeMaxSecsAllowed : ℤ := 2000

/-- The value of the 32-bit counter register after `count` microseconds. -/
def getSystemClockUs (count : ℕ) : ℕ := count % 2 ^ 32

/-- Conversion to `int32_t`. -/
def toInt32 (x : ℤ) : ℤ := x.bmod (2 ^ 32)

/-- `timekeeping_state`. A completion time of zero means that no slew is in
progress. -/
structure TimekeepingState where
  clockOffset : ℤ
  lastSystemClockValue : ℕ
  adjtimeDelta : ℤ
  slewStartTime : ℤ
  slewCompleteTime : ℤ
  deriving DecidableEq, Repr

/-- The slew period with the sign of the requested adjustment. -/
def signedAdjtimeSlewPeriod (st : TimekeepingState) : ℤ :=
  if st.adjtimeDelta < 0 then -adjtimeSlewPeriod else adjtimeSlewPeriod

def resetAdjtimeState (st : TimekeepingState) : TimekeepingState :=
  { st with adjtimeDelta := 0, slewStartTime := 0, slewCompleteTime := 0 }

/-- The wrap detector: compare a fresh sample with the last one recorded. -/
def detectWrap (st : TimekeepingState) (current : ℕ) : TimekeepingState :=
  { st with
    clockOffset :=
      if current < st.lastSystemClockValue then st.clockOffset + systemClockWrapUs
      else st.clockOffset
    lastSystemClockValue := current }

/-- `_check_system_clock`. The second sample is read only when a slew is in
progress. -/
def checkSystemClock (st : TimekeepingState) (first second : ℕ) : TimekeepingState :=
  let st := detectWrap st (getSystemClockUs first)
  if st.slewCompleteTime ≠ 0 ∧
      (getSystemClockUs second : ℤ) + st.clockOffset ≥ st.slewCompleteTime then
    resetAdjtimeState { st with clockOffset := st.clockOffset + st.adjtimeDelta }
  else st

/-- The argument check of `settimeofday`. -/
def Timeval.Settable (tv : Timeval) : Prop :=
  0 ≤ tv.usec ∧ tv.usec < 1000000 ∧ 0 ≤ tv.sec

instance (tv : Timeval) : Decidable tv.Settable :=
  inferInstanceAs (Decidable (_ ∧ _ ∧ _))

/-- `_settimeofday_r`. The first two samples belong to the clock check, the
third is the one the new offset is computed from. -/
def settimeofdayR (st : TimekeepingState) (tv : Option Timeval) (first second third : ℕ) :
    Option Errno × TimekeepingState :=
  let checked := checkSystemClock st first second
  match tv with
  | none => (none, checked)
  | some tv =>
    if tv.Settable then
      (none, resetAdjtimeState
        { checked with clockOffset := tv.micros - getSystemClockUs third })
    else (some .einval, checked)

/-- The time shown for a given unslewed clock value. -/
def internalClock (st : TimekeepingState) (systemPlusOffset : ℤ) : ℤ :=
  if st.slewCompleteTime = 0 then systemPlusOffset
  else systemPlusOffset +
    (systemPlusOffset - st.slewStartTime).tdiv (signedAdjtimeSlewPeriod st)

/-- Split a microsecond count as the C operators `/` and `%` do. -/
def toTimeval (micros : ℤ) : Timeval := ⟨micros.tdiv 1000000, micros.tmod 1000000⟩

/-- `_gettimeofday_r`. The first sample is taken before the clock check, whose
samples are the other two. `wanted` is false for a null `tv`. -/
def gettimeofdayR (st : TimekeepingState) (wanted : Bool) (first second third : ℕ) :
    Option Timeval × TimekeepingState :=
  let checked := checkSystemClock st second third
  if wanted then
    (some (toTimeval (internalClock checked (getSystemClockUs first + checked.clockOffset))),
      checked)
  else (none, checked)

/-- The argument check of `adjtime`. -/
def Timeval.Adjustable (delta : Timeval) : Prop :=
  -1000000 < delta.usec ∧ delta.usec < 1000000 ∧
    delta.sec ≤ adjtimeMaxSecsAllowed ∧ -adjtimeMaxSecsAllowed ≤ delta.sec

instance (delta : Timeval) : Decidable delta.Adjustable :=
  inferInstanceAs (Decidable (_ ∧ _ ∧ _ ∧ _))

/-- The remaining slew that `adjtime` reports in `olddelta`. -/
def remainingSlew (st : TimekeepingState) (systemPlusOffset : ℤ) : Timeval :=
  if st.slewCompleteTime = 0 then ⟨0, 0⟩
  else toTimeval (toInt32
    ((st.slewCompleteTime - systemPlusOffset).tdiv (signedAdjtimeSlewPeriod st)))

/-- Start a slew of `delta` at the given unslewed clock value. A slew already
in progress is overwritten. -/
def startSlew (st : TimekeepingState) (delta : Timeval) (systemPlusOffset : ℤ) :
    TimekeepingState :=
  let st := { st with
    adjtimeDelta := toInt32 delta.micros
    slewStartTime := systemPlusOffset }
  { st with
    slewCompleteTime := st.slewStartTime + st.adjtimeDelta * signedAdjtimeSlewPeriod st }

/-- `_adjtime_r`. Returns the error, what was stored in `olddelta` and the new
state. `delta` is `none` for a null pointer, and `wantsOld` is false when
`olddelta` is one. -/
def adjtimeR (st : TimekeepingState) (delta : Option Timeval) (wantsOld : Bool)
    (first second third : ℕ) : Option Errno × Option Timeval × TimekeepingState :=
  let checked := checkSystemClock st second third
  let systemPlusOffset := getSystemClockUs first + checked.clockOffset
  let old := if wantsOld then some (remainingSlew checked systemPlusOffset) else none
  match delta with
  | none => (none, old, checked)
  | some delta =>
    if delta.Adjustable then (none, old, startSlew checked delta systemPlusOffset)
    else (some .einval, none, checked)

/-! ## Elementary facts -/

/-- Splitting into seconds and microseconds loses nothing. -/
@[simp]
theorem micros_toTimeval (micros : ℤ) : (toTimeval micros).micros = micros := by
  simp only [toTimeval, Timeval.micros]
  rw [mul_comm]
  exact Int.mul_tdiv_add_tmod micros 1000000

/-- An accepted adjustment fits the 32-bit field it is stored in. -/
theorem toInt32_micros_of_adjustable {delta : Timeval} (accepted : delta.Adjustable) :
    toInt32 delta.micros = delta.micros := by
  obtain ⟨hlow, hhigh, hmax, hmin⟩ := accepted
  simp only [adjtimeMaxSecsAllowed] at hmax hmin
  simp only [toInt32, Timeval.micros]
  rw [Int.bmod_eq_of_le] <;> norm_num <;> omega

/-- The check always records the sample it compared. -/
@[simp]
theorem checkSystemClock_lastSystemClockValue (st : TimekeepingState) (first second : ℕ) :
    (checkSystemClock st first second).lastSystemClockValue = getSystemClockUs first := by
  simp only [checkSystemClock]
  split_ifs <;> rfl

/-- Without a slew the check only runs the wrap detector. -/
theorem checkSystemClock_of_no_slew {st : TimekeepingState} (idle : st.slewCompleteTime = 0)
    (first second : ℕ) :
    checkSystemClock st first second = detectWrap st (getSystemClockUs first) := by
  simp [checkSystemClock, detectWrap, idle]

/-- A slew whose completion time has been reached is folded into the offset. -/
theorem checkSystemClock_of_complete {st : TimekeepingState} {first second : ℕ}
    (running : st.slewCompleteTime ≠ 0)
    (reached : st.slewCompleteTime ≤ (getSystemClockUs second : ℤ) +
      (detectWrap st (getSystemClockUs first)).clockOffset) :
    checkSystemClock st first second =
      resetAdjtimeState { detectWrap st (getSystemClockUs first) with
        clockOffset := (detectWrap st (getSystemClockUs first)).clockOffset +
          st.adjtimeDelta } := by
  simp only [checkSystemClock]
  exact if_pos ⟨running, reached⟩

/-- A slew still in progress is left alone. -/
theorem checkSystemClock_of_running {st : TimekeepingState} {first second : ℕ}
    (early : (getSystemClockUs second : ℤ) +
      (detectWrap st (getSystemClockUs first)).clockOffset < st.slewCompleteTime) :
    checkSystemClock st first second = detectWrap st (getSystemClockUs first) := by
  simp only [checkSystemClock]
  exact if_neg fun ⟨_, hreached⟩ => absurd hreached (not_le.mpr early)

end EspOpenRtos.Timekeeping
