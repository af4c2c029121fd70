/-
# The SNTP clock

Between two SNTP updates the time is derived from the RTC counter, a 32-bit register
that runs at an uncalibrated rate of some 170 kHz. An update stores, in scratch
registers, a calibration value (microseconds per tick, with 12 binary places), the
counter and the time as a number of ticks. A read adds the ticks since then and
converts back.

The counter is given here as the true number of ticks, which the register holds
modulo `2 ^ 32`. The base is an unsigned 64-bit number.
-/

import Mathlib.Data.Int.ModEq
import Mathlib.Data.List.Chain

namespace EspOpenRtos.Sntp

/-- `struct timezone`. -/
structure Timezone where
  minuteswest : ℤ
  dsttime : ℤ

/-- The scratch registers `sntp_base`, `tim_ref` and `cal`. -/
structure Rtc where
  sntpBase : ℕ
  timRef : ℕ
  cal : ℕ

/-- Conversion to `uint64_t`. -/
def u64 (n : ℤ) : ℕ := (n % 2 ^ 64).toNat

/-- `TIMER_COUNT`. -/
def timerCount (ticks : ℕ) : ℕ := ticks % 2 ^ 32

/-- The daylight and timezone correction in `sntp_update_rtc`. -/
def correctedTime (stz : Timezone) (t : ℤ) : ℤ := t + (stz.minuteswest + stz.dsttime * 60) * 60

/-- `sntp_update_rtc`, with the calibration value that the SDK reports. -/
def sntpUpdateRtc (stz : Timezone) (t : ℤ) (us ticks cali : ℕ) : Rtc where
  cal := cali
  timRef := timerCount ticks
  sntpBase := u64 (u64 (us + u64 (correctedTime stz t) * 1000000) * 2 ^ 12) / cali

/-- `sntp_check_timer_wrap`. -/
def sntpCheckTimerWrap (s : Rtc) (currentValue : ℕ) : Rtc :=
  if currentValue < s.timRef then { s with sntpBase := u64 (s.sntpBase - 2 ^ 32) } else s

/-- The product of base and calibration value in `sntp_get_rtc_time`. -/
def scaledTime (s : Rtc) (tim : ℕ) : ℕ := u64 (u64 (s.sntpBase + tim - s.timRef) * s.cal)

/-- `sntp_get_rtc_time` with a pointer for the microseconds: the seconds and them. -/
def sntpGetRtcTime (s : Rtc) (ticks : ℕ) : Rtc × ℕ × ℕ :=
  let tim := timerCount ticks
  let s := sntpCheckTimerWrap s tim
  let scaled := scaledTime s tim
  (s, scaled / (1000000 * 2 ^ 12), scaled % (1000000 * 2 ^ 12) / 2 ^ 12)

/-- What reads in a row return. -/
def readTimes (s : Rtc) : List ℕ → List (ℕ × ℕ)
  | [] => []
  | ticks :: rest =>
    let (s, time) := sntpGetRtcTime s ticks
    time :: readTimes s rest

end EspOpenRtos.Sntp
