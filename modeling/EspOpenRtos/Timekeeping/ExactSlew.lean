/-
# Exact slewing

After the time was set, and with a single accepted adjustment, the clock can be
predicted to the microsecond: it shows the set time advanced by the counter,
plus or minus one microsecond for every slew period that has passed since the
adjustment, and the whole adjustment once that many periods have passed. What
`adjtime` reports as remaining is the rest of the slew.

The end of a slew is noticed by the next call only. That makes no difference,
because every call starts with the clock check: by the time a call uses the
state, a slew that is over has been folded into the offset. A completion time of
zero, which stands for no slew, arises from an empty adjustment at time zero
only, and that one is over at once.
-/

import EspOpenRtos.Math.Runs
import EspOpenRtos.Timekeeping.Slew

namespace EspOpenRtos.Timekeeping

open Math.Runs

namespace ClockCall

/-- The call reads the time or the remaining slew, and adjusts nothing. -/
def Reads : ClockCall → Prop
  | gettimeofday _ _ => True
  | adjtime delta _ _ => delta = none

/-- The state that a call leaves. -/
def step (st : TimekeepingState) (call : ClockCall) : TimekeepingState := (call.run st).2

theorem step_of_reads {call : ClockCall} (h : call.Reads) (st : TimekeepingState) :
    step st call = checkSystemClock st call.count call.count := by
  cases call with
  | gettimeofday wanted count =>
    simp only [step, run, gettimeofdayR, ClockCall.count]
    split <;> rfl
  | adjtime delta wantsOld count =>
    obtain rfl : delta = none := h
    rfl

end ClockCall

/-! ## The prediction -/

/-- The time to be shown at `now`, if it was set to `tv` at `set` and adjusted by
`adjustment` at `start`. -/
def slewedTime (tv : Timeval) (adjustment : ℤ) (set start now : ℕ) : ℤ :=
  tv.micros + (now - set) +
    if (now : ℤ) - start < 2000 * |adjustment| then adjustment.sign * ((now - start) / 2000)
    else adjustment

/-- The part of the adjustment that is still to be made at `now`. -/
def slewLeft (adjustment : ℤ) (start now : ℕ) : ℤ :=
  if (now : ℤ) - start < 2000 * |adjustment| then
    adjustment.sign * ((2000 * |adjustment| - (now - start)) / 2000)
  else 0

/-- The value is one of a 32-bit signed integer. -/
def Fits32 (x : ℤ) : Prop := -2 ^ 31 ≤ x ∧ x < 2 ^ 31

theorem toInt32_of_fits {x : ℤ} (h : Fits32 x) : toInt32 x = x := by
  obtain ⟨hlow, hhigh⟩ := h
  rw [toInt32, Int.bmod_eq_of_le] <;> norm_num at * <;> omega

/-- The value is one of a 64-bit signed integer. -/
def Fits64 (x : ℤ) : Prop := -2 ^ 63 ≤ x ∧ x < 2 ^ 63

/-- The times in a state, and the one computed from it at `now`, fit their 64 bits. -/
def TimesFit (st : TimekeepingState) (now : ℕ) : Prop :=
  Fits64 st.clockOffset ∧ Fits64 (unslewed st now) ∧ Fits64 st.slewCompleteTime ∧
    (st.slewCompleteTime ≠ 0 → Fits64 st.slewStartTime) ∧
    Fits64 (internalClock st (unslewed st now))

/-- In this state, a call at `now` gives what is predicted, and no value that it
computes overflows. -/
structure Predicted (st : TimekeepingState) (tv delta : Timeval) (set start now : ℕ) : Prop where
  time : ∃ shown, (gettimeofdayR st true now now now).1 = some shown ∧
    shown.micros = slewedTime tv delta.micros set start now ∧
    0 ≤ shown.usec ∧ shown.usec < 1000000
  remaining : ∃ old, adjtimeR st none true now now now =
      (none, some old, checkSystemClock st now now) ∧
    old.micros = slewLeft delta.micros start now
  /-- The times, as long as the time set and the slew do not lead behind the last one. -/
  times : tv.micros + (now - set) + 2000 * |delta.micros| < 2 ^ 63 →
    TimesFit (checkSystemClock st now now) now
  /-- `adjtime_delta` and the product it is computed from. -/
  delta : Fits32 (delta.sec * 1000000) ∧ Fits32 delta.micros
  /-- `slew`, which is computed while a slew is in progress. -/
  slew : (checkSystemClock st now now).slewCompleteTime ≠ 0 →
    Fits32 (((checkSystemClock st now now).slewCompleteTime -
      unslewed (checkSystemClock st now now) now).tdiv
        (signedAdjtimeSlewPeriod (checkSystemClock st now now)))

/-! ## The state between calls -/

/-- A slew in progress that was started at `start`, in the state after a call at
`count`. -/
structure Slewing (st : TimekeepingState) (shift adjustment : ℤ) (start count : ℕ) : Prop where
  sample : st.lastSystemClockValue = count % 2 ^ 32
  offset : st.clockOffset = shift + 2 ^ 32 * ((count / 2 ^ 32 : ℕ) : ℤ)
  delta : st.adjtimeDelta = adjustment
  origin : st.slewStartTime = start + shift
  complete : st.slewCompleteTime = start + shift + 2000 * |adjustment|
  running : st.slewCompleteTime ≠ 0

/-- The slew is in progress or over. -/
def Adjusted (st : TimekeepingState) (shift adjustment : ℤ) (start count : ℕ) : Prop :=
  Slewing st shift adjustment start count ∨
    Following st (shift + adjustment) count ∧ 2000 * |adjustment| ≤ (count : ℤ) - start

section Step

variable {st : TimekeepingState} {shift adjustment : ℤ} {start count later : ℕ}

/-- The clock check folds the slew into the offset as soon as it is over. -/
theorem Adjusted.check (h : Adjusted st shift adjustment start count) (ordered : count ≤ later)
    (near : later < count + 2 ^ 32) :
    (later : ℤ) - start < 2000 * |adjustment| ∧
        Slewing (checkSystemClock st later later) shift adjustment start later ∨
      2000 * |adjustment| ≤ (later : ℤ) - start ∧
        Following (checkSystemClock st later later) (shift + adjustment) later := by
  rcases h with h | ⟨h, helapsed⟩
  · have hoffset := detectWrap_clockOffset h.sample h.offset ordered near
    have hnow : (getSystemClockUs later : ℤ) +
        (detectWrap st (getSystemClockUs later)).clockOffset = later + shift :=
      unslewed_of_offset hoffset
    have hcomplete := h.complete
    by_cases hreached : st.slewCompleteTime ≤ later + shift
    · right
      rw [checkSystemClock_of_complete h.running (hnow ▸ hreached)]
      refine ⟨by omega, rfl, rfl, ?_⟩
      simp only [resetAdjtimeState, hoffset, h.delta]
      ring
    · left
      rw [checkSystemClock_of_running (hnow ▸ not_le.mp hreached)]
      exact ⟨by omega, rfl, hoffset, h.delta, h.origin, h.complete, h.running⟩
  · right
    rw [checkSystemClock_of_no_slew h.idle]
    exact ⟨by omega, detectWrap_following h ordered near⟩

theorem Adjusted.step (h : Adjusted st shift adjustment start count) {call : ClockCall}
    (hreads : call.Reads) (ordered : count ≤ call.count) (near : call.count < count + 2 ^ 32) :
    Adjusted (ClockCall.step st call) shift adjustment start call.count := by
  rw [ClockCall.step_of_reads hreads]
  rcases h.check ordered near with ⟨-, hrunning⟩ | ⟨helapsed, hdone⟩
  · exact Or.inl hrunning
  · exact Or.inr ⟨hdone, helapsed⟩

/-- Reads that follow a state with an invariant that each of them preserves. -/
theorem reads_preserve {P : TimekeepingState → ℕ → Prop}
    (preserved : ∀ st count call, P st count → call.Reads → count ≤ call.count →
      call.count < count + 2 ^ 32 → P (ClockCall.step st call) call.count)
    {calls rest : List ClockCall} (hreads : ∀ call ∈ calls, call.Reads) (h : P st count)
    (spaced : Spaced count (calls ++ rest)) :
    ∃ last, P (run ClockCall.step st calls) last ∧ count ≤ last ∧ Spaced last rest := by
  induction calls generalizing st count with
  | nil => exact ⟨count, h, le_rfl, spaced⟩
  | cons call calls ih =>
    obtain ⟨hordered, hnear, hspaced⟩ := spaced
    have hnext := preserved st count call h (hreads call List.mem_cons_self) hordered hnear
    obtain ⟨last, hlast, hle, hrest⟩ :=
      ih (fun c hc => hreads c (List.mem_cons_of_mem _ hc)) hnext hspaced
    exact ⟨last, hlast, hordered.trans hle, hrest⟩

/-- An accepted adjustment starts a slew, unless it is empty and the clock is at
zero. -/
theorem Following.adjust (h : Following st shift count) (ordered : count ≤ start)
    (near : start < count + 2 ^ 32) (hnonneg : 0 ≤ start + shift) {delta : Timeval}
    (accepted : delta.Adjustable) (wantsOld : Bool) :
    Adjusted (ClockCall.step st (.adjtime (some delta) wantsOld start)) shift delta.micros start
      start := by
  have hfollow := detectWrap_following h ordered near
  have hdelta := toInt32_micros_of_adjustable accepted
  have hstate : ClockCall.step st (.adjtime (some delta) wantsOld start) =
      startSlew (detectWrap st (getSystemClockUs start)) delta (start + shift) := by
    have hnow := unslewed_of_offset hfollow.offset
    rw [unslewed] at hnow
    simp only [ClockCall.step, ClockCall.run, adjtimeR, if_pos accepted,
      checkSystemClock_of_no_slew h.idle, hnow]
  have hcomplete := startSlew_slewCompleteTime (detectWrap st (getSystemClockUs start)) accepted
    (start + shift)
  rw [hstate]
  by_cases hzero : (start : ℤ) + shift + 2000 * |delta.micros| = 0
  · right
    have hsize := abs_nonneg delta.micros
    have hempty : delta.micros = 0 := abs_eq_zero.mp (by omega)
    refine ⟨⟨hcomplete.trans hzero, hfollow.sample, ?_⟩, by rw [hempty]; simp⟩
    rw [hempty, add_zero]
    exact hfollow.offset
  · exact Or.inl ⟨hfollow.sample, hfollow.offset, hdelta, rfl, hcomplete, hcomplete ▸ hzero⟩

end Step

/-! ## The results of a call -/

section Results

variable {st : TimekeepingState} {tv delta : Timeval} {set start now : ℕ}

/-- A time that is not negative has its microseconds in the usual range. -/
theorem toTimeval_usec {micros : ℤ} (h : 0 ≤ micros) :
    0 ≤ (toTimeval micros).usec ∧ (toTimeval micros).usec < 1000000 := by
  simp only [toTimeval, Int.tmod_eq_emod_of_nonneg h]
  omega

theorem slewedTime_nonneg (settable : tv.Settable) (hset : set ≤ start) (hstart : start ≤ now)
    (adjustment : ℤ) : 0 ≤ slewedTime tv adjustment set start now := by
  obtain ⟨husec, -, hsec⟩ := settable
  have hmagnitude := neg_abs_le adjustment
  have hsize := abs_nonneg adjustment
  rw [slewedTime, Timeval.micros]
  split
  · rcases lt_trichotomy adjustment 0 with hneg | hzero | hpos
    · rw [Int.sign_eq_neg_one_of_neg hneg]
      omega
    · rw [hzero, Int.sign_zero]
      omega
    · rw [Int.sign_eq_one_of_pos hpos]
      omega
  · omega

/-- The adjustment moves the clock by its size at most. -/
theorem slewedTime_le (hstart : start ≤ now) (adjustment : ℤ) :
    slewedTime tv adjustment set start now ≤ tv.micros + (now - set) + |adjustment| := by
  have hmagnitude := le_abs_self adjustment
  have hsize := abs_nonneg adjustment
  rw [slewedTime]
  split
  · rcases lt_trichotomy adjustment 0 with hneg | hzero | hpos
    · rw [Int.sign_eq_neg_one_of_neg hneg]
      omega
    · rw [Int.sign_eq_zero_iff_zero.mpr hzero]
      omega
    · rw [Int.sign_eq_one_of_pos hpos]
      omega
  · omega

/-- What the clock shows during the slew. -/
theorem Slewing.internalClock_eq {shift adjustment : ℤ}
    (h : Slewing st shift adjustment start now) (hstart : start ≤ now)
    (hearly : (now : ℤ) - start < 2000 * |adjustment|) :
    internalClock st (now + shift) = now + shift + adjustment.sign * ((now - start) / 2000) := by
  have helapsed : (now : ℤ) + shift - st.slewStartTime = now - start := by
    rw [h.origin]
    ring
  rw [internalClock_of_running h.running (by rw [h.origin]; omega), h.delta, helapsed]
  rcases lt_trichotomy adjustment 0 with hneg | hzero | hpos
  · rw [if_pos hneg, Int.sign_eq_neg_one_of_neg hneg]
    ring
  · rw [hzero, abs_zero] at hearly
    omega
  · rw [if_neg (by omega), Int.sign_eq_one_of_pos hpos]
    ring

/-- What remains of the slew, as the source computes it. -/
theorem Slewing.tdiv_eq {shift adjustment : ℤ} (h : Slewing st shift adjustment start now)
    (hstart : start ≤ now) (hearly : (now : ℤ) - start < 2000 * |adjustment|) :
    (st.slewCompleteTime - (now + shift)).tdiv (signedAdjtimeSlewPeriod st) =
      adjustment.sign * ((2000 * |adjustment| - (now - start)) / 2000) := by
  have hleft : st.slewCompleteTime - (now + shift) = 2000 * |adjustment| - (now - start) := by
    rw [h.complete]
    ring
  have hnonneg : 0 ≤ 2000 * |adjustment| - ((now : ℤ) - start) := by omega
  rw [hleft, signedAdjtimeSlewPeriod, h.delta, adjtimeSlewPeriod]
  rcases lt_trichotomy adjustment 0 with hneg | hzero | hpos
  · rw [if_pos hneg, Int.tdiv_neg, Int.tdiv_eq_ediv_of_nonneg hnonneg,
      Int.sign_eq_neg_one_of_neg hneg]
    ring
  · rw [hzero, abs_zero] at hearly
    omega
  · rw [if_neg (by omega), Int.tdiv_eq_ediv_of_nonneg hnonneg, Int.sign_eq_one_of_pos hpos]
    ring

/-- An accepted adjustment, and what is left of it, fit 32 bits. -/
theorem fits32_of_adjustable (accepted : delta.Adjustable) :
    Fits32 (delta.sec * 1000000) ∧ Fits32 delta.micros := by
  obtain ⟨hlow, hhigh, hmax, hmin⟩ := accepted
  simp only [adjtimeMaxSecsAllowed] at hmax hmin
  simp only [Fits32, Timeval.micros]
  omega

theorem fits32_slewLeft {adjustment : ℤ} (h : Fits32 adjustment) (hstart : start ≤ now)
    (hearly : (now : ℤ) - start < 2000 * |adjustment|) :
    Fits32 (adjustment.sign * ((2000 * |adjustment| - (now - start)) / 2000)) := by
  obtain ⟨hlow, hhigh⟩ := h
  rcases lt_trichotomy adjustment 0 with hneg | hzero | hpos
  · rw [abs_of_neg hneg] at hearly ⊢
    rw [Int.sign_eq_neg_one_of_neg hneg, Fits32]
    omega
  · rw [hzero, abs_zero] at hearly
    omega
  · rw [abs_of_pos hpos] at hearly ⊢
    rw [Int.sign_eq_one_of_pos hpos, Fits32]
    omega

/-- Every call gives what is predicted. -/
theorem Adjusted.predicted {count : ℕ}
    (h : Adjusted st (tv.micros - set) delta.micros start count) (settable : tv.Settable)
    (accepted : delta.Adjustable) (hset : set ≤ start) (hstart : start ≤ count)
    (ordered : count ≤ now) (near : now < count + 2 ^ 32) : Predicted st tv delta set start now := by
  have hlater := hstart.trans ordered
  have hnonneg := slewedTime_nonneg settable hset hlater delta.micros
  have hfits := fits32_of_adjustable accepted
  have hupper := @slewedTime_le tv set start now hlater delta.micros
  have hlow := neg_abs_le delta.micros
  have hhigh := le_abs_self delta.micros
  have hmicros : 0 ≤ tv.micros := Int.add_nonneg (by have := settable.2.2; omega) settable.1
  -- what a call shows follows from the state that its clock check leaves
  have hshown (hclock : internalClock (checkSystemClock st now now)
        (unslewed (checkSystemClock st now now) now) = slewedTime tv delta.micros set start now) :
      ∃ shown, (gettimeofdayR st true now now now).1 = some shown ∧
        shown.micros = slewedTime tv delta.micros set start now ∧
        0 ≤ shown.usec ∧ shown.usec < 1000000 := by
    refine ⟨toTimeval (slewedTime tv delta.micros set start now), ?_, micros_toTimeval _,
      toTimeval_usec hnonneg⟩
    rw [← hclock]
    rfl
  have hold (hleft : (remainingSlew (checkSystemClock st now now)
        (unslewed (checkSystemClock st now now) now)).micros = slewLeft delta.micros start now) :
      ∃ old, adjtimeR st none true now now now = (none, some old, checkSystemClock st now now) ∧
        old.micros = slewLeft delta.micros start now := ⟨_, rfl, hleft⟩
  rcases h.check ordered near with ⟨hearly, hrunning⟩ | ⟨helapsed, hdone⟩
  · have hslew := hrunning.tdiv_eq hlater hearly
    have hnarrow := fits32_slewLeft hfits.2 hlater hearly
    have hnow := unslewed_of_offset hrunning.offset
    have hclock : internalClock (checkSystemClock st now now)
        (unslewed (checkSystemClock st now now) now) =
          slewedTime tv delta.micros set start now := by
      rw [hnow, hrunning.internalClock_eq hlater hearly, slewedTime, if_pos hearly]
      ring
    refine ⟨hshown hclock, hold ?_, fun hend => ?_, hfits, fun _ => ?_⟩
    · rw [hnow, remainingSlew, if_neg hrunning.running, micros_toTimeval, hslew,
        toInt32_of_fits hnarrow, slewLeft, if_pos hearly]
    · rw [TimesFit, hclock, hnow, hrunning.offset, hrunning.origin, hrunning.complete]
      simp only [Fits64]
      omega
    · rw [hnow, hslew]
      exact hnarrow
  · have hnow := unslewed_of_offset hdone.offset
    have hclock : internalClock (checkSystemClock st now now)
        (unslewed (checkSystemClock st now now) now) =
          slewedTime tv delta.micros set start now := by
      rw [hnow, internalClock, if_pos hdone.idle, slewedTime, if_neg (not_lt.mpr helapsed)]
      ring
    refine ⟨hshown hclock, hold ?_, fun hend => ?_, hfits, fun h => absurd hdone.idle h⟩
    · rw [remainingSlew, if_pos hdone.idle, slewLeft, if_neg (not_lt.mpr helapsed)]
      rfl
    · rw [TimesFit, hclock, hnow, hdone.offset, hdone.idle]
      simp only [Fits64, ne_eq, not_true_eq_false, false_implies, true_and]
      omega

end Results

/-! ## A whole run -/

theorem justSet_following (st : TimekeepingState) {tv : Timeval} (settable : tv.Settable)
    (count : ℕ) : Following (justSet st tv count) (tv.micros - count) count := by
  have hfollow := SetCall.run_following ⟨count, count, count⟩ st settable
  have hsplit := Nat.div_add_mod count (2 ^ 32)
  refine ⟨hfollow.idle, hfollow.sample, ?_⟩
  rw [justSet, hfollow.offset]
  simp only
  omega

/-- The time is set, read any number of times, adjusted once, and read any number
of times again. Whatever is read next is what is predicted. -/
theorem slewing_exact (st : TimekeepingState) (tv delta : Timeval) (set start now : ℕ)
    (before after : List ClockCall) (wantsOld : Bool) (settable : tv.Settable)
    (accepted : delta.Adjustable) (hbefore : ∀ call ∈ before, call.Reads)
    (hafter : ∀ call ∈ after, call.Reads)
    (spaced : Spaced set (before ++ .adjtime (some delta) wantsOld start ::
      (after ++ [.gettimeofday true now]))) :
    Predicted (run ClockCall.step (justSet st tv set)
      (before ++ .adjtime (some delta) wantsOld start :: after)) tv delta set start now := by
  -- up to the adjustment there is no slew
  obtain ⟨count, hfollow, hset, hordered, hnear, hspaced⟩ :=
    reads_preserve (P := fun st count => Following st (tv.micros - set) count)
      (fun st count call h hreads hordered hnear => by
        rw [ClockCall.step_of_reads hreads, checkSystemClock_of_no_slew h.idle]
        exact detectWrap_following h hordered hnear)
      hbefore (justSet_following st settable set) spaced
  simp only [ClockCall.count] at hordered hnear hspaced
  have hnonneg : 0 ≤ (start : ℤ) + (tv.micros - set) := by
    obtain ⟨husec, -, hsec⟩ := settable
    rw [Timeval.micros]
    omega
  have hadjusted := hfollow.adjust hordered hnear hnonneg accepted wantsOld
  -- from there on it is in progress or over
  obtain ⟨last, hlast, hstart, hordered', hnear', -⟩ :=
    reads_preserve (P := fun st count => Adjusted st (tv.micros - set) delta.micros start count)
      (fun st count call h hreads hordered hnear => h.step hreads hordered hnear)
      hafter hadjusted hspaced
  rw [run_append, run_cons]
  exact hlast.predicted settable accepted (hset.trans hordered) hstart hordered' hnear'

/-- An adjustment with seconds and microseconds of different signs, just before
the counter wraps. -/
theorem slewing_exact_across_wrap :
    Predicted (run ClockCall.step (justSet ⟨0, 0, 0, 0, 0⟩ ⟨1000000000, 0⟩ 4294960000)
      [.gettimeofday true 4294961000, .adjtime (some ⟨1, -1500⟩) false 4294962000,
        .gettimeofday true 4294964000, .adjtime none true 4294970000])
      ⟨1000000000, 0⟩ ⟨1, -1500⟩ 4294960000 4294962000 4294980000 :=
  slewing_exact ⟨0, 0, 0, 0, 0⟩ ⟨1000000000, 0⟩ ⟨1, -1500⟩ 4294960000 4294962000 4294980000
    [.gettimeofday true 4294961000] [.gettimeofday true 4294964000, .adjtime none true 4294970000]
    false (by decide) (by decide) (by simp [ClockCall.Reads]) (by simp [ClockCall.Reads]) (by decide)

end EspOpenRtos.Timekeeping
