/-
# How far the clock can be off

After `settimeofday` the shown time should follow the counter to within the
length of the calls involved. Both calls read the counter more than once, and
the wrap detector runs on one of those reads only. A wrap that falls between
the reads of one call is therefore seen by one read and missed by the other,
and the result is off by a whole period.

The module proves that this is the only way to lose accuracy: a
`gettimeofday` result lies in its window exactly when no wrap falls inside the
`settimeofday` call and none falls inside that `gettimeofday` call. Wraps
between calls, in any number of calls, do no harm.
-/

import EspOpenRtos.Math.WrapCounter
import EspOpenRtos.Timekeeping.Clock

namespace EspOpenRtos.Timekeeping

open Math

/-- The counter at the samples of one `settimeofday` call. The middle one is
read only when a slew is in progress. -/
structure SetCall where
  first : ℕ
  middle : ℕ
  last : ℕ

/-- The counter at the two samples a `gettimeofday` call takes while no slew is
in progress, and whether its result is wanted. -/
structure GetCall where
  first : ℕ
  last : ℕ
  wanted : Bool

/-- Set the time with the given samples. -/
def SetCall.run (call : SetCall) (st : TimekeepingState) (tv : Timeval) : TimekeepingState :=
  (settimeofdayR st (some tv) call.first call.middle call.last).2

/-- Read the time with the given samples. -/
def GetCall.run (call : GetCall) (st : TimekeepingState) : Option Timeval × TimekeepingState :=
  gettimeofdayR st call.wanted call.first call.last call.last

/-- The state after a sequence of reads. -/
def afterReads (st : TimekeepingState) (calls : List GetCall) : TimekeepingState :=
  calls.foldl (fun st call => (call.run st).2) st

/-- The samples never decrease, consecutive calls start less than `2 ^ 31`
microseconds apart and every call lasts less than that. The arguments are the
first and last sample of the call before. -/
def Paced : ℕ → ℕ → List GetCall → Prop
  | _, _, [] => True
  | prevFirst, prevLast, call :: calls =>
    prevLast ≤ call.first ∧ call.first < prevFirst + 2 ^ 31 ∧
      call.first ≤ call.last ∧ call.last < call.first + 2 ^ 31 ∧
      Paced call.first call.last calls

instance : ∀ (prevFirst prevLast : ℕ) (calls : List GetCall),
    Decidable (Paced prevFirst prevLast calls)
  | _, _, [] => isTrue trivial
  | _, _, call :: calls =>
    have := instDecidablePaced call.first call.last calls
    inferInstanceAs (Decidable (_ ∧ _ ∧ _ ∧ _ ∧ _))

/-- The last call of a paced sequence takes its samples in order and in time. -/
theorem Paced.last_span {call : GetCall} (before : List GetCall) :
    ∀ {prevFirst prevLast : ℕ}, Paced prevFirst prevLast (before ++ [call]) →
      call.first ≤ call.last ∧ call.last < call.first + 2 ^ 31 := by
  induction before with
  | nil => exact fun paced => ⟨paced.2.2.1, paced.2.2.2.1⟩
  | cons _ _ ih => exact fun paced => ih paced.2.2.2.2

/-- No wrap of the counter lies between two reads. -/
def SameLap (first last : ℕ) : Prop := first / 2 ^ 32 = last / 2 ^ 32

instance (first last : ℕ) : Decidable (SameLap first last) :=
  inferInstanceAs (Decidable (_ = _))

/-- The state between calls when no slew is in progress: the recorded sample is
that of count `count`, and `shift` is what the offset adds to the unreduced
counter. -/
structure Following (st : TimekeepingState) (shift : ℤ) (count : ℕ) : Prop where
  idle : st.slewCompleteTime = 0
  sample : st.lastSystemClockValue = count % 2 ^ 32
  offset : st.clockOffset = shift + 2 ^ 32 * ((count / 2 ^ 32 : ℕ) : ℤ)

/-- The wrap detector keeps the offset in step with the counter as long as less
than one period has passed since the recorded sample. -/
theorem detectWrap_clockOffset {st : TimekeepingState} {shift : ℤ} {count later : ℕ}
    (sample : st.lastSystemClockValue = count % 2 ^ 32)
    (offset : st.clockOffset = shift + 2 ^ 32 * ((count / 2 ^ 32 : ℕ) : ℤ))
    (ordered : count ≤ later) (near : later < count + 2 ^ 32) :
    (detectWrap st (getSystemClockUs later)).clockOffset =
      shift + 2 ^ 32 * ((later / 2 ^ 32 : ℕ) : ℤ) := by
  have hlaps := WrapCounter.periods_of_drop ordered near
  simp only [detectWrap, getSystemClockUs, sample, offset, systemClockWrapUs]
  rw [← hlaps]
  split <;> push_cast <;> ring

theorem detectWrap_following {st : TimekeepingState} {shift : ℤ} {count later : ℕ}
    (h : Following st shift count) (ordered : count ≤ later)
    (near : later < count + 2 ^ 32) :
    Following (detectWrap st (getSystemClockUs later)) shift later :=
  ⟨h.idle, rfl, detectWrap_clockOffset h.sample h.offset ordered near⟩

/-- One read of the time keeps the state following, whether or not the result
is wanted. -/
theorem GetCall.run_following {st : TimekeepingState} {shift : ℤ} {count : ℕ}
    (h : Following st shift count) (call : GetCall) (ordered : count ≤ call.last)
    (near : call.last < count + 2 ^ 32) : Following (call.run st).2 shift call.last := by
  have hstate : (call.run st).2 = detectWrap st (getSystemClockUs call.last) := by
    simp only [GetCall.run, gettimeofdayR, checkSystemClock_of_no_slew h.idle]
    split <;> rfl
  rw [hstate]
  exact detectWrap_following h ordered near

/-- What a wanted read shows: the first sample, with the laps of the last. -/
theorem GetCall.run_shown {st : TimekeepingState} {shift : ℤ} {count : ℕ}
    (h : Following st shift count) {call : GetCall} (wanted : call.wanted = true)
    (ordered : count ≤ call.last) (near : call.last < count + 2 ^ 32) :
    ∃ shown, (call.run st).1 = some shown ∧
      shown.micros = shift + (call.first % 2 ^ 32 : ℕ) +
        2 ^ 32 * ((call.last / 2 ^ 32 : ℕ) : ℤ) := by
  have hnext := detectWrap_following h ordered near
  refine ⟨toTimeval (getSystemClockUs call.first +
    (detectWrap st (getSystemClockUs call.last)).clockOffset), ?_, ?_⟩
  · simp only [GetCall.run, gettimeofdayR, checkSystemClock_of_no_slew h.idle, wanted,
      if_true, internalClock, hnext.idle]
  · rw [micros_toTimeval, hnext.offset, getSystemClockUs]
    ring

/-- Following survives any paced sequence of reads. The two counts are those of
the first and last sample of the call before. -/
theorem afterReads_following {shift : ℤ} (calls : List GetCall) :
    ∀ {st : TimekeepingState} {prevFirst prevLast count : ℕ},
      Following st shift count → prevFirst ≤ count → count ≤ prevLast →
      ∀ {last : GetCall}, Paced prevFirst prevLast (calls ++ [last]) →
      ∃ count', Following (afterReads st calls) shift count' ∧
        count' ≤ last.first ∧ last.last < count' + 2 ^ 32 := by
  induction calls with
  | nil =>
    intro st prevFirst prevLast count h hfirst hlast last paced
    obtain ⟨horder, hstart, _, hlength, _⟩ := paced
    exact ⟨count, h, by omega, by omega⟩
  | cons call calls ih =>
    intro st prevFirst prevLast count h hfirst hlast last paced
    obtain ⟨horder, hstart, hspan, hlength, hrest⟩ := paced
    -- the detector ran on the last sample of the call, which is now the recorded one
    have hnext := call.run_following h (by omega) (by omega)
    exact ih hnext hspan (le_refl _) hrest

/-- After `settimeofday` the detector's sample is the first one of the call but
the offset was computed from the last one, so the shift is off by the laps
between them. -/
theorem SetCall.run_following (call : SetCall) (st : TimekeepingState) {tv : Timeval}
    (settable : tv.Settable) :
    Following (call.run st tv)
      (tv.micros - (call.last % 2 ^ 32 : ℕ) - 2 ^ 32 * ((call.first / 2 ^ 32 : ℕ) : ℤ))
      call.first := by
  refine ⟨?_, ?_, ?_⟩
  · simp [SetCall.run, settimeofdayR, settable, resetAdjtimeState]
  · simp [SetCall.run, settimeofdayR, settable, resetAdjtimeState, getSystemClockUs]
  · simp [SetCall.run, settimeofdayR, settable, resetAdjtimeState, getSystemClockUs]

/-- The window a result may lie in: the set time advanced by the elapsed
counter, give or take the lengths of the two calls. -/
def InWindow (tv : Timeval) (set : SetCall) (get : GetCall) (shown : Timeval) : Prop :=
  tv.micros + get.first - set.last ≤ shown.micros ∧
    shown.micros ≤ tv.micros + get.last - set.first

instance (tv : Timeval) (set : SetCall) (get : GetCall) (shown : Timeval) :
    Decidable (InWindow tv set get shown) :=
  inferInstanceAs (Decidable (_ ∧ _))

/-- The accuracy of one read. After any settable time, any earlier paced reads
and from any prior state, the result lies in its window exactly when neither the
`settimeofday` call nor this `gettimeofday` call has a wrap between its
samples. -/
theorem gettimeofday_inWindow_iff (st : TimekeepingState) (tv : Timeval) (set : SetCall)
    (before : List GetCall) (get : GetCall) (settable : tv.Settable)
    (setOrder : set.first ≤ set.last) (setLength : set.last < set.first + 2 ^ 31)
    (paced : Paced set.first set.last (before ++ [get])) (wanted : get.wanted = true) :
    (∃ shown, (get.run (afterReads (set.run st tv) before)).1 = some shown ∧
        InWindow tv set get shown) ↔
      SameLap set.first set.last ∧ SameLap get.first get.last := by
  obtain ⟨count, hfollow, hstart, hnear⟩ :=
    afterReads_following before (set.run_following st settable) (le_refl _) setOrder paced
  obtain ⟨hgetOrder, hgetLength⟩ := Paced.last_span before paced
  obtain ⟨shown, hshown, hmicros⟩ :=
    GetCall.run_shown hfollow wanted (by omega) hnear
  rw [hshown]
  simp only [Option.some.injEq, exists_eq_left', InWindow, hmicros, SameLap]
  -- write both calls' samples as laps and remainders; only the laps can differ
  have hs1 := Nat.div_add_mod set.first (2 ^ 32)
  have hs2 := Nat.div_add_mod set.last (2 ^ 32)
  have hg1 := Nat.div_add_mod get.first (2 ^ 32)
  have hg2 := Nat.div_add_mod get.last (2 ^ 32)
  have hsmono : set.first / 2 ^ 32 ≤ set.last / 2 ^ 32 := Nat.div_le_div_right setOrder
  have hgmono : get.first / 2 ^ 32 ≤ get.last / 2 ^ 32 := Nat.div_le_div_right hgetOrder
  omega

/-- The window is met by a read 100 microseconds after the time was set. -/
theorem gettimeofday_inWindow_early :
    ∃ shown, (GetCall.run ⟨100, 110, true⟩
        (afterReads (SetCall.run ⟨0, 0, 10⟩ ⟨0, 0, 0, 0, 0⟩ ⟨1000000000, 0⟩) [])).1 = some shown ∧
      InWindow ⟨1000000000, 0⟩ ⟨0, 0, 10⟩ ⟨100, 110, true⟩ shown :=
  (gettimeofday_inWindow_iff ⟨0, 0, 0, 0, 0⟩ ⟨1000000000, 0⟩ ⟨0, 0, 10⟩ [] ⟨100, 110, true⟩
    (by decide) (by decide) (by decide) (by decide) rfl).mpr (by decide)

/-- Accuracy does not hold unconditionally. The time is set ten microseconds
before the counter wraps and read just before the wrap, with the detector's
sample just after it: the result is `2 ^ 32` microseconds too large. -/
theorem gettimeofday_leaves_window_at_wrap :
    ¬ ∀ (st : TimekeepingState) (tv : Timeval) (set : SetCall) (before : List GetCall)
        (get : GetCall), tv.Settable → set.first ≤ set.middle → set.middle ≤ set.last →
        set.last < set.first + 2 ^ 31 → Paced set.first set.last (before ++ [get]) →
        get.wanted = true →
        ∃ shown, (get.run (afterReads (set.run st tv) before)).1 = some shown ∧
          InWindow tv set get shown := by
  intro accurate
  obtain ⟨shown, hshown, hwindow⟩ := accurate ⟨0, 0, 0, 0, 0⟩ ⟨1000000000, 0⟩
    ⟨4294967286, 4294967286, 4294967286⟩ [] ⟨4294967295, 4294967296, true⟩
    (by decide) (by decide) (by decide) (by decide) (by decide) rfl
  have hread : (GetCall.run ⟨4294967295, 4294967296, true⟩ (afterReads
      (SetCall.run ⟨4294967286, 4294967286, 4294967286⟩ ⟨0, 0, 0, 0, 0⟩ ⟨1000000000, 0⟩)
      [])).1 = some ⟨1000004294, 967305⟩ := by decide
  rw [hread, Option.some.injEq] at hshown
  subst hshown
  exact absurd hwindow (by decide)

end EspOpenRtos.Timekeeping
