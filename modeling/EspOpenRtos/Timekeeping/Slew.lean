/-
# Monotonicity under slewing

`adjtime` promises to change the clock gradually, so a sequence of
`gettimeofday` results should never go backwards. During a slew the shown time
is the unslewed clock plus or minus one microsecond for every elapsed slew
period; when the slew ends the whole adjustment moves into the offset.

A new `adjtime` call restarts the slew from the unslewed clock. What the old
slew had already contributed is dropped at that point. For a negative slew this
moves the clock forwards, but for a positive one it moves the clock back. The
module shows that this is the only way to go backwards: if no accepted
adjustment interrupts a positive slew that has contributed at least one
microsecond, the shown times never decrease, across any number of slews and
counter wraps.
-/

import EspOpenRtos.Timekeeping.Accuracy

namespace EspOpenRtos.Timekeeping

/-- A call after the time was set, with the counter at its samples, which are
all equal. -/
inductive ClockCall
  | gettimeofday (wanted : Bool) (count : ℕ)
  | adjtime (delta : Option Timeval) (wantsOld : Bool) (count : ℕ)

namespace ClockCall

/-- The counter during the call. -/
def count : ClockCall → ℕ
  | gettimeofday _ count => count
  | adjtime _ _ count => count

/-- The time the call shows, if any, and the state it leaves. -/
def run (st : TimekeepingState) : ClockCall → Option Timeval × TimekeepingState
  | gettimeofday wanted count => gettimeofdayR st wanted count count count
  | adjtime delta wantsOld count =>
    (none, (adjtimeR st delta wantsOld count count count).2.2)

end ClockCall

/-- The times shown by a sequence of calls, in microseconds. -/
def shownTimes : TimekeepingState → List ClockCall → List ℤ
  | _, [] => []
  | st, call :: calls =>
    ((call.run st).1.map Timeval.micros).toList ++ shownTimes (call.run st).2 calls

/-- The counter never decreases and consecutive calls are less than one period
apart. -/
def Spaced : ℕ → List ClockCall → Prop
  | _, [] => True
  | prev, call :: calls =>
    prev ≤ call.count ∧ call.count < prev + 2 ^ 32 ∧ Spaced call.count calls

instance : ∀ (prev : ℕ) (calls : List ClockCall), Decidable (Spaced prev calls)
  | _, [] => isTrue trivial
  | _, call :: calls =>
    have := instDecidableSpaced call.count calls
    inferInstanceAs (Decidable (_ ∧ _ ∧ _))

/-- The unslewed clock that a call at `count` sees after its clock check. -/
def unslewed (checked : TimekeepingState) (count : ℕ) : ℤ :=
  getSystemClockUs count + checked.clockOffset

/-- The call is an accepted adjustment that interrupts a positive slew in
progress at least one slew period after its start. -/
def InterruptsSlew (st : TimekeepingState) : ClockCall → Prop
  | .gettimeofday _ _ => False
  | .adjtime none _ _ => False
  | .adjtime (some delta) _ count =>
    let checked := checkSystemClock st count count
    delta.Adjustable ∧ checked.slewCompleteTime ≠ 0 ∧ 0 < checked.adjtimeDelta ∧
      adjtimeSlewPeriod ≤ unslewed checked count - checked.slewStartTime

/-- No call of the sequence interrupts a slew in that way. -/
def NeverInterruptsSlew : TimekeepingState → List ClockCall → Prop
  | _, [] => True
  | st, call :: calls =>
    ¬ InterruptsSlew st call ∧ NeverInterruptsSlew (call.run st).2 calls

/-! ## The state between calls -/

/-- A slew in progress at unslewed clock value `now`. It has not been completed
yet, unless it is the empty one that was started just now. -/
structure SlewAt (st : TimekeepingState) (now : ℤ) : Prop where
  origin : 0 ≤ st.slewStartTime
  started : st.slewStartTime ≤ now
  complete : st.slewCompleteTime = st.slewStartTime + 2000 * |st.adjtimeDelta|
  pending : now < st.slewCompleteTime ∨ st.adjtimeDelta = 0 ∧ now = st.slewStartTime

/-- What holds after a call at `count`: the recorded sample and the offset
belong to that count, the unslewed clock is not negative, and a slew is either
idle or in progress. -/
structure Tracking (st : TimekeepingState) (shift : ℤ) (count : ℕ) : Prop where
  sample : st.lastSystemClockValue = count % 2 ^ 32
  offset : st.clockOffset = shift + 2 ^ 32 * ((count / 2 ^ 32 : ℕ) : ℤ)
  nonneg : 0 ≤ count + shift
  slew : st.slewCompleteTime = 0 ∨ SlewAt st (count + shift)

/-- The offset adds up with the counter to the unslewed clock. -/
theorem unslewed_of_offset {st : TimekeepingState} {shift : ℤ} {count : ℕ}
    (offset : st.clockOffset = shift + 2 ^ 32 * ((count / 2 ^ 32 : ℕ) : ℤ)) :
    unslewed st count = count + shift := by
  have hsplit := Nat.div_add_mod count (2 ^ 32)
  rw [unslewed, getSystemClockUs, offset]
  omega

/-! ## The shown time -/

/-- During a slew the truncating signed division adds or removes whole elapsed
periods. -/
theorem internalClock_of_running {st : TimekeepingState} {now : ℤ}
    (running : st.slewCompleteTime ≠ 0) (started : st.slewStartTime ≤ now) :
    internalClock st now =
      if st.adjtimeDelta < 0 then now - (now - st.slewStartTime) / 2000
      else now + (now - st.slewStartTime) / 2000 := by
  have hnonneg : 0 ≤ now - st.slewStartTime := by omega
  simp only [internalClock, if_neg running, signedAdjtimeSlewPeriod, adjtimeSlewPeriod]
  split
  · rw [Int.tdiv_neg, Int.tdiv_eq_ediv_of_nonneg hnonneg]
    ring
  · rw [Int.tdiv_eq_ediv_of_nonneg hnonneg]

/-- In an unchanged state the shown time never decreases. -/
theorem internalClock_mono {st : TimekeepingState} {now later : ℤ}
    (slew : st.slewCompleteTime = 0 ∨ SlewAt st now) (ordered : now ≤ later) :
    internalClock st now ≤ internalClock st later := by
  by_cases hidle : st.slewCompleteTime = 0
  · simpa [internalClock, hidle] using ordered
  · have hstarted := (slew.resolve_left hidle).started
    rw [internalClock_of_running hidle hstarted,
      internalClock_of_running hidle (hstarted.trans ordered)]
    split <;> omega

/-- Folding a completed slew into the offset does not move the shown time back
behind anything shown while it was in progress. -/
theorem internalClock_le_of_complete {st : TimekeepingState} {now later : ℤ}
    (running : st.slewCompleteTime ≠ 0) (slew : SlewAt st now) (ordered : now ≤ later)
    (reached : st.slewCompleteTime ≤ later) :
    internalClock st now ≤ later + st.adjtimeDelta := by
  obtain ⟨_, hstarted, hcomplete, hpending⟩ := slew
  rw [internalClock_of_running running hstarted]
  split
  · rw [abs_of_neg (by assumption)] at hcomplete
    omega
  · rw [abs_of_nonneg (by omega)] at hcomplete
    omega

/-! ## One call -/

/-- The clock check keeps the state tracking and never moves the shown time
back. -/
theorem checkSystemClock_tracking {st : TimekeepingState} {shift : ℤ} {count later : ℕ}
    (h : Tracking st shift count) (ordered : count ≤ later)
    (near : later < count + 2 ^ 32) :
    ∃ shift', Tracking (checkSystemClock st later later) shift' later ∧
      internalClock st (count + shift) ≤
        internalClock (checkSystemClock st later later) (later + shift') := by
  have hoffset := detectWrap_clockOffset h.sample h.offset ordered near
  have hnow : (getSystemClockUs later : ℤ) +
      (detectWrap st (getSystemClockUs later)).clockOffset = later + shift :=
    unslewed_of_offset hoffset
  have hadvance : (count : ℤ) + shift ≤ later + shift := by omega
  have hlast : (checkSystemClock st later later).lastSystemClockValue = later % 2 ^ 32 :=
    checkSystemClock_lastSystemClockValue st later later
  have hnonneg := h.nonneg
  -- the slew is idle, completes at this check, or stays in progress
  by_cases hidle : st.slewCompleteTime = 0
  · have hcheck := checkSystemClock_of_no_slew hidle later later
    refine ⟨shift, ⟨hlast, by rw [hcheck, hoffset], by omega, Or.inl ?_⟩, ?_⟩
    · rw [hcheck]
      exact hidle
    · rw [hcheck]
      simpa [internalClock, hidle, detectWrap] using ordered
  · have hslew := h.slew.resolve_left hidle
    by_cases hreached : st.slewCompleteTime ≤ later + shift
    · have hcheck := checkSystemClock_of_complete hidle (hnow ▸ hreached)
      have hbound := internalClock_le_of_complete hidle hslew hadvance hreached
      have hpositive : 0 ≤ (later : ℤ) + (shift + st.adjtimeDelta) := by
        have hcomplete := hslew.complete
        have horigin := hslew.origin
        have hmagnitude := neg_abs_le st.adjtimeDelta
        have hsize := abs_nonneg st.adjtimeDelta
        omega
      refine ⟨shift + st.adjtimeDelta, ⟨hlast, ?_, hpositive, Or.inl ?_⟩, ?_⟩
      · rw [hcheck]
        simp only [resetAdjtimeState, hoffset]
        ring
      · rw [hcheck]
        rfl
      · rw [hcheck]
        simpa [resetAdjtimeState, internalClock, add_assoc] using hbound
    · have hcheck := checkSystemClock_of_running (hnow ▸ not_le.mp hreached)
      have hslew' : SlewAt (detectWrap st (getSystemClockUs later)) (later + shift) :=
        ⟨hslew.origin, hslew.started.trans hadvance, hslew.complete, Or.inl (not_le.mp hreached)⟩
      refine ⟨shift, ⟨hlast, by rw [hcheck, hoffset], by omega, Or.inr (hcheck ▸ hslew')⟩, ?_⟩
      rw [hcheck]
      exact internalClock_mono (Or.inr hslew) hadvance

/-- A slew takes one period for every microsecond of the adjustment. -/
theorem startSlew_slewCompleteTime (st : TimekeepingState) {delta : Timeval}
    (accepted : delta.Adjustable) (now : ℤ) :
    (startSlew st delta now).slewCompleteTime = now + 2000 * |delta.micros| := by
  simp only [startSlew, signedAdjtimeSlewPeriod, adjtimeSlewPeriod,
    toInt32_micros_of_adjustable accepted]
  split
  · rw [abs_of_neg (by assumption)]
    ring
  · rw [abs_of_nonneg (by omega)]
    ring

/-- Starting a slew at the current clock value shows exactly that value. -/
theorem startSlew_tracking {st : TimekeepingState} {shift : ℤ} {count : ℕ}
    (h : Tracking st shift count) {delta : Timeval} (accepted : delta.Adjustable) :
    Tracking (startSlew st delta (count + shift)) shift count ∧
      internalClock (startSlew st delta (count + shift)) (count + shift) = count + shift := by
  have hdelta := toInt32_micros_of_adjustable accepted
  have hcomplete := startSlew_slewCompleteTime st accepted (count + shift)
  have hsize := abs_nonneg delta.micros
  have hslew : SlewAt (startSlew st delta (count + shift)) (count + shift) := by
    refine ⟨h.nonneg, le_refl _, ?_, ?_⟩
    · rw [hcomplete]
      simp only [startSlew, hdelta]
    · rw [hcomplete]
      simp only [startSlew, hdelta, and_true]
      rcases eq_or_ne delta.micros 0 with hzero | hnonzero
      · exact Or.inr hzero
      · have := abs_pos.mpr hnonzero
        exact Or.inl (by omega)
  refine ⟨⟨h.sample, h.offset, h.nonneg, Or.inr hslew⟩, ?_⟩
  simp [internalClock, startSlew]

/-- A call that does not interrupt a slew keeps the state tracking, does not
move the shown time back, and shows the current time if it shows any. -/
theorem ClockCall.run_tracking {st : TimekeepingState} {shift : ℤ} {prev : ℕ}
    (h : Tracking st shift prev) (call : ClockCall) (ordered : prev ≤ call.count)
    (near : call.count < prev + 2 ^ 32) (keeps : ¬ InterruptsSlew st call) :
    ∃ shift', Tracking (call.run st).2 shift' call.count ∧
      internalClock st (prev + shift) ≤
        internalClock (call.run st).2 (call.count + shift') ∧
      ∀ shown, (call.run st).1 = some shown →
        shown.micros = internalClock (call.run st).2 (call.count + shift') := by
  obtain ⟨shift', htrack, hmono⟩ := checkSystemClock_tracking h ordered near
  have hnow : (getSystemClockUs call.count : ℤ) +
      (checkSystemClock st call.count call.count).clockOffset = call.count + shift' :=
    unslewed_of_offset htrack.offset
  refine ⟨shift', ?_⟩
  cases call with
  | gettimeofday wanted count =>
    simp only [ClockCall.count] at htrack hmono hnow ⊢
    cases wanted with
    | false => exact ⟨htrack, hmono, fun shown hshown => by simp [run, gettimeofdayR] at hshown⟩
    | true =>
      refine ⟨htrack, hmono, fun shown hshown => ?_⟩
      simp only [run, gettimeofdayR, if_true, Option.some.injEq] at hshown ⊢
      rw [← hshown, micros_toTimeval, hnow]
  | adjtime delta wantsOld count =>
    simp only [ClockCall.count] at htrack hmono hnow ⊢
    cases delta with
    | none => exact ⟨htrack, hmono, fun shown hshown => by simp [run] at hshown⟩
    | some delta =>
      by_cases haccepted : delta.Adjustable
      · have hstate : (run st (adjtime (some delta) wantsOld count)).2 =
            startSlew (checkSystemClock st count count) delta (count + shift') := by
          simp only [run, adjtimeR, if_pos haccepted, hnow]
        obtain ⟨hnext, hshow⟩ := startSlew_tracking htrack haccepted
        rw [hstate]
        refine ⟨hnext, hmono.trans ?_, fun shown hshown => by simp [run] at hshown⟩
        rw [hshow]
        -- the interrupted slew had contributed nothing, or had slowed the clock
        by_cases hidle : (checkSystemClock st count count).slewCompleteTime = 0
        · simp [internalClock, hidle]
        · have hslew := htrack.slew.resolve_left hidle
          have hkept : ¬ (0 < (checkSystemClock st count count).adjtimeDelta ∧
              2000 ≤ count + shift' - (checkSystemClock st count count).slewStartTime) := by
            rintro ⟨hpositive, helapsed⟩
            refine keeps ⟨haccepted, hidle, hpositive, ?_⟩
            rwa [unslewed, hnow]
          obtain ⟨_, hstarted, hcomplete, hpending⟩ := hslew
          rw [internalClock_of_running hidle hstarted]
          split
          · omega
          · rw [abs_of_nonneg (by omega)] at hcomplete
            omega
      · have hstate : (run st (adjtime (some delta) wantsOld count)).2 =
            checkSystemClock st count count := by
          simp only [run, adjtimeR, if_neg haccepted]
        rw [hstate]
        exact ⟨htrack, hmono, fun shown hshown => by simp [run] at hshown⟩

/-! ## A whole run -/

/-- Everything shown from a tracking state on is at least what that state shows,
and the shown times never decrease. -/
theorem shownTimes_sorted (calls : List ClockCall) :
    ∀ {st : TimekeepingState} {shift : ℤ} {prev : ℕ}, Tracking st shift prev →
      Spaced prev calls → NeverInterruptsSlew st calls →
      (∀ shown ∈ shownTimes st calls, internalClock st (prev + shift) ≤ shown) ∧
        (shownTimes st calls).Pairwise (· ≤ ·) := by
  induction calls with
  | nil => intro st shift prev _ _ _; simp [shownTimes]
  | cons call calls ih =>
    intro st shift prev h spaced keeps
    obtain ⟨hordered, hnear, hspaced⟩ := spaced
    obtain ⟨hkeeps, hrest⟩ := keeps
    obtain ⟨shift', htrack, hmono, hshown⟩ := call.run_tracking h hordered hnear hkeeps
    obtain ⟨hlower, hsorted⟩ := ih htrack hspaced hrest
    simp only [shownTimes]
    cases hresult : (call.run st).1 with
    | none =>
      simp only [Option.map_none, Option.toList_none, List.nil_append]
      exact ⟨fun shown hmem => hmono.trans (hlower shown hmem), hsorted⟩
    | some shown =>
      have hvalue := hshown shown hresult
      simp only [Option.map_some, Option.toList_some, List.singleton_append,
        List.mem_cons, List.pairwise_cons]
      refine ⟨?_, fun later hmem => hvalue ▸ hlower later hmem, hsorted⟩
      rintro later (rfl | hmem)
      · exact hvalue ▸ hmono
      · exact hmono.trans (hlower later hmem)

/-- The state right after the time was set, with all samples equal. -/
def justSet (st : TimekeepingState) (tv : Timeval) (count : ℕ) : TimekeepingState :=
  SetCall.run ⟨count, count, count⟩ st tv

theorem justSet_tracking (st : TimekeepingState) {tv : Timeval} (settable : tv.Settable)
    (count : ℕ) : Tracking (justSet st tv count) (tv.micros - count) count := by
  have hfollow := SetCall.run_following ⟨count, count, count⟩ st settable
  have hsplit := Nat.div_add_mod count (2 ^ 32)
  obtain ⟨husec, _, hsec⟩ := settable
  refine ⟨hfollow.sample, ?_, ?_, Or.inl hfollow.idle⟩
  · rw [justSet, hfollow.offset]
    simp only
    omega
  · simp only [Timeval.micros]
    omega

/-- After the time was set, the times shown by any spaced sequence of
`gettimeofday` and `adjtime` calls never decrease, provided no accepted
adjustment interrupts a positive slew that has already contributed. -/
theorem gettimeofday_never_decreases (st : TimekeepingState) (tv : Timeval) (count : ℕ)
    (calls : List ClockCall) (settable : tv.Settable) (spaced : Spaced count calls)
    (keeps : NeverInterruptsSlew (justSet st tv count) calls) :
    (shownTimes (justSet st tv count) calls).Pairwise (· ≤ ·) :=
  (shownTimes_sorted calls (justSet_tracking st settable count) spaced keeps).2

/-- A positive slew that is read twice and then left alone. -/
theorem gettimeofday_never_decreases_one_slew :
    (shownTimes (justSet ⟨0, 0, 0, 0, 0⟩ ⟨1000000000, 0⟩ 0)
      [.adjtime (some ⟨0, 5000⟩) false 0, .gettimeofday true 4000,
        .gettimeofday true 6000]).Pairwise (· ≤ ·) :=
  gettimeofday_never_decreases ⟨0, 0, 0, 0, 0⟩ ⟨1000000000, 0⟩ 0
    [.adjtime (some ⟨0, 5000⟩) false 0, .gettimeofday true 4000, .gettimeofday true 6000]
    (by decide) (by decide)
    ⟨fun ⟨_, hrunning, _⟩ => hrunning (by decide), fun h => h, fun h => h, trivial⟩

/-- Monotonicity does not hold for every sequence. A slew of five milliseconds
has added two microseconds after 4000; requesting it again at that moment drops
them, and the next read is two microseconds earlier than the one before. -/
theorem gettimeofday_decreases_when_slew_interrupted :
    ¬ ∀ (st : TimekeepingState) (tv : Timeval) (count : ℕ) (calls : List ClockCall),
        tv.Settable → Spaced count calls →
        (shownTimes (justSet st tv count) calls).Pairwise (· ≤ ·) := by
  intro monotone
  have hsorted := monotone ⟨0, 0, 0, 0, 0⟩ ⟨1000000000, 0⟩ 0
    [.adjtime (some ⟨0, 5000⟩) false 0, .gettimeofday true 4000,
      .adjtime (some ⟨0, 5000⟩) false 4000, .gettimeofday true 4000]
    (by decide) (by decide)
  exact absurd hsorted (by decide)

end EspOpenRtos.Timekeeping
