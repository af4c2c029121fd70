/-
# Timeouts in timer counts

A time in microseconds becomes a number of timer counts. At 80 MHz and 5 MHz a microsecond
is a whole number of counts. At 312.5 kHz the number is scaled by a product in 32 bits, with
a test in front of it that lets one product through that is too large. What comes out of
that is no count, so an answer is never a wrong number of counts; but the test also turns
away times for which the timer has room.
-/

import EspOpenRtos.Pwm.Driver

namespace EspOpenRtos.EspTimer

open Pwm (ClkDiv timerFreqs)

/-! ## The functions -/

/-- `timer_frc_t`. -/
inductive TimerFrc
  | frc1
  | frc2
  deriving DecidableEq, Repr

/-- `timer_max_load`. -/
def timerMaxLoad : TimerFrc → UInt32
  | .frc1 => 0x7FFFFF
  | .frc2 => 0xFFFFFFFF

/-- `timer_time_to_count`. -/
def timerTimeToCount (frc : TimerFrc) (us : UInt32) (div : ClkDiv) : UInt32 :=
  if div ≠ .div256 then
    let countsPerUs := UInt32.ofNat (timerFreqs div / 1000 / 1000)
    if us > timerMaxLoad frc / countsPerUs then 0 else us * countsPerUs
  else
    let scalar : UInt32 := UInt32.ofNat (timerFreqs .div256 / 500)
    if us > 1 + 0xFFFFFFFF / scalar then 0
    else
      let counts := us * scalar / 2000
      if counts > timerMaxLoad frc then 0 else counts

/-- `timer_time_to_div`. -/
def timerTimeToDiv (us : UInt32) : ClkDiv :=
  if us < 1000 then .div1 else if us < 10 * 1000 then .div16 else .div256

/-- The registers of a timer that a timeout uses. -/
structure TimerRegs where
  load : UInt32
  count : UInt32
  alarm : UInt32
  clkdiv : ClkDiv

/-- `timer_set_timeout`; `none` is `-EINVAL`. -/
def timerSetTimeout (timers : TimerFrc → TimerRegs) (frc : TimerFrc) (us : UInt32) :
    Option (TimerFrc → TimerRegs) :=
  let div := timerTimeToDiv us
  let counts := timerTimeToCount frc us div
  if counts = 0 then none
  else
    some (Function.update timers frc
      (match frc with
        | .frc1 => { timers .frc1 with clkdiv := div, load := counts }
        | .frc2 => { timers .frc2 with clkdiv := div, alarm := counts + (timers .frc2).count }))

/-! ## Counts -/

/-- The whole counts in a time. -/
def wholeCounts (us : UInt32) (div : ClkDiv) : ℕ := us.toNat * timerFreqs div / 10 ^ 6

/-- The timer can count that far, and there is something to count. -/
def Fits (frc : TimerFrc) (counts : ℕ) : Prop := 1 ≤ counts ∧ counts ≤ (timerMaxLoad frc).toNat

instance (frc : TimerFrc) (counts : ℕ) : Decidable (Fits frc counts) :=
  inferInstanceAs (Decidable (_ ∧ _))

/-- The first time that is turned away by the test in front of the product. -/
def firstRefused : ℕ := 6871948

/-- How far a timer counts until the timeout. -/
def TimerRegs.programmed (t : TimerRegs) : TimerFrc → UInt32
  | .frc1 => t.load
  | .frc2 => t.alarm - t.count

section Counts

variable (frc : TimerFrc) (us : UInt32)

/-- A product behind a test that it does not exceed a bound. -/
theorem guarded_product (max us k : UInt32) (hk : 0 < k.toNat) :
    (if us > max / k then 0 else us * k).toNat =
      if us.toNat * k.toNat ≤ max.toNat then us.toNat * k.toNat else 0 := by
  have htest : us > max / k ↔ max.toNat < us.toNat * k.toNat := by
    rw [gt_iff_lt, UInt32.lt_iff_toNat_lt, UInt32.toNat_div, Nat.div_lt_iff_lt_mul hk]
  split
  · next hlarge => rw [if_neg (Nat.not_le.mpr (htest.mp hlarge)), UInt32.toNat_zero]
  · next hsmall =>
      have hle : us.toNat * k.toNat ≤ max.toNat := Nat.not_lt.mp fun h => hsmall (htest.mpr h)
      rw [if_pos hle, UInt32.toNat_mul, Nat.mod_eq_of_lt (Nat.lt_of_le_of_lt hle max.toNat_lt)]

/-- The fast dividers are exact. -/
theorem timerTimeToCount_fast {div : ClkDiv} (h : div ≠ .div256) :
    (timerTimeToCount frc us div).toNat =
      if Fits frc (wholeCounts us div) then wholeCounts us div else 0 := by
  have hexact {k : UInt32} (hk : 0 < k.toNat) (hfreq : timerFreqs div = k.toNat * 10 ^ 6) :
      (if us > timerMaxLoad frc / k then 0 else us * k).toNat =
        if Fits frc (wholeCounts us div) then wholeCounts us div else 0 := by
    have hwhole : wholeCounts us div = us.toNat * k.toNat := by
      rw [wholeCounts, hfreq, ← Nat.mul_assoc, Nat.mul_div_cancel _ (by decide)]
    rw [guarded_product _ _ _ hk, hwhole]
    by_cases hle : us.toNat * k.toNat ≤ (timerMaxLoad frc).toNat
    · rw [if_pos hle]
      split
      · rfl
      · next hnot => exact Nat.lt_one_iff.mp (Nat.not_le.mp fun hpos => hnot ⟨hpos, hle⟩)
    · rw [if_neg hle, if_neg fun hfits => hle hfits.2]
  rw [timerTimeToCount, if_pos h]
  cases div with
  | div1 | div16 => exact hexact (by decide) (by decide)
  | div256 => exact absurd rfl h

/-- The slow divider is exact as far as the test lets it be. At the first time that the test
should turn away, the product wraps around to less than one count. -/
theorem timerTimeToCount_slow :
    (timerTimeToCount frc us .div256).toNat =
      if Fits frc (wholeCounts us .div256) ∧ us.toNat < firstRefused then wholeCounts us .div256
      else 0 := by
  have hmax := (timerMaxLoad frc).toNat_lt
  have hus := us.toNat_lt
  have hscalar : UInt32.ofNat (timerFreqs .div256 / 500) = 625 := by decide
  have htest : us > 1 + 0xFFFFFFFF / 625 ↔ 6871948 < us.toNat := by
    rw [gt_iff_lt, UInt32.lt_iff_toNat_lt]
    exact Iff.rfl
  have hcounts : (us * 625 / 2000).toNat = us.toNat * 625 % 2 ^ 32 / 2000 := by
    rw [UInt32.toNat_div, UInt32.toNat_mul]
    rfl
  have hlarge : us * 625 / 2000 > timerMaxLoad frc ↔
      (timerMaxLoad frc).toNat < us.toNat * 625 % 2 ^ 32 / 2000 := by
    rw [gt_iff_lt, UInt32.lt_iff_toNat_lt, hcounts]
  have hwhole : wholeCounts us .div256 = us.toNat * 625 / 2000 := by
    rw [wholeCounts, show timerFreqs .div256 = 312500 from rfl]
    omega
  have hproduct (hbelow : us.toNat < 6871948) : us.toNat * 625 % 2 ^ 32 = us.toNat * 625 :=
    Nat.mod_eq_of_lt (by omega)
  have hgoal : (if us > 1 + 0xFFFFFFFF / 625 then 0
      else if us * 625 / 2000 > timerMaxLoad frc then 0 else us * 625 / 2000).toNat =
        if 6871948 < us.toNat then 0
        else if (timerMaxLoad frc).toNat < us.toNat * 625 % 2 ^ 32 / 2000 then 0
        else us.toNat * 625 % 2 ^ 32 / 2000 := by
    simp only [htest, hlarge, apply_ite UInt32.toNat, hcounts, UInt32.toNat_zero]
  rw [timerTimeToCount, if_neg (not_not.mpr rfl), hscalar, hwhole]
  refine hgoal.trans ?_
  by_cases hin : Fits frc (us.toNat * 625 / 2000) ∧ us.toNat < firstRefused
  · rw [if_pos hin]
    obtain ⟨⟨hpos, hfits⟩, hbelow⟩ := hin
    unfold firstRefused at hbelow
    rw [hproduct hbelow, if_neg (by omega), if_neg (by omega)]
  · rw [if_neg hin]
    unfold Fits firstRefused at hin
    rcases Nat.lt_trichotomy us.toNat 6871948 with hbelow | hequal | habove
    · rw [hproduct hbelow, if_neg (by omega)]
      split <;> omega
    · rw [hequal, if_neg (by omega)]
      split <;> rfl
    · rw [if_pos habove]

theorem timerTimeToCount_eq (div : ClkDiv) :
    (timerTimeToCount frc us div).toNat =
      if Fits frc (wholeCounts us div) ∧ ¬(div = .div256 ∧ firstRefused ≤ us.toNat)
      then wholeCounts us div else 0 := by
  by_cases hslow : div = .div256
  · rw [hslow, timerTimeToCount_slow]
    simp
  · rw [timerTimeToCount_fast frc us hslow]
    simp [hslow]

theorem timerTimeToDiv_of_refused (h : firstRefused ≤ us.toNat) : timerTimeToDiv us = .div256 := by
  unfold firstRefused at h
  have hlarge {k : UInt32} (hk : k.toNat ≤ 6871948) : ¬us < k := fun hlt =>
    Nat.not_le.mpr (UInt32.lt_iff_toNat_lt.mp hlt) (Nat.le_trans hk h)
  rw [timerTimeToDiv, if_neg (hlarge (by decide)), if_neg (hlarge (by decide))]

theorem programmed_timerSetTimeout {timers timers' : TimerFrc → TimerRegs}
    (h : timerSetTimeout timers frc us = some timers') :
    timerTimeToCount frc us (timerTimeToDiv us) ≠ 0 ∧
      (timers' frc).programmed frc = timerTimeToCount frc us (timerTimeToDiv us) ∧
      (timers' frc).clkdiv = timerTimeToDiv us := by
  unfold timerSetTimeout at h
  dsimp only at h
  split at h
  · cases h
  · next hcounts =>
      obtain rfl := Option.some.inj h
      refine ⟨hcounts, ?_⟩
      rw [Function.update_self]
      cases frc with
      | frc1 => exact ⟨rfl, rfl⟩
      | frc2 => exact ⟨UInt32.add_sub_cancel _ _, rfl⟩

theorem timerSetTimeout_eq_none_iff (timers : TimerFrc → TimerRegs) :
    timerSetTimeout timers frc us = none ↔ timerTimeToCount frc us (timerTimeToDiv us) = 0 := by
  unfold timerSetTimeout
  dsimp only
  split
  · next hzero => exact iff_of_true rfl hzero
  · next hcounts => exact iff_of_false (Option.some_ne_none _) hcounts

/-- The conversion gives the whole counts of a time if the timer has room for them, and 0
otherwise; but it also gives 0 for times that the test turns away. A timeout that is set is
right to within a count, and is refused only where it should be, apart from these times. -/
theorem timer_time_conversion (div : ClkDiv) (timers : TimerFrc → TimerRegs) :
    ((timerTimeToCount frc us div).toNat =
        (if Fits frc (wholeCounts us div) then wholeCounts us div else 0) ↔
      ¬(div = .div256 ∧ firstRefused ≤ us.toNat ∧ Fits frc (wholeCounts us div))) ∧
    (∀ timers', timerSetTimeout timers frc us = some timers' →
      (timers' frc).clkdiv = timerTimeToDiv us ∧
      ((timers' frc).programmed frc).toNat * 10 ^ 6 ≤ us.toNat * timerFreqs (timerTimeToDiv us) ∧
      us.toNat * timerFreqs (timerTimeToDiv us) <
        (((timers' frc).programmed frc).toNat + 1) * 10 ^ 6) ∧
    ((timerSetTimeout timers frc us = none → ¬Fits frc (wholeCounts us (timerTimeToDiv us))) ↔
      ¬(firstRefused ≤ us.toNat ∧ Fits frc (wholeCounts us (timerTimeToDiv us)))) := by
  refine ⟨?_, ?_, ?_⟩
  · rw [timerTimeToCount_eq]
    by_cases hfits : Fits frc (wholeCounts us div)
    · by_cases hrefused : div = .div256 ∧ firstRefused ≤ us.toNat
      · rw [if_neg fun h => h.2 hrefused, if_pos hfits]
        exact iff_of_false (Nat.ne_of_lt hfits.1) fun h => h ⟨hrefused.1, hrefused.2, hfits⟩
      · rw [if_pos ⟨hfits, hrefused⟩, if_pos hfits]
        exact iff_of_true rfl fun h => hrefused ⟨h.1, h.2.1⟩
    · rw [if_neg fun h => hfits h.1, if_neg hfits]
      exact iff_of_true rfl fun h => hfits h.2.2
  · intro timers' hset
    obtain ⟨hcounts, hprogrammed, hdiv⟩ := programmed_timerSetTimeout frc us hset
    have hwhole : (timerTimeToCount frc us (timerTimeToDiv us)).toNat =
        wholeCounts us (timerTimeToDiv us) := by
      have heq := timerTimeToCount_eq frc us (timerTimeToDiv us)
      split at heq
      · exact heq
      · exact absurd (UInt32.toNat_inj.mp heq) hcounts
    rw [hprogrammed, hwhole]
    refine ⟨hdiv, Nat.div_mul_le_self _ _, ?_⟩
    rw [Nat.mul_comm (_ + 1)]
    exact Nat.lt_mul_div_succ _ (by decide)
  · rw [timerSetTimeout_eq_none_iff, ← UInt32.toNat_inj, timerTimeToCount_eq]
    constructor
    · rintro hnone ⟨hrefused, hfits⟩
      refine hnone ?_ hfits
      rw [if_neg fun h => h.2 ⟨timerTimeToDiv_of_refused us hrefused, hrefused⟩]
      rfl
    · intro hright hzero hfits
      rw [if_pos ⟨hfits, fun hrefused => hright ⟨hrefused.2, hfits⟩⟩] at hzero
      exact Nat.ne_of_gt hfits.1 hzero

end Counts

/-- At seven seconds the conversion says that 2187500 counts are too many for FRC1. -/
theorem timer_time_seven_seconds : timerTimeToCount .frc1 7000000 .div256 = 0 ∧
    wholeCounts 7000000 .div256 = 2187500 ∧ Fits .frc1 2187500 := by
  decide

end EspOpenRtos.EspTimer
