/-
# The loads of a period

A frequency gives the load of the whole period, and a duty divides it into the loads of its
two parts. All of them fit the register of the timer, and the parts make up the period. The
share of the duty is computed in 32 bits, which is enough for all frequencies but the four
lowest, and there for the small duties.
-/

import EspOpenRtos.Pwm.Signal

namespace EspOpenRtos.Pwm

/-- The width of the load register of FRC1. -/
def loadBits : ℕ := 23

section Loads

variable (s : PwmInfo)

/-- A start takes both loads from the duty, also when it then drops the duty. -/
theorem pwmStart_loads : s.pwmStart.onLoad = PwmInfo.onLoadOf s.dutyCycle s.maxLoad ∧
    s.pwmStart.offLoad = s.maxLoad - PwmInfo.onLoadOf s.dutyCycle s.maxLoad ∧
    s.pwmStart.timer.clkdiv = s.timer.clkdiv := by
  unfold PwmInfo.pwmStart
  dsimp only
  split <;> split <;> exact ⟨rfl, rfl, rfl⟩

/-- A duty that was dropped had no on-time anyway. -/
theorem onLoadOf_pwmStart :
    PwmInfo.onLoadOf s.pwmStart.dutyCycle s.maxLoad = PwmInfo.onLoadOf s.dutyCycle s.maxLoad := by
  rw [pwmStart_dutyCycle]
  split
  · next hzero =>
      rw [hzero]
      simp [PwmInfo.onLoadOf]
  · rfl

theorem pwmSetFreq_loads {freq : UInt16} (hfreq : freq.toNat ≠ 0) :
    (s.pwmSetFreq freq).maxLoad = timerFreqs (timerFreqToDiv freq.toNat) / freq.toNat ∧
      (s.pwmSetFreq freq).timer.clkdiv = timerFreqToDiv freq.toNat := by
  have hcount := timerFreqToCount_ne_zero hfreq
  have hdiv : timerFreqToCount freq.toNat (timerFreqToDiv freq.toNat) =
      timerFreqs (timerFreqToDiv freq.toNat) / freq.toNat := by
    unfold timerFreqToCount at hcount ⊢
    split at hcount
    · exact absurd rfl hcount
    · next hle => rw [if_neg hle]
  have hchange (p : PwmInfo) : (p.changeFreq freq).maxLoad =
        timerFreqs (timerFreqToDiv freq.toNat) / freq.toNat ∧
      (p.changeFreq freq).timer.clkdiv = timerFreqToDiv freq.toNat := by
    rw [PwmInfo.changeFreq, timerSetFrequency]
    simp only [if_neg hfreq, if_neg hcount]
    exact ⟨hdiv, trivial⟩
  unfold PwmInfo.pwmSetFreq
  split
  · rw [(pwmStart_setting _).2.1, (pwmStart_loads _).2.2]
    exact hchange _
  · exact hchange s

/-- Setting the duty keeps the period; a restart may drop the duty. -/
theorem pwmSetDuty_loads (duty : UInt16) :
    (s.pwmSetDuty duty).maxLoad = s.maxLoad ∧
      (s.pwmSetDuty duty).timer.clkdiv = s.timer.clkdiv ∧
      PwmInfo.onLoadOf (s.pwmSetDuty duty).dutyCycle s.maxLoad =
        PwmInfo.onLoadOf duty s.maxLoad := by
  have hrestart (p : PwmInfo) : p.pwmRestart.maxLoad = p.maxLoad ∧
      p.pwmRestart.timer.clkdiv = p.timer.clkdiv ∧
      PwmInfo.onLoadOf p.pwmRestart.dutyCycle p.maxLoad =
        PwmInfo.onLoadOf p.dutyCycle p.maxLoad := by
    unfold PwmInfo.pwmRestart
    split
    · exact ⟨(pwmStart_setting _).2.1, (pwmStart_loads _).2.2, onLoadOf_pwmStart p.pwmStop⟩
    · exact ⟨rfl, rfl, rfl⟩
  unfold PwmInfo.pwmSetDuty
  dsimp only
  split
  · exact hrestart _
  · exact hrestart _

theorem period_lt (freq : UInt16) :
    timerFreqs (timerFreqToDiv freq.toNat) / freq.toNat < 2 ^ loadBits := by
  have hlt := freq.toNat_lt
  unfold timerFreqToDiv
  split
  · omega
  · split
    · next hmiddle =>
        refine Nat.lt_of_le_of_lt (Nat.div_le_div_left (Nat.le_of_lt hmiddle) (by decide)) ?_
        decide
    · refine Nat.lt_of_le_of_lt (Nat.div_le_self _ _) ?_
      decide

theorem onLoadOf_le (duty : UInt16) (maxLoad : ℕ) : PwmInfo.onLoadOf duty maxLoad ≤ maxLoad := by
  have hduty : duty.toNat ≤ uint16Max := Nat.le_of_lt_succ duty.toNat_lt
  calc PwmInfo.onLoadOf duty maxLoad ≤ duty.toNat * maxLoad / uint16Max :=
        Nat.div_le_div_right (Nat.mod_le _ _)
    _ ≤ uint16Max * maxLoad / uint16Max := Nat.div_le_div_right (Nat.mul_le_mul_right _ hduty)
    _ = maxLoad := Nat.mul_div_cancel_left _ (by decide)

/-- The loads of a frequency and a duty. The on load is the exact one if the product of
duty and period fits 32 bits. -/
structure LoadsFor (freq duty : UInt16) (s : PwmInfo) : Prop where
  clkdiv : s.timer.clkdiv = timerFreqToDiv freq.toNat
  maxLoad : s.maxLoad = timerFreqs (timerFreqToDiv freq.toNat) / freq.toNat
  sum : s.onLoad + s.offLoad = s.maxLoad
  onFits : s.onLoad < 2 ^ loadBits
  offFits : s.offLoad < 2 ^ loadBits
  exact_iff : s.onLoad = duty.toNat * s.maxLoad / uint16Max ↔ duty.toNat * s.maxLoad < 2 ^ 32

/-- The loads after a start with a new frequency and duty. -/
theorem pwm_loads_iff (freq duty : UInt16) (hfreq : 0 < freq.toNat) :
    LoadsFor freq duty ((s.pwmSetFreq freq).pwmSetDuty duty).pwmStart := by
  set s' := ((s.pwmSetFreq freq).pwmSetDuty duty).pwmStart
  obtain ⟨hmax₁, hdiv₁⟩ := pwmSetFreq_loads s (Nat.ne_of_gt hfreq)
  obtain ⟨hmax₂, hdiv₂, hon₂⟩ := pwmSetDuty_loads (s.pwmSetFreq freq) duty
  obtain ⟨hon₃, hoff₃, hdiv₃⟩ := pwmStart_loads ((s.pwmSetFreq freq).pwmSetDuty duty)
  have hmax₃ := (pwmStart_setting ((s.pwmSetFreq freq).pwmSetDuty duty)).2.1
  have hmax : s'.maxLoad = timerFreqs (timerFreqToDiv freq.toNat) / freq.toNat :=
    hmax₃.trans (hmax₂.trans hmax₁)
  have hon : s'.onLoad = PwmInfo.onLoadOf duty s'.maxLoad := by
    rw [hmax₃, hmax₂, ← hon₂, ← hmax₂]
    exact hon₃
  have hoff : s'.offLoad = s'.maxLoad - s'.onLoad := by
    rw [hon₃, hmax₃]
    exact hoff₃
  have hle : s'.onLoad ≤ s'.maxLoad := hon ▸ onLoadOf_le duty s'.maxLoad
  have hlt : s'.maxLoad < 2 ^ loadBits := hmax ▸ period_lt freq
  refine ⟨hdiv₃.trans (hdiv₂.trans hdiv₁), hmax, by omega, by omega, by omega, ?_⟩
  rw [hon]
  exact onLoadOf_eq_onTime_iff

end Loads

/-- At 50 Hz every duty is exact. -/
theorem pwm_loads_servo : 0 < (50 : UInt16).toNat ∧ ∀ (s : PwmInfo) (duty : UInt16),
    ((s.pwmSetFreq 50).pwmSetDuty duty).pwmStart.onLoad = duty.toNat * 6250 / uint16Max := by
  refine ⟨by decide, fun s duty => ?_⟩
  have hloads := pwm_loads_iff s 50 duty (by decide)
  have hon := hloads.exact_iff
  have hperiod : timerFreqs (timerFreqToDiv (50 : UInt16).toNat) / (50 : UInt16).toNat = 6250 := by
    decide
  have hduty := duty.toNat_lt
  rw [hloads.maxLoad, hperiod] at hon
  exact hon.mpr (by omega)

/-- Half of a period of one second comes out as 25178 counts instead of 156252. -/
theorem pwm_loads_one_hertz : 0 < (1 : UInt16).toNat ∧
    (((PwmInfo.boot 0 fun _ => false).pwmSetFreq 1).pwmSetDuty 32768).pwmStart.onLoad = 25178 ∧
    32768 * (312500 / 1) / uint16Max = 156252 := by
  decide +kernel

end EspOpenRtos.Pwm
