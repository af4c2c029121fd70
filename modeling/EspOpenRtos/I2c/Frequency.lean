/-
# The clock of the I2C bus

A frequency is turned into numbers of rounds of the delay loop, one for each clock of the
CPU. `i2c_start` picks the one for the present clock, and every delay up to the next start
uses it. Twice the frequency is computed in 32 bits and is divided by, and the loop counts
down before it tests, so that a stored 0 makes it run through all 32-bit numbers.
-/

import EspOpenRtos.Math.Runs
import Mathlib.Algebra.Order.Group.Nat
import Mathlib.Tactic.Set

namespace EspOpenRtos.I2c

open Math.Runs

/-- The two builds: `I2C_USE_GPIO16` or not. -/
inductive Build
  | gpio16
  | plain

/-- `SYS_CPU_80MHZ` and `SYS_CPU_160MHZ`. -/
inductive CpuFreq
  | mhz80
  | mhz160
  deriving DecidableEq

/-- `DELAY_OVERHEAD_80MHZ` and `DELAY_OVERHEAD_160MHZ`. -/
def delayOverhead : Build → CpuFreq → UInt32
  | .gpio16, .mhz80 => 18
  | .gpio16, .mhz160 => 20
  | .plain, .mhz80 => 12
  | .plain, .mhz160 => 14

/-- `DELAY_LOOPS_PER_US_160MHZ`. -/
def delayLoopsPerUs160Mhz : UInt32 := 40

/-- The delays of a bus. -/
structure Delays where
  delay80 : UInt8
  delay160 : UInt8
  delay : UInt8
  deriving DecidableEq

/-- The value of a word that is read as `int32_t`. -/
def signed (x : UInt32) : ℤ := x.toBitVec.toInt

/-- The stored delay, and whether it had to be clamped. -/
def clamp (delay : ℤ) : UInt8 × Bool :=
  if delay > 255 then (255, true) else if delay < 0 then (0, true)
  else (UInt8.ofNat delay.toNat, false)

/-- `i2c_set_frequency_hz`: whether it returns 0, and the delays. There is no result when
it divides by zero. -/
def i2cSetFrequencyHz (build : Build) (bus : Delays) (freq : UInt32) : Option (Bool × Delays) :=
  if freq = 0 then some (false, bus)
  else if 2 * freq = 0 then none
  else
    let tickCount := 1000000 * delayLoopsPerUs160Mhz / (2 * freq)
    let (delay80, notOk80) := clamp (signed (tickCount / 2 - delayOverhead build .mhz80))
    let (delay160, notOk160) := clamp (signed (tickCount - delayOverhead build .mhz160))
    some (!(notOk80 || notOk160), { bus with delay80 := delay80, delay160 := delay160 })

theorem toNat_pred {x : UInt32} (h : x ≠ 0) : (x - 1).toNat + 1 = x.toNat := by
  have hpos : (1 : UInt32).toNat ≤ x.toNat := by
    apply Nat.one_le_iff_ne_zero.mpr
    simpa [← UInt32.toNat_inj] using h
  rw [UInt32.toNat_sub_of_le _ _ (UInt32.le_iff_toNat_le.mpr hpos)]
  exact Nat.sub_add_cancel hpos

/-- The rounds of the loop in `i2c_delay`. -/
def delayRounds (delay : UInt32) : ℕ :=
  if delay - 1 = 0 then 1 else delayRounds (delay - 1) + 1
termination_by (delay - 1).toNat
decreasing_by exact Nat.lt_of_succ_le (toNat_pred (by assumption)).le

/-- The delay that is stored for a clock. -/
def Delays.stored (bus : Delays) : CpuFreq → UInt8
  | .mhz80 => bus.delay80
  | .mhz160 => bus.delay160

inductive Event
  | start
  | delay
  | cpuFreq (clock : CpuFreq)

/-- The bus, the clock of the CPU, and the delays made so far: their rounds, and the clock
at that time. -/
structure Timing where
  bus : Delays
  clock : CpuFreq
  made : List (CpuFreq × ℕ)

/-- The first statement of `i2c_start`, a delay, a change of the clock. -/
def Timing.step (t : Timing) : Event → Timing
  | .start => { t with bus := { t.bus with delay := t.bus.stored t.clock } }
  | .delay => { t with made := t.made ++ [(t.clock, delayRounds t.bus.delay.toUInt32)] }
  | .cpuFreq clock => { t with clock := clock }

/-- Rounds of the loop in a second. -/
def loopsPerS : CpuFreq → ℕ
  | .mhz80 => 20000000
  | .mhz160 => 40000000

/-- The rounds that are left of a half period behind the overhead. -/
def roundsFor (build : Build) (freq : UInt32) (clock : CpuFreq) : ℕ :=
  loopsPerS clock / (2 * freq).toNat - (delayOverhead build clock).toNat

/-- Every delay is made with the rounds for the present clock, of which there are some. The
number in use is that of the last start, or one from before the first start. -/
def Timely (build : Build) (freq : UInt32) : (inUse : ℕ) → CpuFreq → List Event → Prop
  | _, _, [] => True
  | _, clock, .start :: events => Timely build freq (roundsFor build freq clock) clock events
  | inUse, clock, .delay :: events =>
    inUse = roundsFor build freq clock ∧ inUse ≠ 0 ∧ Timely build freq inUse clock events
  | inUse, _, .cpuFreq clock :: events => Timely build freq inUse clock events

/-- A delay, made at some clock, takes the number of rounds stored for this clock, which is
from 1 to 255. -/
def Delays.Makes (bus : Delays) (made : CpuFreq × ℕ) : Prop :=
  made.2 = (bus.stored made.1).toNat ∧ 1 ≤ made.2 ∧ made.2 ≤ 255

/-- The delay together with the overhead is less than one round away from the half
period. -/
def NearHalfPeriod (build : Build) (freq : UInt32) (clock : CpuFreq) (delay : UInt8) : Prop :=
  (delay.toNat + (delayOverhead build clock).toNat) * (2 * freq.toNat) <
      loopsPerS clock + 2 * freq.toNat ∧
    loopsPerS clock <
      (delay.toNat + (delayOverhead build clock).toNat) * (2 * freq.toNat) + 2 * freq.toNat

/-! ## The delay loop -/

theorem delayRounds_eq (delay : UInt32) : delayRounds delay = (delay - 1).toNat + 1 := by
  fun_induction delayRounds delay with
  | case1 delay hzero => rw [hzero]; rfl
  | case2 delay hne ih => rw [ih, toNat_pred hne]

theorem delayRounds_toUInt32 (delay : UInt8) :
    delayRounds delay.toUInt32 = if delay = 0 then 2 ^ 32 else delay.toNat := by
  rw [delayRounds_eq]
  split
  · next hzero => rw [hzero]; rfl
  · next hne =>
    have hne' : delay.toUInt32 ≠ 0 := by
      simpa [← UInt8.toNat_inj, ← UInt32.toNat_inj] using hne
    simpa using toNat_pred hne'

/-- The delays of a run take the stored numbers exactly if they are timely. -/
theorem makes_iff_timely {build : Build} {freq : UInt32} {bus : Delays}
    (hrounds : ∀ clock, (bus.stored clock).toNat = roundsFor build freq clock)
    {events : List Event} {t : Timing} (hsame : t.bus.stored = bus.stored) :
    (∀ made ∈ (run Timing.step t events).made, bus.Makes made) ↔
      (∀ made ∈ t.made, bus.Makes made) ∧ Timely build freq t.bus.delay.toNat t.clock events := by
  induction events generalizing t with
  | nil => exact (and_iff_left trivial).symm
  | cons event events ih =>
    rw [run_cons]
    cases event with
    | start =>
      have hstart : (t.step .start).bus.stored = bus.stored := by
        rw [← hsame]
        funext clock
        cases clock <;> rfl
      have hdelay : (t.step .start).bus.delay.toNat = roundsFor build freq t.clock := by
        rw [← hrounds, ← hsame]
        rfl
      rw [ih hstart, hdelay]
      exact Iff.rfl
    | cpuFreq clock => exact ih (t := t.step (.cpuFreq clock)) hsame
    | delay =>
      have hlt := t.bus.delay.toNat_lt
      have hnew : bus.Makes (t.clock, delayRounds t.bus.delay.toUInt32) ↔
          t.bus.delay.toNat = roundsFor build freq t.clock ∧ t.bus.delay.toNat ≠ 0 := by
        rw [Delays.Makes, ← hrounds, delayRounds_toUInt32]
        split
        · next hzero => exact iff_of_false (by omega) fun h => h.2 (congrArg UInt8.toNat hzero)
        · dsimp only
          omega
      rw [ih (t := t.step .delay) hsame, Timely]
      simp only [Timing.step, List.forall_mem_append, List.forall_mem_singleton, hnew, and_assoc]

/-! ## The stored delays -/

theorem signed_sub {t c : UInt32} (ht : t.toNat < 2 ^ 31) (hc : c.toNat < 2 ^ 31) :
    signed (t - c) = t.toNat - c.toNat := by
  have hsub : (t - c).toNat = (2 ^ 32 - c.toNat + t.toNat) % 2 ^ 32 := UInt32.toNat_sub t c
  rw [signed, BitVec.toInt_eq_toNat_cond]
  change (if 2 * (t - c).toNat < 2 ^ 32 then ((t - c).toNat : ℤ)
    else ((t - c).toNat : ℤ) - (2 ^ 32 : ℕ)) = _
  rw [hsub]
  split <;> omega

theorem clamp_ok {delay : ℤ} {stored : UInt8} (h : clamp delay = (stored, false)) :
    (stored.toNat : ℤ) = delay := by
  unfold clamp at h
  split at h
  · simp at h
  · split at h
    · simp at h
    · obtain ⟨rfl, -⟩ := Prod.mk.inj h
      simp
      omega

/-- What a setting that returns 0 has stored. -/
theorem stored_of_ok {build : Build} {bus bus' : Delays} {freq : UInt32}
    (h : i2cSetFrequencyHz build bus freq = some (true, bus')) (clock : CpuFreq) :
    0 < (2 * freq).toNat ∧ (bus'.stored clock).toNat + (delayOverhead build clock).toNat =
      loopsPerS clock / (2 * freq).toNat := by
  unfold i2cSetFrequencyHz at h
  split at h
  · simp at h
  split at h
  · simp at h
  next hzero =>
  have hticks : (1000000 * delayLoopsPerUs160Mhz / (2 * freq)).toNat =
      40000000 / (2 * freq).toNat := UInt32.toNat_div _ _
  have hpos : 0 < (2 * freq).toNat := by
    apply Nat.pos_of_ne_zero
    simpa [← UInt32.toNat_inj] using hzero
  have hsmall : 40000000 / (2 * freq).toNat < 2 ^ 31 :=
    (Nat.div_le_self _ _).trans_lt (by decide)
  have hover : ∀ clock, (delayOverhead build clock).toNat < 2 ^ 31 := by
    intro clock
    cases build <;> cases clock <;> decide
  set tickCount := 1000000 * delayLoopsPerUs160Mhz / (2 * freq)
  have hhalf : (tickCount / 2).toNat = tickCount.toNat / 2 := UInt32.toNat_div _ _
  rcases h80 : clamp (signed (tickCount / 2 - delayOverhead build .mhz80)) with ⟨delay80, notOk80⟩
  rcases h160 : clamp (signed (tickCount - delayOverhead build .mhz160)) with ⟨delay160, notOk160⟩
  simp only [h80, h160] at h
  obtain ⟨hok, rfl⟩ : !(notOk80 || notOk160) = true ∧
      { bus with delay80 := delay80, delay160 := delay160 } = bus' := by simpa using h
  obtain ⟨rfl, rfl⟩ : notOk80 = false ∧ notOk160 = false := by simpa using hok
  have hstored80 := clamp_ok h80
  have hstored160 := clamp_ok h160
  rw [signed_sub (by omega) (hover _)] at hstored80 hstored160
  refine ⟨hpos, ?_⟩
  cases clock with
  | mhz80 =>
    have hloops : loopsPerS .mhz80 / (2 * freq).toNat = 40000000 / (2 * freq).toNat / 2 := by
      rw [Nat.div_div_eq_div_mul, Nat.mul_comm, ← Nat.div_div_eq_div_mul]
      rfl
    rw [hloops]
    dsimp only [Delays.stored]
    omega
  | mhz160 =>
    dsimp only [Delays.stored, loopsPerS]
    omega

/-- The delay in use stays as it was. -/
theorem delay_of_ok {build : Build} {bus bus' : Delays} {freq : UInt32}
    (h : i2cSetFrequencyHz build bus freq = some (true, bus')) : bus'.delay = bus.delay := by
  unfold i2cSetFrequencyHz at h
  split_ifs at h
  · cases h
  · exact (congrArg Delays.delay (Prod.mk.inj (Option.some.inj h)).2).symm

/-- Twice the frequency must not wrap. -/
theorem nearHalfPeriod_iff {build : Build} {bus bus' : Delays} {freq : UInt32}
    (h : i2cSetFrequencyHz build bus freq = some (true, bus')) (clock : CpuFreq) :
    NearHalfPeriod build freq clock (bus'.stored clock) ↔ freq.toNat < 2 ^ 31 := by
  obtain ⟨hpos, hstored⟩ := stored_of_ok h clock
  have htwice : (2 * freq).toNat = 2 * freq.toNat % 2 ^ 32 := UInt32.toNat_mul _ _
  unfold NearHalfPeriod
  constructor
  · -- otherwise the half period is shorter than a round
    rintro ⟨hnear, -⟩
    by_contra hlarge
    have hover : 12 ≤ (delayOverhead build clock).toNat := by
      cases build <;> cases clock <;> decide
    have hloops : loopsPerS clock ≤ 40000000 := by cases clock <;> decide
    have hmany := Nat.mul_le_mul_right (2 * freq.toNat)
      (hover.trans (Nat.le_add_left _ (bus'.stored clock).toNat))
    omega
  · intro hsmall
    rw [Nat.mod_eq_of_lt (by omega)] at htwice
    rw [htwice] at hstored hpos
    rw [hstored]
    exact ⟨(Nat.div_mul_le_self _ _).trans_lt (Nat.lt_add_of_pos_right hpos),
      Nat.lt_div_mul_add hpos⟩

/-- Setting the frequency divides by zero at `2 ^ 31` Hz only. What it accepts is right
below that, and the delays are right exactly if they are timely. The rounds for 160 MHz are
never 0. -/
theorem i2c_frequency_safe_iff (build : Build) (bus : Delays) (freq : UInt32)
    (hfreq : 0 < freq.toNat) :
    (i2cSetFrequencyHz build bus freq = none ↔ freq.toNat = 2 ^ 31) ∧
      ∀ bus', i2cSetFrequencyHz build bus freq = some (true, bus') →
        (∀ clock, NearHalfPeriod build freq clock (bus'.stored clock) ↔ freq.toNat < 2 ^ 31) ∧
        roundsFor build freq .mhz160 ≠ 0 ∧
        ∀ clock events,
          (∀ made ∈ (run Timing.step ⟨bus', clock, []⟩ events).made, bus'.Makes made) ↔
            Timely build freq bus.delay.toNat clock events := by
  constructor
  · have htwice : (2 * freq).toNat = 2 * freq.toNat % 2 ^ 32 := UInt32.toNat_mul _ _
    have hlt := freq.toNat_lt
    have hne : freq ≠ 0 := fun h => by simp [h] at hfreq
    unfold i2cSetFrequencyHz
    rw [if_neg hne]
    split
    · next hzero =>
      rw [hzero] at htwice
      simp only [UInt32.toNat_zero] at htwice
      exact iff_of_true rfl (by omega)
    · next hzero =>
      refine iff_of_false (by simp) fun h => hzero ?_
      rw [← UInt32.toNat_inj, htwice, h]
      rfl
  · intro bus' h
    have hrounds (clock : CpuFreq) : (bus'.stored clock).toNat = roundsFor build freq clock := by
      obtain ⟨-, hstored⟩ := stored_of_ok h clock
      rw [roundsFor]
      omega
    refine ⟨nearHalfPeriod_iff h, ?_, fun clock events => ?_⟩
    · -- half of the count is at least the smaller overhead
      obtain ⟨-, h80⟩ := stored_of_ok h .mhz80
      have hover :
          (delayOverhead build .mhz160).toNat < 2 * (delayOverhead build .mhz80).toNat := by
        cases build <;> decide
      have hhalf :
          2 * (loopsPerS .mhz80 / (2 * freq).toNat) ≤ loopsPerS .mhz160 / (2 * freq).toNat :=
        Nat.mul_div_le_mul_div_assoc 2 20000000 _
      rw [roundsFor]
      omega
    · have hdelay : bus'.delay = bus.delay := delay_of_ok h
      rw [makes_iff_timely hrounds rfl, ← hdelay]
      exact and_iff_right (by simp)

/-- At 100 kHz and 80 MHz a delay takes 88 rounds. -/
theorem i2c_frequency_safe_100k : 0 < (100000 : UInt32).toNat ∧
    i2cSetFrequencyHz .plain ⟨0, 0, 0⟩ 100000 = some (true, ⟨88, 186, 0⟩) ∧
    ∀ made ∈ (run Timing.step ⟨⟨88, 186, 0⟩, .mhz80, []⟩ [.start, .delay]).made,
      (Delays.mk 88 186 0).Makes made := by
  have hset : i2cSetFrequencyHz .plain ⟨0, 0, 0⟩ 100000 = some (true, ⟨88, 186, 0⟩) := by decide
  obtain ⟨-, hsafe⟩ := i2c_frequency_safe_iff .plain ⟨0, 0, 0⟩ 100000 (by decide)
  obtain ⟨-, -, hmakes⟩ := hsafe _ hset
  exact ⟨by decide, hset, (hmakes .mhz80 [.start, .delay]).mpr ⟨rfl, by decide, trivial⟩⟩

/-- A division by zero, and a frequency that is accepted with the delay 0. -/
theorem i2c_frequency_unsafe :
    i2cSetFrequencyHz .plain ⟨0, 0, 0⟩ 0x80000000 = none ∧
      i2cSetFrequencyHz .plain ⟨0, 0, 0⟩ 833333 = some (true, ⟨0, 10, 0⟩) ∧
      (run Timing.step ⟨⟨0, 10, 0⟩, .mhz80, []⟩ [.start, .delay]).made =
        [(.mhz80, 2 ^ 32)] := by
  refine ⟨by decide, by decide, ?_⟩
  change [(CpuFreq.mhz80, delayRounds (UInt8.toUInt32 0))] = _
  rw [delayRounds_toUInt32]
  rfl

end EspOpenRtos.I2c
