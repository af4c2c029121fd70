/-
# The PWM driver

The driver switches a group of pins from the FRC1 timer interrupt. The timer counts
down from a load value; the handler writes the other level and the load of the other
part of the period. A duty of 0% or 100% has no second level: the pins are written
once and the timer is not started.

The model has the driver's `pwmInfo`, the registers of the timer and the levels of
the pins. A call runs to its end before the next interrupt.
-/

import Mathlib.Algebra.Group.Nat.Defs
import Mathlib.Logic.Function.Basic

namespace EspOpenRtos.Pwm

/-! ## The timer -/

/-- `timer_clkdiv_t`. -/
inductive ClkDiv
  | div1
  | div16
  | div256
  deriving DecidableEq, Repr

/-- `_TIMER_FREQS`. -/
def timerFreqs : ClkDiv → ℕ
  | .div1 => 80 * 1000 * 1000
  | .div16 => 5 * 1000 * 1000
  | .div256 => 312500

/-- `timer_freq_to_div`. -/
def timerFreqToDiv (freq : ℕ) : ClkDiv :=
  if freq > 100 * 1000 then .div1 else if freq > 100 then .div16 else .div256

/-- `timer_freq_to_count`, for a frequency that is not 0. -/
def timerFreqToCount (freq : ℕ) (div : ClkDiv) : ℕ :=
  if freq > timerFreqs div then 0 else timerFreqs div / freq

/-- The registers of FRC1, with its interrupt enable. -/
structure Frc1 where
  load : ℕ
  clkdiv : ClkDiv
  reload : Bool
  run : Bool
  interrupts : Bool

/-- `timer_set_frequency` for FRC1; `none` is `-EINVAL`. -/
def timerSetFrequency (timer : Frc1) (freq : ℕ) : Option Frc1 :=
  let div := timerFreqToDiv freq
  if freq = 0 then none
  else
    let counts := timerFreqToCount freq div
    if counts = 0 then none
    else some { timer with clkdiv := div, load := counts, reload := true }

/-! ## The driver -/

/-- `pwm_step_t`. -/
inductive PwmStep
  | periodOn
  | periodOff
  deriving DecidableEq, Repr

/-- A GPIO number. -/
abbrev Pin := Fin 17

/-- `MAX_PWM_PINS`. -/
def maxPwmPins : ℕ := 8

/-- `UINT16_MAX`. -/
def uint16Max : ℕ := 65535

/-- `pwmInfo` with the hardware it works on. The list holds the used pins. -/
structure PwmInfo where
  running : Bool
  output : Bool
  reverse : Bool
  freq : UInt16
  dutyCycle : UInt16
  maxLoad : ℕ
  onLoad : ℕ
  offLoad : ℕ
  step : PwmStep
  pins : List Pin
  timer : Frc1
  /-- The interrupt handler has been attached. -/
  attached : Bool
  /-- The levels of the pins. -/
  gpio : Pin → Bool

namespace PwmInfo

/-- The driver's static data at power up, with any timer load and any pin levels. -/
def boot (load : ℕ) (gpio : Pin → Bool) : PwmInfo where
  running := false
  output := false
  reverse := false
  freq := 0
  dutyCycle := 0
  maxLoad := 0
  onLoad := 0
  offLoad := 0
  step := .periodOn
  pins := []
  timer := ⟨load, .div1, false, false, false⟩
  attached := false
  gpio := gpio

variable (s : PwmInfo)

/-- The loop that writes one level to all used pins. The level is given for normal
polarity. -/
def writePins (out : Bool) : PwmInfo :=
  let level := if s.reverse then !out else out
  { s with gpio := s.pins.foldl (fun gpio pin => Function.update gpio pin level) s.gpio }

/-- `frc1_interrupt_handler`. -/
def frc1InterruptHandler : PwmInfo :=
  let (out, load, step) : Bool × ℕ × PwmStep :=
    match s.step with
    | .periodOn => (false, s.offLoad, .periodOff)
    | .periodOff => (true, s.onLoad, .periodOn)
  let s := s.writePins out
  { s with timer := { s.timer with load := load }, step := step }

/-- `pwm_stop`. -/
def pwmStop : PwmInfo :=
  let s := { s with timer := { s.timer with interrupts := false, run := false } }
  { s.writePins false with running := false }

/-- The product in `pwm_start` is computed in 32 bits. -/
def onLoadOf (dutyCycle : UInt16) (maxLoad : ℕ) : ℕ :=
  dutyCycle.toNat * maxLoad % 2 ^ 32 / uint16Max

/-- `pwm_start`. -/
def pwmStart : PwmInfo :=
  let onLoad := onLoadOf s.dutyCycle s.maxLoad
  let s := { s with onLoad := onLoad, offLoad := s.maxLoad - onLoad, step := .periodOn }
  let s := if s.onLoad = 0 then { s with dutyCycle := 0 } else s
  let s :=
    if 0 < s.dutyCycle.toNat ∧ s.dutyCycle.toNat < uint16Max then
      let s := s.writePins true
      { s with
        timer := { s.timer with load := s.onLoad, reload := false, interrupts := true, run := true } }
    else s.writePins s.output
  { s with running := true }

/-- `pwm_restart`. -/
def pwmRestart : PwmInfo := if s.running then s.pwmStop.pwmStart else s

/-- `pwm_init`. -/
def pwmInit (pins : List Pin) (reverse : Bool) : PwmInfo :=
  if pins.length > maxPwmPins then s
  else
    let s := { s with
      maxLoad := 0
      onLoad := 0
      offLoad := 0
      step := .periodOn
      reverse := reverse
      pins := pins }
    { s.pwmStop with attached := true, running := false }

/-- The frequency change in `pwm_set_freq`. -/
def changeFreq (freq : UInt16) : PwmInfo :=
  match timerSetFrequency s.timer freq.toNat with
  | none => s
  | some timer => { s with timer := timer, maxLoad := timer.load, freq := freq }

/-- `pwm_set_freq`. -/
def pwmSetFreq (freq : UInt16) : PwmInfo :=
  if s.running then ({ s.pwmStop with running := true }.changeFreq freq).pwmStart
  else s.changeFreq freq

/-- `pwm_set_duty`. -/
def pwmSetDuty (duty : UInt16) : PwmInfo :=
  let s := { s with dutyCycle := duty }
  let s := if duty.toNat = 0 ∨ duty.toNat = uint16Max then
      { s with output := decide (duty.toNat = uint16Max) } else s
  s.pwmRestart

/-- The timer can interrupt. -/
def Armed : Prop := s.timer.run = true ∧ s.timer.interrupts = true

instance : Decidable s.Armed := inferInstanceAs (Decidable (_ ∧ _))

/-- A timer interrupt, if the timer runs and may interrupt. Without a handler it is
dropped. -/
def interrupt : PwmInfo := if s.Armed ∧ s.attached = true then s.frc1InterruptHandler else s

end PwmInfo

/-- What can happen to the driver. -/
inductive Event
  | init (pins : List Pin) (reverse : Bool)
  | setFreq (freq : UInt16)
  | setDuty (duty : UInt16)
  | start
  | stop
  | interrupt

/-- The driver together with the duty that was requested last. -/
structure Session where
  pwm : PwmInfo
  requested : UInt16

namespace Session

/-- Before the first request the duty is 0. -/
def boot (load : ℕ) (gpio : Pin → Bool) : Session := ⟨.boot load gpio, 0⟩

def step (s : Session) : Event → Session
  | .init pins reverse => { s with pwm := s.pwm.pwmInit pins reverse }
  | .setFreq freq => { s with pwm := s.pwm.pwmSetFreq freq }
  | .setDuty duty => ⟨s.pwm.pwmSetDuty duty, duty⟩
  | .start => { s with pwm := s.pwm.pwmStart }
  | .stop => { s with pwm := s.pwm.pwmStop }
  | .interrupt => { s with pwm := s.pwm.interrupt }

end Session

end EspOpenRtos.Pwm
