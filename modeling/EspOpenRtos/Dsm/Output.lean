/-
# Delta-sigma output

Pins are routed to the modulator by a bit of their configuration and otherwise show the
level last written to them. Starting with a target between the extremes sets the bit and
the modulator's register, starting with 0 or 255 writes a level, and stopping clears the
bit. Beside the driver runs what was asked for. The two agree except after a change from
a modulated target to a constant one: the pins stay routed to the modulator, which still
has the old target.
-/

import EspOpenRtos.Math.Runs
import Mathlib.Order.Fin.Basic

namespace EspOpenRtos.Dsm

open Math.Runs

/-- `MAX_DSM_PINS`. -/
def maxDsmPins : ℕ := 8

abbrev Pin := Fin 16

/-- Give all pins of a list one value. -/
def setAll (pins : List Pin) (value : Bool) (f : Pin → Bool) : Pin → Bool :=
  pins.foldl (fun f pin => Function.update f pin value) f

/-- `dsmInfo` and the registers of the pins. `dsm` is the modulator's register once it is
enabled: prescale and target. -/
structure DsmInfo where
  running : Bool
  preScale : UInt8
  target : UInt8
  output : Bool
  pins : List Pin
  routed : Pin → Bool
  level : Pin → Bool
  dsm : Option (UInt8 × UInt8)

/-- The target lies between the extremes. -/
def modulated (target : UInt8) : Bool := 0 < target && target < 255

namespace DsmInfo

/-- `dsm_stop`. -/
def dsmStop (s : DsmInfo) : DsmInfo :=
  { s with
    routed := setAll s.pins false s.routed
    level := setAll s.pins false s.level
    running := false }

/-- `dsm_init`. -/
def dsmInit (s : DsmInfo) (pins : List Pin) : DsmInfo :=
  if pins.length > maxDsmPins then s
  else { ({ s with pins := pins }).dsmStop with running := false }

/-- `dsm_set_prescale`. -/
def dsmSetPrescale (s : DsmInfo) (prescale : UInt8) : DsmInfo := { s with preScale := prescale }

/-- `dsm_start`. -/
def dsmStart (s : DsmInfo) : DsmInfo :=
  if modulated s.target then
    { s with
      routed := setAll s.pins true s.routed
      dsm := some (s.preScale, s.target)
      running := true }
  else { s with level := setAll s.pins s.output s.level, running := true }

/-- The variables that `dsm_set_target` sets. -/
def withTarget (s : DsmInfo) (target : UInt8) : DsmInfo :=
  let s := { s with target := target }
  if target = 0 ∨ target = 255 then { s with output := target = 255 } else s

/-- `dsm_set_target`. -/
def dsmSetTarget (s : DsmInfo) (target : UInt8) : DsmInfo :=
  let s := s.withTarget target
  if s.running then s.dsmStart else s

/-- After power on, with any values in the registers. -/
def boot (routed level : Pin → Bool) (dsm : Option (UInt8 × UInt8)) : DsmInfo :=
  ⟨false, 0, 0, false, [], routed, level, dsm⟩

end DsmInfo

inductive Call
  | init
  | setPrescale (prescale : UInt8)
  | setTarget (target : UInt8)
  | start
  | stop

/-- A call of the driver, always with the same pins. -/
def step (pins : List Pin) (s : DsmInfo) : Call → DsmInfo
  | .init => s.dsmInit pins
  | .setPrescale prescale => s.dsmSetPrescale prescale
  | .setTarget target => s.dsmSetTarget target
  | .start => s.dsmStart
  | .stop => s.dsmStop

/-! ## What was asked for -/

/-- `started` is the prescale at the latest start, also the one that a new target makes
while running; `routed` says whether a start since the latest stop had a modulated
target. -/
structure Intent where
  running : Bool
  target : UInt8
  preScale : UInt8
  started : UInt8
  routed : Bool

namespace Intent

def boot : Intent := ⟨false, 0, 0, 0, false⟩

def begin (i : Intent) : Intent :=
  { i with running := true, started := i.preScale, routed := i.routed || modulated i.target }

def halt (i : Intent) : Intent := { i with running := false, routed := false }

def step (pins : List Pin) (i : Intent) : Call → Intent
  | .init => if pins.length > maxDsmPins then i else i.halt
  | .setPrescale prescale => { i with preScale := prescale }
  | .setTarget target =>
    if i.running then { i with target := target }.begin else { i with target := target }
  | .start => i.begin
  | .stop => i.halt

/-- A pin shows what was asked for. -/
def Shown (i : Intent) (s : DsmInfo) (pin : Pin) : Prop :=
  if i.running && modulated i.target then s.routed pin ∧ s.dsm = some (i.started, i.target)
  else s.routed pin = false ∧ s.level pin = (i.running && i.target = 255)

end Intent

/-! ## The driver beside the intent -/

@[simp]
theorem setAll_apply (pins : List Pin) (value : Bool) (f : Pin → Bool) (pin : Pin) :
    setAll pins value f pin = if pin ∈ pins then value else f pin := by
  induction pins generalizing f with
  | nil => rfl
  | cons p pins ih =>
    rw [setAll, List.foldl_cons, ← setAll, ih, Function.update_apply]
    grind

/-- What a start needs to know. -/
structure Prepared (s : DsmInfo) (i : Intent) : Prop where
  target : s.target = i.target
  preScale : s.preScale = i.preScale
  output : modulated s.target = false → s.output = (s.target = 255 : Bool)
  routed : ∀ pin ∈ s.pins, s.routed pin = i.routed

/-- What every call keeps between the driver and the intent. -/
structure Follows (s : DsmInfo) (i : Intent) : Prop extends Prepared s i where
  running : s.running = i.running
  stopped : s.running = false → i.routed = false ∧ ∀ pin ∈ s.pins, s.level pin = false
  constant : s.running = true → modulated s.target = false →
    ∀ pin ∈ s.pins, s.level pin = s.output
  modulates : s.running = true → modulated s.target = true →
    i.routed = true ∧ s.dsm = some (i.started, s.target)

section Follows

variable {s : DsmInfo} {i : Intent}

theorem follows_boot (routed level : Pin → Bool) (dsm : Option (UInt8 × UInt8)) :
    Follows (DsmInfo.boot routed level dsm) Intent.boot := by
  constructor <;> simp [DsmInfo.boot, Intent.boot]
  constructor <;> simp

theorem follows_dsmStop (htarget : s.target = i.target) (hpreScale : s.preScale = i.preScale)
    (houtput : modulated s.target = false → s.output = (s.target = 255 : Bool)) :
    Follows s.dsmStop i.halt where
  target := htarget
  preScale := hpreScale
  output := houtput
  routed := by simp +contextual [DsmInfo.dsmStop, Intent.halt]
  running := rfl
  stopped _ := ⟨rfl, by simp +contextual [DsmInfo.dsmStop]⟩
  constant hrunning := absurd hrunning (by simp [DsmInfo.dsmStop])
  modulates hrunning := absurd hrunning (by simp [DsmInfo.dsmStop])

theorem Prepared.dsmStart (h : Prepared s i) : Follows s.dsmStart i.begin := by
  unfold DsmInfo.dsmStart
  split
  · next hmod =>
    have hrouted : i.begin.routed = true := by simp [Intent.begin, ← h.target, hmod]
    exact
      { target := h.target
        preScale := h.preScale
        output := h.output
        routed := by simp +contextual [hrouted]
        running := rfl
        stopped := by simp
        constant := by simp [hmod]
        modulates := fun _ _ => ⟨hrouted, by rw [h.preScale]; rfl⟩ }
  · next hmod =>
    have hrouted : i.begin.routed = i.routed := by simp [Intent.begin, ← h.target, hmod]
    exact
      { target := h.target
        preScale := h.preScale
        output := h.output
        routed := hrouted ▸ h.routed
        running := rfl
        stopped := by simp
        constant := by simp +contextual
        modulates := fun _ hmod' => absurd hmod' hmod }

theorem modulated_eq_false {target : UInt8} :
    modulated target = false ↔ target = 0 ∨ target = 255 := by
  have hlt := target.toNat_lt
  rw [← UInt8.toNat_inj, ← UInt8.toNat_inj]
  simp [modulated, UInt8.lt_iff_toNat_lt]
  omega

theorem Prepared.withTarget (h : Prepared s i) (target : UInt8) :
    Prepared (s.withTarget target) { i with target := target } := by
  unfold DsmInfo.withTarget
  split
  · exact ⟨rfl, h.preScale, fun _ => rfl, h.routed⟩
  · next hmod =>
    exact ⟨rfl, h.preScale, fun hconst => absurd (modulated_eq_false.mp hconst) hmod, h.routed⟩

theorem withTarget_frame (s : DsmInfo) (target : UInt8) :
    (s.withTarget target).running = s.running ∧ (s.withTarget target).pins = s.pins ∧
      (s.withTarget target).level = s.level := by
  unfold DsmInfo.withTarget
  split <;> exact ⟨rfl, rfl, rfl⟩

/-- Each call keeps the driver and the intent together. -/
theorem Follows.step (pins : List Pin) (h : Follows s i) (call : Call) :
    Follows (step pins s call) (i.step pins call) := by
  cases call with
  | init =>
    rw [Dsm.step, DsmInfo.dsmInit, Intent.step]
    split
    · exact h
    · exact follows_dsmStop (s := { s with pins := pins }) h.target h.preScale h.output
  | setPrescale prescale => exact { h with preScale := rfl }
  | setTarget target =>
    have hnew := h.toPrepared.withTarget target
    obtain ⟨hrunning, hpins, hlevel⟩ := withTarget_frame s target
    rw [Dsm.step, DsmInfo.dsmSetTarget, Intent.step, hrunning, h.running]
    split
    · exact hnew.dsmStart
    · next hstopped =>
      have hfalse : s.running = false := by rw [h.running]; exact eq_false_of_ne_true hstopped
      refine ⟨hnew, hrunning.trans h.running, fun _ => ?_, ?_, ?_⟩
      · rw [hpins, hlevel]
        exact h.stopped hfalse
      · simp [hrunning, hfalse]
      · simp [hrunning, hfalse]
  | start => exact h.toPrepared.dsmStart
  | stop => exact follows_dsmStop h.target h.preScale h.output

/-- A constant target is shown unless the pins are still routed. -/
theorem Follows.shown_iff (h : Follows s i) {pin : Pin} (hpin : pin ∈ s.pins) :
    i.Shown s pin ↔ ¬(i.running ∧ modulated i.target = false ∧ i.routed) := by
  have hrouted := h.routed pin hpin
  have hrunning := h.running
  have htarget := h.target
  cases hrun : i.running with
  | false =>
    have hstopped := h.stopped (hrunning.trans hrun)
    simp [Intent.Shown, hrun, hrouted, hstopped.1, hstopped.2 pin hpin]
  | true =>
    have hon := hrunning.trans hrun
    cases hmod : modulated i.target with
    | false =>
      have hlevel := h.constant hon (htarget ▸ hmod) pin hpin
      rw [h.output (htarget ▸ hmod), htarget] at hlevel
      simp [Intent.Shown, hrun, hmod, hrouted, hlevel]
    | true =>
      have hdsm := h.modulates hon (htarget ▸ hmod)
      simp [Intent.Shown, hrun, hmod, hrouted, hdsm.1, hdsm.2, htarget]

end Follows

variable (pins : List Pin) (routed level : Pin → Bool) (dsm : Option (UInt8 × UInt8))

/-- After every sequence of calls the pins show what was asked for, unless a constant
target has followed a modulated one without a stop in between. -/
theorem dsm_output_iff (calls : List Call) (pin : Pin)
    (hpin : pin ∈ (run (step pins) (DsmInfo.boot routed level dsm) calls).pins) :
    (run (Intent.step pins) Intent.boot calls).Shown
        (run (step pins) (DsmInfo.boot routed level dsm) calls) pin ↔
      ¬((run (Intent.step pins) Intent.boot calls).running ∧
        modulated (run (Intent.step pins) Intent.boot calls).target = false ∧
        (run (Intent.step pins) Intent.boot calls).routed) := by
  have hfollows : Follows (run (step pins) (DsmInfo.boot routed level dsm) calls)
      (run (Intent.step pins) Intent.boot calls) :=
    run_simulation (fun _ _ call h => h.step pins call) (follows_boot routed level dsm) calls
  exact hfollows.shown_iff hpin

/-- The calls that leave pin 4 with the modulator. -/
def toConstant : List Call := [.init, .setTarget 100, .start, .setTarget 0]

theorem dsm_output_running : (4 : Pin) ∈ (run (step [4]) (DsmInfo.boot (fun _ => false)
      (fun _ => false) none) [.init, .setTarget 100, .start]).pins ∧
    (run (Intent.step [4]) Intent.boot [.init, .setTarget 100, .start]).Shown
      (run (step [4]) (DsmInfo.boot (fun _ => false) (fun _ => false) none)
        [.init, .setTarget 100, .start]) 4 :=
  ⟨by decide, (dsm_output_iff [4] _ _ none [.init, .setTarget 100, .start] 4 (by decide)).mpr
    (by decide)⟩

/-- Asked for a constant low level, the pin still shows the target 100. -/
theorem dsm_keeps_modulating :
    (run (Intent.step [4]) Intent.boot toConstant).target = 0 ∧
      (run (step [4]) (DsmInfo.boot (fun _ => false) (fun _ => false) none) toConstant).routed 4 ∧
      (run (step [4]) (DsmInfo.boot (fun _ => false) (fun _ => false) none) toConstant).dsm =
        some (0, 100) := by
  decide

end EspOpenRtos.Dsm
