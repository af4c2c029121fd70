/-
# What the pins show

A pin is constant when no interrupt can come that changes it, and alternates when
each interrupt brings the other level with the load of the other part. Which of the
two is seen is decided by the last start of the driver, from its copy of the duty, the
frequency and a flag that remembers the last extreme duty.

The copy of the duty is lost when the on-time rounds to 0, also if there was no
frequency yet. The flag is shown whenever there is no duty, and then need not belong
to the requested one. And the on-time is computed in 32 bits. Where none of this
matters the pins show the requested duty.
-/

import EspOpenRtos.Pwm.Driver
import EspOpenRtos.Math.Runs
import Mathlib.Data.List.Induction
import Mathlib.Logic.Function.Iterate

namespace EspOpenRtos.Pwm

open Math.Runs

namespace PwmInfo

/-- The level that stands for an output in the polarity of the driver. -/
def level (s : PwmInfo) (out : Bool) : Bool := if s.reverse then !out else out

/-- The pin shows this output and no interrupt changes it. -/
def Constantly (s : PwmInfo) (pin : Pin) (out : Bool) : Prop :=
  ∀ n, (interrupt^[n] s).gpio pin = s.level out

/-- The pin is active while the timer runs down from `on`, inactive while it runs down
from `off`, and each interrupt switches between the two. -/
def Alternates (s : PwmInfo) (pin : Pin) (on off : ℕ) : Prop :=
  ∀ n, (interrupt^[n] s).Armed ∧
    (((interrupt^[n] s).gpio pin = s.level true ∧ (interrupt^[n] s).timer.load = on ∧
        (interrupt^[n + 1] s).gpio pin = s.level false) ∨
      ((interrupt^[n] s).gpio pin = s.level false ∧ (interrupt^[n] s).timer.load = off ∧
        (interrupt^[n + 1] s).gpio pin = s.level true))

end PwmInfo

/-- The on-time of a duty: its share of the period, rounded down. -/
def onTime (duty : UInt16) (maxLoad : ℕ) : ℕ := duty.toNat * maxLoad / uint16Max

/-- The pins show the requested duty, and are inactive when the driver is stopped. -/
structure ShowsRequest (s : Session) : Prop where
  active : s.pwm.running = true → s.pwm.maxLoad ≠ 0 → ∀ pin ∈ s.pwm.pins,
    s.pwm.Constantly pin true → s.requested.toNat = uint16Max
  inactive : s.pwm.running = true → s.pwm.maxLoad ≠ 0 → ∀ pin ∈ s.pwm.pins,
    s.pwm.Constantly pin false → onTime s.requested s.pwm.maxLoad = 0
  shown : s.pwm.running = true → s.pwm.maxLoad ≠ 0 → ∀ pin ∈ s.pwm.pins,
    s.pwm.Constantly pin true ∨ s.pwm.Constantly pin false ∨
      s.pwm.Alternates pin (onTime s.requested s.pwm.maxLoad)
        (s.pwm.maxLoad - onTime s.requested s.pwm.maxLoad)
  stopped : s.pwm.running = false → ∀ pin ∈ s.pwm.pins, s.pwm.Constantly pin false

/-! ## Parts of the driver -/

section Parts

variable (s : PwmInfo)

theorem foldl_update_of_mem {pins : List Pin} {pin : Pin} (h : pin ∈ pins) (gpio : Pin → Bool)
    (level : Bool) :
    pins.foldl (fun gpio pin => Function.update gpio pin level) gpio pin = level := by
  induction pins using List.reverseRecOn with
  | nil => exact absurd h List.not_mem_nil
  | append_singleton rest p ih =>
    rw [List.foldl_append, List.foldl_cons, List.foldl_nil]
    by_cases hp : pin = p
    · rw [hp, Function.update_self]
    · have hrest : pin ∈ rest := by
        rcases List.mem_append.mp h with hrest | hlast
        · exact hrest
        · exact absurd (List.mem_singleton.mp hlast) hp
      rw [Function.update_of_ne hp, ih hrest]

/-- All used pins show an output. -/
def Shows (out : Bool) : Prop := ∀ pin ∈ s.pins, s.gpio pin = s.level out

variable {s}

/-- What the loop over the pins leaves. -/
theorem shows_of_gpio {out : Bool} {gpio : Pin → Bool}
    (h : s.gpio = s.pins.foldl (fun gpio pin => Function.update gpio pin (s.level out)) gpio) :
    Shows s out := by
  intro pin hpin
  rw [h, foldl_update_of_mem hpin]

variable (s)

/-- The driver shows an output and waits for no interrupt. -/
structure Still (out : Bool) : Prop where
  disarmed : ¬s.Armed
  shows_ : Shows s out

/-- The driver is in one of the two parts of a period. -/
structure Switching : Prop where
  armed : s.Armed
  attached : s.attached = true
  onLoad : s.onLoad = PwmInfo.onLoadOf s.dutyCycle s.maxLoad
  offLoad : s.offLoad = s.maxLoad - s.onLoad
  on : s.step = .periodOn → s.timer.load = s.onLoad ∧ Shows s true
  off : s.step = .periodOff → s.timer.load = s.offLoad ∧ Shows s false

/-- A driver that differs in what an interrupt changes. -/
def PwmInfo.withSignal (load : ℕ) (step : PwmStep) (gpio : Pin → Bool) : PwmInfo :=
  { s with timer := { s.timer with load := load }, step := step, gpio := gpio }

variable {s}

theorem Still.iterate {out : Bool} (h : Still s out) (n : ℕ) : PwmInfo.interrupt^[n] s = s := by
  have hfix : s.interrupt = s := if_neg fun harmed => h.disarmed harmed.1
  exact Function.iterate_fixed hfix n

theorem level_inj {a b : Bool} (h : s.level a = s.level b) : a = b := by
  unfold PwmInfo.level at h
  split at h
  · exact Bool.not_inj h
  · exact h

/-- A pin of a driver at rest shows one output for ever. -/
theorem Still.constantly_iff {out : Bool} (h : Still s out) {pin : Pin} (hpin : pin ∈ s.pins)
    (b : Bool) : s.Constantly pin b ↔ b = out := by
  unfold PwmInfo.Constantly
  simp only [h.iterate, forall_const, h.shows_ pin hpin]
  exact ⟨fun heq => (level_inj heq).symm, fun heq => by rw [heq]⟩

/-- An interrupt brings the other part of the period. -/
theorem Switching.interrupt (h : Switching s) :
    Switching s.interrupt ∧
      s.interrupt.step = (if s.step = .periodOn then .periodOff else .periodOn) ∧
      ∃ load step gpio, s.interrupt = s.withSignal load step gpio := by
  have hhandled : s.interrupt = s.frc1InterruptHandler := if_pos ⟨h.armed, h.attached⟩
  rw [hhandled, PwmInfo.frc1InterruptHandler]
  cases hstep : s.step with
  | periodOn =>
    exact ⟨⟨h.armed, h.attached, h.onLoad, h.offLoad, nofun, fun _ => ⟨rfl, shows_of_gpio rfl⟩⟩,
      rfl, _, _, _, rfl⟩
  | periodOff =>
    exact ⟨⟨h.armed, h.attached, h.onLoad, h.offLoad, fun _ => ⟨rfl, shows_of_gpio rfl⟩, nofun⟩,
      rfl, _, _, _, rfl⟩

theorem Switching.iterate (h : Switching s) (n : ℕ) : Switching (PwmInfo.interrupt^[n] s) ∧
    ∃ load step gpio, PwmInfo.interrupt^[n] s = s.withSignal load step gpio := by
  induction n with
  | zero => exact ⟨h, _, _, _, rfl⟩
  | succ n ih =>
    obtain ⟨hswitching, load, step, gpio, hn⟩ := ih
    obtain ⟨hnext, -, load', step', gpio', hsignal⟩ := hswitching.interrupt
    rw [Function.iterate_succ_apply']
    exact ⟨hnext, load', step', gpio', hsignal.trans (by rw [hn]; rfl)⟩

/-- The pins of a driver that is switching alternate between its loads. -/
theorem Switching.alternates (h : Switching s) {pin : Pin} (hpin : pin ∈ s.pins) :
    s.Alternates pin s.onLoad s.offLoad := by
  intro n
  obtain ⟨hnow, load, step, gpio, hn⟩ := h.iterate n
  obtain ⟨hnext, hother, load', step', gpio', hsignal⟩ := hnow.interrupt
  rw [Function.iterate_succ_apply']
  refine ⟨hnow.armed, ?_⟩
  generalize PwmInfo.interrupt^[n] s = t at *
  subst hn
  cases hstep : (s.withSignal load step gpio).step with
  | periodOn =>
    obtain ⟨hload, hshows⟩ := hnow.on hstep
    refine .inl ⟨hshows pin hpin, hload, ?_⟩
    rw [hstep] at hother
    have hshows' := (hnext.off hother).2 pin (by rw [hsignal]; exact hpin)
    rwa [hsignal] at hshows' ⊢
  | periodOff =>
    obtain ⟨hload, hshows⟩ := hnow.off hstep
    refine .inr ⟨hshows pin hpin, hload, ?_⟩
    rw [hstep] at hother
    have hshows' := (hnext.on hother).2 pin (by rw [hsignal]; exact hpin)
    rwa [hsignal] at hshows' ⊢

theorem level_ne : s.level true ≠ s.level false := fun h => Bool.false_ne_true (level_inj h).symm

/-- A pin that alternates shows both levels. -/
theorem PwmInfo.Alternates.both {pin : Pin} {on off : ℕ} (h : s.Alternates pin on off) :
    ∃ n k, (PwmInfo.interrupt^[n] s).gpio pin = s.level true ∧
      (PwmInfo.interrupt^[k] s).gpio pin = s.level false := by
  rcases (h 0).2 with ⟨h0, -, h1⟩ | ⟨h0, -, h1⟩
  · exact ⟨0, 1, h0, h1⟩
  · exact ⟨1, 0, h1, h0⟩

theorem PwmInfo.Alternates.not_constantly {pin : Pin} {on off : ℕ} (h : s.Alternates pin on off)
    (out : Bool) : ¬s.Constantly pin out := by
  intro hconstant
  obtain ⟨n, k, htrue, hfalse⟩ := h.both
  exact level_ne (htrue.symm.trans ((hconstant n).trans ((hconstant k).symm.trans hfalse)))

/-- The load belongs to the level. -/
theorem PwmInfo.Alternates.load {pin : Pin} {on off : ℕ} (h : s.Alternates pin on off) (n : ℕ) :
    ((PwmInfo.interrupt^[n] s).gpio pin = s.level true →
        (PwmInfo.interrupt^[n] s).timer.load = on) ∧
      ((PwmInfo.interrupt^[n] s).gpio pin = s.level false →
        (PwmInfo.interrupt^[n] s).timer.load = off) := by
  rcases (h n).2 with ⟨hactive, hload, -⟩ | ⟨hinactive, hload, -⟩
  · exact ⟨fun _ => hload, fun heq => absurd (hactive.symm.trans heq) level_ne⟩
  · exact ⟨fun heq => absurd (heq.symm.trans hinactive) level_ne, fun _ => hload⟩

/-- A pin alternates with the loads of the driver and no others. -/
theorem Switching.alternates_iff (h : Switching s) {pin : Pin} (hpin : pin ∈ s.pins) {on off : ℕ} :
    s.Alternates pin on off ↔ s.onLoad = on ∧ s.offLoad = off := by
  have hown := h.alternates hpin
  constructor
  · intro halternates
    obtain ⟨n, k, htrue, hfalse⟩ := hown.both
    exact ⟨((hown.load n).1 htrue).symm.trans ((halternates.load n).1 htrue),
      ((hown.load k).2 hfalse).symm.trans ((halternates.load k).2 hfalse)⟩
  · rintro ⟨rfl, rfl⟩
    exact hown

end Parts

/-! ## Starting and stopping -/

section Starting

variable {s : PwmInfo}

theorem still_pwmStop (s : PwmInfo) : Still s.pwmStop false :=
  ⟨fun harmed => Bool.false_ne_true harmed.1, shows_of_gpio rfl⟩

/-- A duty that is shown by switching. -/
def Partial (dutyCycle : UInt16) (maxLoad : ℕ) : Prop :=
  0 < dutyCycle.toNat ∧ dutyCycle.toNat < uint16Max ∧ PwmInfo.onLoadOf dutyCycle maxLoad ≠ 0

instance (dutyCycle : UInt16) (maxLoad : ℕ) : Decidable (Partial dutyCycle maxLoad) :=
  inferInstanceAs (Decidable (_ ∧ _ ∧ _))

/-- A start with such a duty. -/
theorem pwmStart_partial (h : Partial s.dutyCycle s.maxLoad) (hattached : s.attached = true) :
    Switching s.pwmStart := by
  obtain ⟨hpos, hlt, hload⟩ := h
  simp only [PwmInfo.pwmStart, if_neg hload, if_pos (And.intro hpos hlt)]
  exact ⟨⟨rfl, rfl⟩, hattached, rfl, rfl, fun _ => ⟨rfl, shows_of_gpio rfl⟩, nofun⟩

/-- A start with another duty, which the timer must not be running for. -/
theorem pwmStart_constant (h : ¬Partial s.dutyCycle s.maxLoad) (hdisarmed : ¬s.Armed) :
    Still s.pwmStart s.output := by
  by_cases hload : PwmInfo.onLoadOf s.dutyCycle s.maxLoad = 0
  · simp only [PwmInfo.pwmStart, if_pos hload]
    exact ⟨hdisarmed, shows_of_gpio rfl⟩
  · have hextreme : ¬(0 < s.dutyCycle.toNat ∧ s.dutyCycle.toNat < uint16Max) :=
      fun hboth => h ⟨hboth.1, hboth.2, hload⟩
    simp only [PwmInfo.pwmStart, if_neg hload, if_neg hextreme]
    exact ⟨hdisarmed, shows_of_gpio rfl⟩

theorem pwmStart_setting (s : PwmInfo) :
    s.pwmStart.running = true ∧ s.pwmStart.maxLoad = s.maxLoad ∧ s.pwmStart.pins = s.pins ∧
      s.pwmStart.output = s.output ∧ s.pwmStart.attached = s.attached := by
  unfold PwmInfo.pwmStart
  dsimp only
  split <;> split <;> exact ⟨rfl, rfl, rfl, rfl, rfl⟩

/-- The duty is lost if the on load is 0. -/
theorem pwmStart_dutyCycle (s : PwmInfo) : s.pwmStart.dutyCycle =
    if PwmInfo.onLoadOf s.dutyCycle s.maxLoad = 0 then 0 else s.dutyCycle := by
  unfold PwmInfo.pwmStart
  dsimp only
  split <;> split <;> rfl

end Starting

/-! ## The requested duty -/

/-- What is known of every session. The driver's copy of the duty is the requested one
or lost; the flag agrees with the request if that is extreme. -/
structure Sound (s : Session) : Prop where
  unattached : s.pwm.attached = false → s.pwm.pins = []
  duty : s.pwm.dutyCycle = s.requested ∨ s.pwm.dutyCycle = 0
  full : s.requested.toNat = uint16Max → s.pwm.output = true
  empty : s.requested.toNat = 0 → s.pwm.output = false
  stopped : s.pwm.attached = true → s.pwm.running = false → Still s.pwm false
  running : s.pwm.attached = true → s.pwm.running = true →
    if Partial s.pwm.dutyCycle s.pwm.maxLoad then Switching s.pwm else Still s.pwm s.pwm.output

/-- A start shows the requested duty: it is extreme; or its on-time rounds to 0 and the
last extreme duty was 0; or the product fits 32 bits and the driver still has the
duty. -/
def Proper (requested : UInt16) (maxLoad : ℕ) (output : Bool) (kept : Prop) : Prop :=
  requested.toNat = 0 ∨ requested.toNat = uint16Max ∨
    (requested.toNat * maxLoad < uint16Max ∧ output = false) ∨
    (uint16Max ≤ requested.toNat * maxLoad ∧ requested.toNat * maxLoad < 2 ^ 32 ∧ kept)

section Request

variable {s : Session}

/-- Only an overflow makes the on load differ from the on-time. -/
theorem onLoadOf_eq_onTime_iff {duty : UInt16} {maxLoad : ℕ} :
    PwmInfo.onLoadOf duty maxLoad = onTime duty maxLoad ↔ duty.toNat * maxLoad < 2 ^ 32 := by
  unfold PwmInfo.onLoadOf onTime uint16Max
  generalize duty.toNat * maxLoad = n
  omega

theorem onLoadOf_ne_zero_iff {duty : UInt16} {maxLoad : ℕ}
    (hsmall : duty.toNat * maxLoad < 2 ^ 32) :
    PwmInfo.onLoadOf duty maxLoad ≠ 0 ↔ uint16Max ≤ duty.toNat * maxLoad := by
  unfold PwmInfo.onLoadOf uint16Max
  generalize duty.toNat * maxLoad = n at *
  omega

theorem onTime_eq_zero_iff {duty : UInt16} {maxLoad : ℕ} :
    onTime duty maxLoad = 0 ↔ duty.toNat * maxLoad < uint16Max := by
  unfold onTime uint16Max
  generalize duty.toNat * maxLoad = n
  omega

/-- A stopped driver shows what it should. -/
theorem Sound.showsRequest_stopped (h : Sound s) (hstopped : s.pwm.running = false) :
    ShowsRequest s := by
  have hrunning (hr : s.pwm.running = true) : False :=
    Bool.false_ne_true (hstopped.symm.trans hr)
  refine ⟨fun hr => (hrunning hr).elim, fun hr => (hrunning hr).elim,
    fun hr => (hrunning hr).elim, fun _ pin hpin => ?_⟩
  cases hattached : s.pwm.attached with
  | false => exact absurd (h.unattached hattached ▸ hpin) List.not_mem_nil
  | true => exact ((h.stopped hattached hstopped).constantly_iff hpin false).mpr rfl

/-- The driver has the requested duty if its copy is not 0. -/
theorem Sound.kept (h : Sound s) (hpos : 0 < s.pwm.dutyCycle.toNat) :
    s.pwm.dutyCycle = s.requested :=
  h.duty.resolve_right fun hzero => by simp [hzero] at hpos

/-- What a pin of a running driver has to show. -/
def PinShows (s : Session) (pin : Pin) : Prop :=
  (s.pwm.Constantly pin true → s.requested.toNat = uint16Max) ∧
    (s.pwm.Constantly pin false → onTime s.requested s.pwm.maxLoad = 0) ∧
    (s.pwm.Constantly pin true ∨ s.pwm.Constantly pin false ∨
      s.pwm.Alternates pin (onTime s.requested s.pwm.maxLoad)
        (s.pwm.maxLoad - onTime s.requested s.pwm.maxLoad))

/-- If the condition for a pin is the same for all of them, it is the condition. -/
theorem showsRequest_iff {P : Prop} (hrunning : s.pwm.running = true)
    (hpins : ∀ pin ∈ s.pwm.pins, (PinShows s pin ↔ P)) :
    ShowsRequest s ↔ (s.pwm.maxLoad ≠ 0 → s.pwm.pins ≠ [] → P) := by
  constructor
  · intro h hload hne
    obtain ⟨pin, hpin⟩ := List.exists_mem_of_ne_nil _ hne
    exact (hpins pin hpin).mp ⟨h.active hrunning hload pin hpin,
      h.inactive hrunning hload pin hpin, h.shown hrunning hload pin hpin⟩
  · intro h
    have hpin (hload : s.pwm.maxLoad ≠ 0) (pin : Pin) (hpin : pin ∈ s.pwm.pins) : PinShows s pin :=
      (hpins pin hpin).mpr (h hload (List.ne_nil_of_mem hpin))
    exact ⟨fun _ hload pin hmem => (hpin hload pin hmem).1,
      fun _ hload pin hmem => (hpin hload pin hmem).2.1,
      fun _ hload pin hmem => (hpin hload pin hmem).2.2,
      fun hstopped => absurd (hstopped.symm.trans hrunning) Bool.false_ne_true⟩

/-- A switching driver shows the request unless the on load has overflowed. -/
theorem Sound.pinShows_switching (h : Sound s) (hcut : Partial s.pwm.dutyCycle s.pwm.maxLoad)
    (hswitching : Switching s.pwm) {pin : Pin} (hpin : pin ∈ s.pwm.pins) :
    PinShows s pin ↔ s.requested.toNat * s.pwm.maxLoad < 2 ^ 32 := by
  have honLoad := hswitching.onLoad
  rw [h.kept hcut.1] at honLoad
  rw [← onLoadOf_eq_onTime_iff, ← honLoad, PinShows, hswitching.alternates_iff hpin,
    hswitching.offLoad]
  simp only [(hswitching.alternates hpin).not_constantly, false_imp_iff, false_or, true_and]
  exact ⟨And.left, fun heq => ⟨heq, by rw [heq]⟩⟩

/-- A driver at rest shows the request if its flag belongs to it. -/
theorem pinShows_still (hstill : Still s.pwm s.pwm.output) {pin : Pin} (hpin : pin ∈ s.pwm.pins) :
    PinShows s pin ↔ (s.pwm.output = true → s.requested.toNat = uint16Max) ∧
      (s.pwm.output = false → s.requested.toNat * s.pwm.maxLoad < uint16Max) := by
  rw [← onTime_eq_zero_iff, PinShows]
  simp only [hstill.constantly_iff hpin]
  cases s.pwm.output <;> simp

/-- A running driver shows the requested duty exactly when its start was proper. -/
theorem Sound.showsRequest_running (h : Sound s) (hrunning : s.pwm.running = true) :
    ShowsRequest s ↔ (s.pwm.maxLoad ≠ 0 → s.pwm.pins ≠ [] →
      Proper s.requested s.pwm.maxLoad s.pwm.output (s.pwm.dutyCycle = s.requested)) := by
  refine showsRequest_iff hrunning fun pin hpin => ?_
  have hattached : s.pwm.attached = true :=
    Bool.of_not_eq_false fun hfalse => List.ne_nil_of_mem hpin (h.unattached hfalse)
  have hmode := h.running hattached hrunning
  have hmax : uint16Max = 65535 := rfl
  split at hmode
  case isTrue hcut =>
    have hkept := h.kept hcut.1
    rw [h.pinShows_switching hcut hmode hpin]
    obtain ⟨hpos, hlt, hne⟩ := hcut
    rw [hkept] at hpos hlt hne
    constructor
    · exact fun hsmall => .inr (.inr (.inr ⟨(onLoadOf_ne_zero_iff hsmall).mp hne, hsmall, hkept⟩))
    · rintro (hzero | hfull | ⟨hround, -⟩ | ⟨-, hsmall, -⟩)
      · omega
      · omega
      · omega
      · exact hsmall
  case isFalse hconstant =>
    rw [pinShows_still hmode hpin]
    constructor
    · rintro ⟨hfull, hempty⟩
      cases hout : s.pwm.output with
      | true => exact .inr (.inl (hfull hout))
      | false => exact .inr (.inr (.inl ⟨hempty hout, rfl⟩))
    · rintro (hzero | hfull | ⟨hround, hout⟩ | ⟨hround, hsmall, hkept⟩)
      · simp [h.empty hzero, hzero, hmax]
      · simp [h.full hfull, hfull]
      · simp [hout, hround]
      · -- the duty is one of the two extremes, or it would be shown by switching
        rw [Partial, hkept] at hconstant
        have hne := (onLoadOf_ne_zero_iff hsmall).mpr hround
        have hpos : 0 < s.requested.toNat := Nat.pos_of_ne_zero fun hzero => by
          rw [hzero] at hround
          omega
        have hfull : s.requested.toNat = uint16Max := by
          have := s.requested.toNat_lt
          by_contra hother
          exact hconstant ⟨hpos, by omega, hne⟩
        simp [h.full hfull, hfull]

/-- A start in any situation in which the timer is not left running for nothing. -/
theorem start_session {p : PwmInfo} {d : UInt16} (hunattached : p.attached = false → p.pins = [])
    (hduty : p.dutyCycle = d ∨ p.dutyCycle = 0) (hfull : d.toNat = uint16Max → p.output = true)
    (hempty : d.toNat = 0 → p.output = false)
    (hready : p.attached = true → ¬Partial p.dutyCycle p.maxLoad → ¬p.Armed) :
    Sound ⟨p.pwmStart, d⟩ ∧ (ShowsRequest ⟨p.pwmStart, d⟩ ↔
      (p.maxLoad ≠ 0 → p.pins ≠ [] → Proper d p.maxLoad p.output (p.dutyCycle = d))) := by
  obtain ⟨hrunning, hload, hpins, houtput, hattached⟩ := pwmStart_setting p
  have hlost := pwmStart_dutyCycle p
  have hsound : Sound ⟨p.pwmStart, d⟩ := by
    constructor
    case unattached => rwa [hattached, hpins]
    case duty =>
      rw [hlost]
      split
      · exact .inr rfl
      · exact hduty
    case full => rwa [houtput]
    case empty => rwa [houtput]
    case stopped => exact fun _ hstopped => absurd (hstopped.symm.trans hrunning) Bool.false_ne_true
    case running =>
      rw [hattached, hload, hlost, houtput]
      intro hattached _
      by_cases hcut : Partial p.dutyCycle p.maxLoad
      · rw [if_neg hcut.2.2, if_pos hcut]
        exact pwmStart_partial hcut hattached
      · have hstill := pwmStart_constant hcut (hready hattached hcut)
        by_cases hzero : PwmInfo.onLoadOf p.dutyCycle p.maxLoad = 0
        · rw [if_pos hzero, if_neg (fun h => absurd h.1 (by decide))]
          exact hstill
        · rw [if_neg hzero, if_neg hcut]
          exact hstill
  refine ⟨hsound, (hsound.showsRequest_running hrunning).trans ?_⟩
  rw [hload, hpins, houtput, hlost]
  -- the copy of the duty that counts is lost by this start only if the on-time is 0
  refine imp_congr_right fun _ => imp_congr_right fun _ => or_congr_right <| or_congr_right <|
    or_congr_right <| and_congr_right fun hround => and_congr_right fun hsmall => ?_
  have hpos : d ≠ 0 := by
    rintro rfl
    have hmax : uint16Max = 65535 := rfl
    simp [hmax] at hround
  constructor
  · intro hkept
    split at hkept
    · exact absurd hkept.symm hpos
    · exact hkept
  · intro hkept
    rw [hkept, if_neg ((onLoadOf_ne_zero_iff hsmall).mpr hround)]

end Request

/-! ## Whole sessions -/

/-- The load of a period after `pwm_set_freq`. -/
def loadAfter (p : PwmInfo) (freq : UInt16) : ℕ :=
  if freq.toNat = 0 then p.maxLoad else timerFreqToCount freq.toNat (timerFreqToDiv freq.toNat)

/-- A call that starts the driver, with a frequency and pins, starts it properly. -/
def ProperCall (s : Session) : Event → Prop
  | .setDuty duty => s.pwm.running = true → s.pwm.maxLoad ≠ 0 → s.pwm.pins ≠ [] →
      Proper duty s.pwm.maxLoad s.pwm.output True
  | .setFreq freq => s.pwm.running = true → loadAfter s.pwm freq ≠ 0 → s.pwm.pins ≠ [] →
      Proper s.requested (loadAfter s.pwm freq) s.pwm.output (s.pwm.dutyCycle = s.requested)
  | .start => s.pwm.maxLoad ≠ 0 → s.pwm.pins ≠ [] →
      Proper s.requested s.pwm.maxLoad s.pwm.output (s.pwm.dutyCycle = s.requested)
  | .init _ _ | .stop | .interrupt => True

section Sessions

variable {s : Session}

theorem sound_boot (load : ℕ) (gpio : Pin → Bool) : Sound (.boot load gpio) :=
  ⟨fun _ => rfl, .inl rfl, nofun, fun _ => rfl, nofun, nofun⟩

theorem Sound.stop (h : Sound s) : Sound (s.step .stop) :=
  ⟨h.unattached, h.duty, h.full, h.empty, fun _ _ => still_pwmStop s.pwm, fun _ => nofun⟩

theorem Sound.init (h : Sound s) (pins : List Pin) (reverse : Bool) :
    Sound (s.step (.init pins reverse)) ∧
      (ShowsRequest s → ShowsRequest (s.step (.init pins reverse))) := by
  rw [Session.step, PwmInfo.pwmInit]
  split
  · exact ⟨h, id⟩
  · have hsound : Sound { s with pwm := { { s.pwm with
        maxLoad := 0
        onLoad := 0
        offLoad := 0
        step := .periodOn
        reverse := reverse
        pins := pins }.pwmStop with attached := true, running := false } } :=
      ⟨nofun, h.duty, h.full, h.empty, fun _ _ => ⟨(still_pwmStop _).disarmed,
        (still_pwmStop _).shows_⟩, fun _ => nofun⟩
    exact ⟨hsound, fun _ => hsound.showsRequest_stopped rfl⟩

theorem Sound.interrupt (h : Sound s) : Sound (s.step .interrupt) ∧
    (ShowsRequest s → ShowsRequest (s.step .interrupt)) := by
  by_cases hcomes : s.pwm.Armed ∧ s.pwm.attached = true
  · obtain ⟨harmed, hattached⟩ := hcomes
    -- only a driver that is switching can be interrupted
    have hrunning : s.pwm.running = true := Bool.of_not_eq_false fun hstopped =>
      (h.stopped hattached hstopped).disarmed harmed
    have hmode := h.running hattached hrunning
    split at hmode
    case isFalse => exact absurd harmed hmode.disarmed
    case isTrue hcut =>
      obtain ⟨hswitching, -, load, step, gpio, hsignal⟩ := hmode.interrupt
      rw [Session.step, hsignal]
      have hsound : Sound { s with pwm := s.pwm.withSignal load step gpio } :=
        ⟨h.unattached, h.duty, h.full, h.empty,
          fun _ hstopped => absurd (hstopped.symm.trans hrunning) Bool.false_ne_true,
          fun _ _ => (if_pos hcut).mpr (hsignal ▸ hswitching)⟩
      exact ⟨hsound, fun hshows => (hsound.showsRequest_running hrunning).mpr
        ((h.showsRequest_running hrunning).mp hshows)⟩
  · rw [Session.step, PwmInfo.interrupt, if_neg hcomes]
    exact ⟨h, id⟩

/-- Every frequency but 0 is valid. -/
theorem timerFreqToCount_ne_zero {freq : UInt16} (hfreq : freq.toNat ≠ 0) :
    timerFreqToCount freq.toNat (timerFreqToDiv freq.toNat) ≠ 0 := by
  have hlt : freq.toNat < 65536 := freq.toNat_lt
  have hle : freq.toNat ≤ timerFreqs (timerFreqToDiv freq.toNat) := by
    unfold timerFreqToDiv
    split
    · omega
    split
    · exact Nat.le_trans (Nat.le_of_lt hlt) (by decide)
    · exact Nat.le_trans (show freq.toNat ≤ 100 by omega) (by decide)
  rw [timerFreqToCount, if_neg (Nat.not_lt.mpr hle)]
  exact Nat.pos_iff_ne_zero.mp (Nat.div_pos hle (Nat.pos_of_ne_zero hfreq))

/-- A change of frequency changes the load of the period and the timer. -/
theorem changeFreq_eq (p : PwmInfo) (freq : UInt16) : ∃ load clkdiv reload freq',
    p.changeFreq freq = { p with
      timer := { p.timer with load := load, clkdiv := clkdiv, reload := reload }
      maxLoad := loadAfter p freq
      freq := freq' } := by
  unfold PwmInfo.changeFreq timerSetFrequency loadAfter
  by_cases hfreq : freq.toNat = 0
  · simp only [if_pos hfreq]
    exact ⟨_, _, _, _, rfl⟩
  · simp only [if_neg hfreq, if_neg (timerFreqToCount_ne_zero hfreq)]
    exact ⟨_, _, _, _, rfl⟩

theorem Sound.setFreq (h : Sound s) (freq : UInt16) :
    Sound (s.step (.setFreq freq)) ∧
      (ShowsRequest (s.step (.setFreq freq)) ↔ ProperCall s (.setFreq freq)) := by
  rw [Session.step, PwmInfo.pwmSetFreq, ProperCall]
  cases hrunning : s.pwm.running with
  | false =>
    obtain ⟨load, clkdiv, reload, freq', hchange⟩ := changeFreq_eq s.pwm freq
    rw [if_neg Bool.false_ne_true, hchange]
    have hsound : Sound ⟨{ s.pwm with
        timer := { s.pwm.timer with load := load, clkdiv := clkdiv, reload := reload }
        maxLoad := loadAfter s.pwm freq
        freq := freq' }, s.requested⟩ :=
      ⟨h.unattached, h.duty, h.full, h.empty, fun hattached hstopped =>
        ⟨(h.stopped hattached hstopped).disarmed, (h.stopped hattached hstopped).shows_⟩,
        fun _ htrue => absurd (hrunning.symm.trans htrue) Bool.false_ne_true⟩
    exact ⟨hsound, iff_of_true (hsound.showsRequest_stopped hrunning) nofun⟩
  | true =>
    obtain ⟨load, clkdiv, reload, freq', hchange⟩ :=
      changeFreq_eq { s.pwm.pwmStop with running := true } freq
    rw [if_pos rfl, hchange]
    obtain ⟨hsound, hiff⟩ := start_session (p := { { s.pwm.pwmStop with running := true } with
        timer := { s.pwm.pwmStop.timer with load := load, clkdiv := clkdiv, reload := reload }
        maxLoad := loadAfter { s.pwm.pwmStop with running := true } freq
        freq := freq' }) h.unattached h.duty h.full h.empty
      fun _ _ => (still_pwmStop s.pwm).disarmed
    exact ⟨hsound, hiff.trans ⟨fun himp _ => himp, fun himp => himp rfl⟩⟩

/-- The flag does not matter for an extreme duty. -/
theorem proper_congr {d : UInt16} {m : ℕ} {o o' : Bool} {kept kept' : Prop}
    (houtput : ¬(d.toNat = 0 ∨ d.toNat = uint16Max) → o = o') (hkept : kept ↔ kept') :
    Proper d m o kept ↔ Proper d m o' kept' := by
  unfold Proper
  rw [hkept, ← or_assoc, ← or_assoc (a := d.toNat = 0)]
  by_cases hextreme : d.toNat = 0 ∨ d.toNat = uint16Max
  · exact iff_of_true (.inl hextreme) (.inl hextreme)
  · rw [houtput hextreme]

theorem Sound.setDuty (h : Sound s) (duty : UInt16) :
    Sound (s.step (.setDuty duty)) ∧
      (ShowsRequest (s.step (.setDuty duty)) ↔ ProperCall s (.setDuty duty)) := by
  have hmax : uint16Max ≠ 0 := by decide
  obtain ⟨output, hstep, hfull, hempty, hother⟩ : ∃ output,
      s.step (.setDuty duty) = ⟨{ s.pwm with dutyCycle := duty, output := output }.pwmRestart, duty⟩ ∧
        (duty.toNat = uint16Max → output = true) ∧ (duty.toNat = 0 → output = false) ∧
        (¬(duty.toNat = 0 ∨ duty.toNat = uint16Max) → output = s.pwm.output) := by
    rw [Session.step, PwmInfo.pwmSetDuty]
    by_cases hextreme : duty.toNat = 0 ∨ duty.toNat = uint16Max
    · refine ⟨_, by rw [if_pos hextreme], fun hfull => decide_eq_true hfull,
        fun hzero => decide_eq_false fun hfull => hmax (hfull.symm.trans hzero),
        fun hother => absurd hextreme hother⟩
    · exact ⟨_, by rw [if_neg hextreme], fun hfull => absurd (.inr hfull) hextreme,
        fun hzero => absurd (.inl hzero) hextreme, fun _ => rfl⟩
  rw [hstep, ProperCall, PwmInfo.pwmRestart]
  cases hrunning : s.pwm.running with
  | false =>
    have hsound : Sound ⟨{ s.pwm with dutyCycle := duty, output := output }, duty⟩ :=
      ⟨h.unattached, .inl rfl, hfull, hempty, fun hattached hstopped =>
        ⟨(h.stopped hattached hstopped).disarmed, (h.stopped hattached hstopped).shows_⟩,
        fun _ htrue => absurd (hrunning.symm.trans htrue) Bool.false_ne_true⟩
    rw [if_neg Bool.false_ne_true]
    exact ⟨hsound, iff_of_true (hsound.showsRequest_stopped hrunning) nofun⟩
  | true =>
    rw [if_pos rfl]
    obtain ⟨hsound, hiff⟩ := start_session
      (p := { s.pwm with dutyCycle := duty, output := output }.pwmStop) h.unattached
      (.inl rfl) hfull hempty fun _ _ => (still_pwmStop _).disarmed
    refine ⟨hsound, hiff.trans ((forall₂_congr fun _ _ => ?_).trans
      ⟨fun himp _ => himp, fun himp => himp rfl⟩)⟩
    exact proper_congr hother (iff_of_true rfl trivial)

theorem Sound.start (h : Sound s) : Sound (s.step .start) ∧
    (ShowsRequest (s.step .start) ↔ ProperCall s .start) := by
  refine start_session h.unattached h.duty h.full h.empty fun hattached hconstant => ?_
  cases hrunning : s.pwm.running with
  | false => exact (h.stopped hattached hrunning).disarmed
  | true =>
    have hmode := h.running hattached hrunning
    rw [if_neg hconstant] at hmode
    exact hmode.disarmed

theorem Sound.step (h : Sound s) (hshows : ShowsRequest s) (e : Event) :
    Sound (s.step e) ∧ (ShowsRequest (s.step e) ↔ ProperCall s e) := by
  cases e with
  | init pins reverse =>
    obtain ⟨hsound, hkeeps⟩ := h.init pins reverse
    exact ⟨hsound, iff_of_true (hkeeps hshows) trivial⟩
  | setFreq freq => exact h.setFreq freq
  | setDuty duty => exact h.setDuty duty
  | start => exact h.start
  | stop => exact ⟨h.stop, iff_of_true (h.stop.showsRequest_stopped rfl) trivial⟩
  | interrupt => exact ⟨h.interrupt.1, iff_of_true (h.interrupt.2 hshows) trivial⟩

theorem along_showsRequest_iff (h : Sound s) (hshows : ShowsRequest s) (events : List Event) :
    Along Session.step (fun s e => ShowsRequest (s.step e)) s events ↔
      Along Session.step ProperCall s events := by
  induction events generalizing s with
  | nil => rfl
  | cons e rest ih =>
    obtain ⟨hsound, hiff⟩ := h.step hshows e
    constructor
    · exact fun hall => ⟨hiff.mp hall.1, (ih hsound hall.1).mp hall.2⟩
    · exact fun hall =>
        have hnext := hiff.mpr hall.1
        ⟨hnext, (ih hsound hnext).mpr hall.2⟩

end Sessions

/-- From power up, the pins show the requested duty after every call and interrupt
exactly when every call that starts the driver does so properly. -/
theorem shows_request_iff (load : ℕ) (gpio : Pin → Bool) (events : List Event) :
    Along Session.step (fun s e => ShowsRequest (s.step e)) (.boot load gpio) events ↔
      Along Session.step ProperCall (.boot load gpio) events :=
  along_showsRequest_iff (sound_boot load gpio)
    ((sound_boot load gpio).showsRequest_stopped rfl) events

/-- Full duty, and then one that is too small for the frequency. -/
def smallDutyAfterFull : List Event :=
  [.init [4] false, .setFreq 50000, .setDuty 65535, .start, .setDuty 100]

/-- The pin stays active for ever. -/
theorem small_duty_shown_full :
    let s := run Session.step (.boot 0 fun _ => false) smallDutyAfterFull
    s.pwm.running = true ∧ s.pwm.maxLoad = 100 ∧ s.requested = 100 ∧ s.pwm.Constantly 4 true := by
  intro s
  have hstill : Still s.pwm true :=
    ⟨by decide, List.forall_mem_singleton.mpr rfl⟩
  exact ⟨rfl, rfl, rfl, (hstill.constantly_iff List.mem_cons_self true).mpr rfl⟩

/-- Whatever is called, the pins of a driver that is not running stay inactive. -/
theorem stopped_pins_inactive (load : ℕ) (gpio : Pin → Bool) (events : List Event) :
    let s := run Session.step (.boot load gpio) events
    s.pwm.running = true ∨ ∀ pin ∈ s.pwm.pins, s.pwm.Constantly pin false := by
  intro s
  have hsound : Sound s := by
    refine run_invariant (fun s e h _ => ?_) (sound_boot load gpio) (along_true _ events)
    cases e with
    | init pins reverse => exact (h.init pins reverse).1
    | setFreq freq => exact (h.setFreq freq).1
    | setDuty duty => exact (h.setDuty duty).1
    | start => exact h.start.1
    | stop => exact h.stop
    | interrupt => exact h.interrupt.1
  cases hrunning : s.pwm.running with
  | true => exact .inl rfl
  | false => exact .inr ((hsound.showsRequest_stopped hrunning).stopped hrunning)

end EspOpenRtos.Pwm
