/-
# Timers and the time they were given

A timer is due when the signed difference of its `fire_ticks` and the counter is
not positive. The product that gives the ticks wraps, and so does the difference:
both are right as long as the time asked for is less than half a period of the
counter. From half a period on there is a moment before that time at which the
timer counts as due.
-/

import EspOpenRtos.EtsTimer.OneShot
import EspOpenRtos.Math.SignedDifference

namespace EspOpenRtos.EtsTimer

open Math.Runs Math.SignedDifference

/-- Ticks of the counter in the time asked for: five in a microsecond. -/
def exactTicks (value : UInt32) (valueInMs : Bool) : ℕ :=
  if valueInMs then value.toNat * 5000 else value.toNat * 5

theorem armTicks_eq (value : UInt32) (valueInMs : Bool) :
    Timers.armTicks value valueInMs = UInt32.ofNat (exactTicks value valueInMs) := by
  cases valueInMs
  · rw [← UInt32.toNat_inj]
    simp [Timers.armTicks, exactTicks]
  · rw [← UInt32.toNat_inj]
    simp [Timers.armTicks, exactTicks]

theorem ofNat_add_armTicks (count : ℕ) (value : UInt32) (valueInMs : Bool) :
    UInt32.ofNat count + Timers.armTicks value valueInMs =
      UInt32.ofNat (count + exactTicks value valueInMs) := by
  rw [armTicks_eq, UInt32.ofNat_add]

/-- Before less than half a period has elapsed a timer is not due. -/
theorem elapsed_of_due {count ticks now : ℕ} (short : ticks < 2 ^ 31) (later : count ≤ now)
    (due : (UInt32.ofNat (count + ticks)).toInt32 - (UInt32.ofNat now).toInt32 < 1) :
    count + ticks ≤ now := by
  by_contra early
  rw [sub_lt_one_iff, diff_ofNat, Int.bmod_eq_of_le (by omega) (by omega)] at due
  push_cast at due
  omega

/-- Half a period before its time a timer counts as due. -/
theorem due_half_period {ticks now : ℕ} (half : ticks = now + 2 ^ 31) :
    (UInt32.ofNat ticks).toInt32 - (UInt32.ofNat now).toInt32 < 1 := by
  have hdiff : (ticks : ℤ) - now = 2 ^ 31 := by omega
  rw [sub_lt_one_iff, diff_ofNat, hdiff]
  decide

namespace System

variable {T : Type} [DecidableEq T] [Fintype T] {s : System T} {L : List T} {t : T}
  {op : Op T}

/-- A timer that was armed at `count` for `ticks` waits in the list, or its time
has come. -/
def Waits (count ticks : ℕ) (t : T) (s : System T) : Prop :=
  count ≤ s.now ∧ ∃ L, s.timers.Holds L ∧
    ((t ∈ L ∧ (s.timers.timer t).fireTicks = UInt32.ofNat (count + ticks)) ∨
      count + ticks ≤ s.now)

/-- As long as there is no call for the timer, it waits, and its callback is
invoked when its time has come. -/
theorem waits_step {count ticks : ℕ} (short : ticks < 2 ^ 31) (h : s.Waits count ticks t)
    (setsUp : s.SetsUpUnarmed op) (other : op.subject ≠ some t) :
    (s.step op).Waits count ticks t ∧
      (s.invoked op = some t → count + ticks ≤ (s.step op).now) := by
  obtain ⟨hcount, L, hholds, ⟨ht, hfire⟩ | helapsed⟩ := h
  · obtain ⟨L', hkeeps⟩ := step_keeps hholds setsUp other (.inl ht)
    have hcount' := hcount.trans hkeeps.now_le
    by_cases hinv : s.invoked op = some t
    · have hdue := (hkeeps.of_invoked hinv).2.2
      rw [hfire] at hdue
      have helapsed := elapsed_of_due short hcount' hdue
      exact ⟨⟨hcount', L', hkeeps.holds, .inr helapsed⟩, fun _ => helapsed⟩
    · refine ⟨⟨hcount', L', hkeeps.holds, .inl ⟨?_, ?_⟩⟩, fun h => absurd h hinv⟩
      · exact (hkeeps.mem_of_not_invoked hinv).mpr ht
      · exact hkeeps.fireTicks.trans hfire
  · have hnow := s.now_le_step op
    obtain ⟨L', hholds'⟩ := step_holds hholds setsUp
    exact ⟨⟨hcount.trans hnow, L', hholds', .inr (helapsed.trans hnow)⟩,
      fun _ => helapsed.trans hnow⟩

/-- Arming a timer lets it wait. -/
theorem waits_arm (h : s.timers.Holds L) (running : ¬ s.halted) (ht : t ∉ L) (value : UInt32)
    (repeatFlag valueInMs : Bool) (delays : Delays) :
    (s.step (.arm t value repeatFlag valueInMs delays)).Waits (s.now + delays.toCount)
      (exactTicks value valueInMs) t := by
  have hinserts := arm_of_not_mem h ht value repeatFlag valueInMs delays
  have hadded := hinserts.timers
  rw [step_arm running]
  refine ⟨?_, _, hadded.holds, .inl ⟨?_, ?_⟩⟩
  · obtain ⟨timers, -, heq⟩ := hinserts
    rw [heq]
    exact now_le_added (s.advance delays.toCount) delays _
  · exact List.mem_append_right _ List.mem_cons_self
  · rw [hadded.fireTicks_self, ofNat_add_armTicks]

/-- Whenever the timer is armed for this time while it is not armed, and there is
no other call for it, its callback is not invoked before the time has elapsed. -/
def NeverEarly (t : T) (value : UInt32) (valueInMs : Bool) : Prop :=
  ∀ (now : ℕ) (before after : List (Op T)) (repeatFlag : Bool) (delays : Delays) (op : Op T),
    let s := run step (start now) before
    let arming : Op T := .arm t value repeatFlag valueInMs delays
    let s' := run step (s.step arming) after
    Along step SetsUpUnarmed (start now) (before ++ arming :: (after ++ [op])) →
    (s.timers.timer t).next = .unlinked →
    (∀ later ∈ after ++ [op], later.subject ≠ some t) →
    s'.invoked op = some t → s.now + exactTicks value valueInMs ≤ (s'.step op).now

/-- A run without a call for the timer lets it wait. -/
theorem waits_run {count ticks : ℕ} (short : ticks < 2 ^ 31) {ops : List (Op T)}
    (h : s.Waits count ticks t) (setsUp : Along step SetsUpUnarmed s ops)
    (others : ∀ op ∈ ops, op.subject ≠ some t) :
    (run step s ops).Waits count ticks t := by
  induction ops generalizing s with
  | nil => exact h
  | cons op ops ih =>
    obtain ⟨other, hrest⟩ := List.forall_mem_cons.mp others
    exact ih (waits_step short h setsUp.1 other).1 setsUp.2 hrest

theorem run_of_halted (halted : s.halted) (ops : List (Op T)) :
    run step s ops = s := by
  induction ops with
  | nil => rfl
  | cons op ops ih => rw [run_cons, step_of_halted halted, ih]

/-- A timer that is armed for less than half a period does not fire early. -/
theorem neverEarly_of_short {value : UInt32} {valueInMs : Bool}
    (short : exactTicks value valueInMs < 2 ^ 31) : NeverEarly t value valueInMs := by
  intro now before after repeatFlag delays op s arming s' setsUp unarmed others hinvoked
  obtain ⟨hbefore, -, hrest⟩ := along_append.mp setsUp
  obtain ⟨hafter, hop, -⟩ := along_append.mp hrest
  by_cases halted : s.halted
  · have hs' : s' = s := by
      show run step (s.step arming) after = s
      rw [step_of_halted halted, run_of_halted halted]
    rw [hs', invoked_of_halted halted] at hinvoked
    exact absurd hinvoked.symm (Option.some_ne_none t)
  obtain ⟨L, h⟩ := run_holds hbefore
  have ht : t ∉ L := fun hmem => h.mem_iff.mp hmem unarmed
  have hwaits := waits_arm h halted ht value repeatFlag valueInMs delays
  have hwaits' : s'.Waits (s.now + delays.toCount) (exactTicks value valueInMs) t :=
    waits_run short hwaits hafter fun later hmem => others later (List.mem_append_left _ hmem)
  have helapsed := (waits_step short hwaits' hop
    (others op (List.mem_append_right _ (List.mem_singleton_self op)))).2 hinvoked
  omega

/-- Arming the first timer at the start. -/
theorem arm_start (t : T) (value : UInt32) (valueInMs : Bool) :
    let s : System T := (start 0).step (.arm t value false valueInMs {})
    ¬ s.halted ∧ s.pc = .idle ∧ s.now = 0 ∧ s.timers.Holds [t] ∧
      (s.timers.timer t).fireTicks = UInt32.ofNat (exactTicks value valueInMs) := by
  have running : ¬ (start 0 : System T).halted := Bool.false_ne_true
  have hinserts := arm_of_not_mem (start_holds 0) (List.not_mem_nil (a := t)) value false
    valueInMs {}
  rw [← step_arm running] at hinserts
  refine ⟨hinserts.halted_eq ▸ running, hinserts.pc_eq, ?_, hinserts.timers.holds, ?_⟩
  · obtain ⟨timers, -, heq⟩ := hinserts
    exact congrArg now heq
  · have hticks := ofNat_add_armTicks 0 value valueInMs
    rw [Nat.zero_add] at hticks
    exact hinserts.timers.fireTicks_self.trans hticks

/-- A timer that is armed for half a period or more can fire early: half a period
before its time it counts as due. -/
theorem early_of_long {value : UInt32} {valueInMs : Bool}
    (long : 2 ^ 31 ≤ exactTicks value valueInMs) : ¬ NeverEarly t value valueInMs := by
  intro never
  obtain ⟨wait, half⟩ : ∃ wait, exactTicks value valueInMs = wait + 2 ^ 31 :=
    ⟨exactTicks value valueInMs - 2 ^ 31, (Nat.sub_add_cancel long).symm⟩
  let s : System T := (start 0).step (.arm t value false valueInMs {})
  obtain ⟨running, waiting, hnow, hholds, hfire⟩ := arm_start t value valueInMs
  have hpass : s.step (.pass wait) = s.advance wait := if_neg running
  have hcount : (s.advance wait).wake.now + 0 = wait := by
    show s.now + wait + 0 = wait
    rw [hnow, Nat.zero_add, Nat.add_zero]
  have hdue : (s.timers.timer t).fireTicks.toInt32 -
      (UInt32.ofNat ((s.advance wait).wake.now + 0)).toInt32 < 1 := by
    rw [hfire, hcount]
    exact due_half_period half
  obtain ⟨hpc, htime⟩ := @test_of_due _ _ (s.advance wait).wake t [] hholds {} hdue
  have running' : ¬ (s.advance wait).halted := running
  have waiting' : (s.advance wait).pc = .idle := waiting
  have hinvoked : (s.step (.pass wait)).invoked (.process {}) = some t := by
    rw [hpass, invoked_process running' waiting', hpc]
    rfl
  have hprocess : (s.step (.pass wait)).step (.process {}) = (s.advance wait).wake.test {} := by
    rw [hpass, step_process running' waiting']
  have hearly := never 0 [] [.pass wait] false {} (.process {})
    (by simp [Along, SetsUpUnarmed]) rfl (by simp [Op.subject]) hinvoked
  have hnotyet : exactTicks value valueInMs ≤ wait := by
    have hend := hprocess ▸ hearly
    rw [htime, hcount, show (run step (start 0 : System T) []).now = 0 from rfl,
      Nat.zero_add] at hend
    exact hend
  omega

/-- A timer never fires early exactly when it is armed for less than half a period of
the counter. -/
theorem neverEarly_iff (t : T) (value : UInt32) (valueInMs : Bool) :
    NeverEarly t value valueInMs ↔ exactTicks value valueInMs < 2 ^ 31 :=
  ⟨fun never => Nat.lt_of_not_le fun long => early_of_long long never, neverEarly_of_short⟩

/-- A timer that is armed for a little over seven minutes is due at once. -/
theorem seven_minutes_due_at_once :
    let s : System (Fin 1) := (start 0).step (.arm 0 429497 false true {})
    s.invoked (.process {}) = some 0 ∧ (s.step (.process {})).now = 0 ∧
      exactTicks 429497 true = 2147485000 := by
  decide +kernel

end System

end EspOpenRtos.EtsTimer
