/-
# One-shot timers

A timer that is not armed and has no period is quiet: nothing but another call of
`sdk_ets_timer_arm_ms_us` makes its callback run. Disarming a timer makes it
quiet, and so does the callback of a timer that was armed once without a period.

Arming a timer once does not clear the period an earlier call left. A repeating
timer that arms itself once from its own callback keeps its period, and goes on
firing.
-/

import EspOpenRtos.EtsTimer.System
import EspOpenRtos.Math.Runs

namespace EspOpenRtos.EtsTimer

open Math.Runs

/-- The timer an operation arms. -/
def Op.armed {T : Type} : Op T → Option T
  | .arm t _ _ _ _ => some t
  | _ => none

namespace System

variable {T : Type} [DecidableEq T] [Fintype T]

/-- How often a run invokes the callback of a timer. -/
def invocations (t : T) : System T → List (Op T) → ℕ
  | _, [] => 0
  | s, op :: ops =>
    (if s.invoked op = some t then 1 else 0) + invocations t (s.step op) ops

variable {s : System T} {L : List T} {t : T} {op : Op T} {ops : List (Op T)}

/-- A system that halted invokes nothing. -/
theorem invocations_of_halted (halted : s.halted) : invocations t s ops = 0 := by
  induction ops with
  | nil => rfl
  | cons op ops ih =>
    rw [invocations, step_of_halted halted, invoked_of_halted halted, ih]
    rfl

/-- Without a period a timer stays without one until it is armed again, and leaves
the list when its callback is invoked. -/
theorem step_once (h : s.timers.Holds L) (hperiod : (s.timers.timer t).periodTicks = 0)
    (setsUp : s.SetsUpUnarmed op) (notArmed : op.armed ≠ some t) :
    ∃ L', (s.step op).timers.Holds L' ∧ ((s.step op).timers.timer t).periodTicks = 0 ∧
      ((s.invoked op ≠ some t ∧ (t ∈ L' → t ∈ L)) ∨
        (s.invoked op = some t ∧ t ∈ L ∧ t ∉ L')) := by
  by_cases other : op.subject ≠ some t
  · obtain ⟨L', hkeeps⟩ := step_keeps h setsUp other (.inr hperiod)
    refine ⟨L', hkeeps.holds, hkeeps.periodTicks.trans hperiod, ?_⟩
    by_cases hinv : s.invoked op = some t
    · obtain ⟨hmem, hnot, -⟩ := hkeeps.of_invoked hinv
      exact .inr ⟨hinv, hmem, hnot⟩
    · exact .inl ⟨hinv, (hkeeps.mem_of_not_invoked hinv).mp⟩
  · -- A call for the timer itself, and not the one that arms it.
    have hnone : none ≠ some t := (Option.some_ne_none t).symm
    have hleaves := s.leaves_step op
    generalize s.invoked op = invoked, s.step op = s' at hleaves
    cases hleaves with
    | stay => exact ⟨L, h, hperiod, .inl ⟨hnone, id⟩⟩
    | setfn u =>
      obtain rfl : t = u := (Option.some.inj (not_not.mp other)).symm
      have ht : t ∉ L := fun hmem => h.mem_iff.mp hmem (setsUp t rfl)
      refine ⟨L, h.setfn ht, ?_, .inl ⟨hnone, id⟩⟩
      rw [setfn, Timers.setfn, Timers.update_timer, if_pos rfl]
    | disarm u =>
      obtain rfl : u = t := Option.some.inj (not_not.mp other)
      obtain ⟨timers, hdisarmed, heq⟩ := disarm_eq h u
      rw [heq]
      refine ⟨L.erase u, hdisarmed.holds, ?_,
        .inl ⟨hnone, List.mem_of_mem_erase⟩⟩
      rw [hdisarmed.periodTicks u, if_pos rfl]
    | arm u => exact absurd (not_not.mp other) notArmed
    | pass | process | callbackReturn => exact absurd (not_not.mp other) hnone

/-- Without a period the callback is invoked at most once while the timer is not
armed again, and never when it is not in the list. -/
theorem invocations_le (h : s.timers.Holds L)
    (hperiod : (s.timers.timer t).periodTicks = 0) (setsUp : Along step SetsUpUnarmed s ops)
    (notArmed : ∀ op ∈ ops, op.armed ≠ some t) :
    invocations t s ops ≤ if t ∈ L then 1 else 0 := by
  induction ops generalizing s L with
  | nil => exact Nat.zero_le _
  | cons op ops ih =>
    obtain ⟨hnot, hrest⟩ := List.forall_mem_cons.mp notArmed
    obtain ⟨L', h', hperiod', hcase⟩ := step_once h hperiod setsUp.1 hnot
    have hle := ih h' hperiod' setsUp.2 hrest
    rw [invocations]
    rcases hcase with ⟨hinv, hmem⟩ | ⟨hinv, hmem, hnotmem⟩
    · rw [if_neg hinv, Nat.zero_add]
      split at hle
      case isTrue hin => rwa [if_pos (hmem hin)]
      case isFalse => exact hle.trans (Nat.zero_le _)
    · rw [if_neg hnotmem] at hle
      rw [if_pos hinv, if_pos hmem]
      omega

/-- After a call of `sdk_ets_timer_disarm` the callback is not invoked. -/
theorem invocations_disarm (h : s.timers.Holds L) (t : T)
    (setsUp : Along step SetsUpUnarmed (s.step (.disarm t)) ops)
    (notArmed : ∀ op ∈ ops, op.armed ≠ some t) :
    invocations t (s.step (.disarm t)) ops = 0 := by
  by_cases halted : s.halted
  · rw [step_of_halted halted]
    exact invocations_of_halted halted
  · obtain ⟨timers, hdisarmed, heq⟩ := disarm_eq h t
    have hstep : s.step (.disarm t) = { s with timers } := (if_neg halted).trans heq
    have hperiod : ((s.step (.disarm t)).timers.timer t).periodTicks = 0 := by
      rw [hstep, hdisarmed.periodTicks t, if_pos rfl]
    have hle := invocations_le (by rw [hstep]; exact hdisarmed.holds) hperiod setsUp notArmed
    rwa [if_neg h.nodup.not_mem_erase, Nat.le_zero] at hle

/-- After a call that arms a timer without a period once, the callback is invoked
at most once. -/
theorem invocations_arm (h : s.timers.Holds L)
    (hperiod : (s.timers.timer t).periodTicks = 0) (value : UInt32) (valueInMs : Bool)
    (delays : Delays)
    (setsUp : Along step SetsUpUnarmed (s.step (.arm t value false valueInMs delays)) ops)
    (notArmed : ∀ op ∈ ops, op.armed ≠ some t) :
    invocations t (s.step (.arm t value false valueInMs delays)) ops ≤ 1 := by
  by_cases halted : (s.step (.arm t value false valueInMs delays)).halted
  · rw [invocations_of_halted halted]
    exact Nat.zero_le 1
  by_cases running : s.halted
  · rw [step_of_halted running] at halted
    exact absurd running halted
  rw [step_arm running] at halted setsUp ⊢
  by_cases ht : t ∈ L
  · rw [arm_of_mem h ht] at halted
    exact absurd rfl halted
  · have hadded := (arm_of_not_mem h ht value false valueInMs delays).timers
    have hle := invocations_le hadded.holds ((hadded.periodTicks t).trans hperiod) setsUp
      notArmed
    exact hle.trans (by split <;> omega)

/-- The pointers form a list after every run. -/
theorem run_holds {now : ℕ} {ops : List (Op T)}
    (setsUp : Along step SetsUpUnarmed (start now) ops) :
    ∃ L, (run step (start now) ops).timers.Holds L := by
  have hpreserved (s : System T) (op : Op T) (h : ∃ L, s.timers.Holds L)
      (setsUp : s.SetsUpUnarmed op) : ∃ L, (s.step op).timers.Holds L :=
    h.elim fun _ h => step_holds h setsUp
  exact run_invariant hpreserved ⟨[], start_holds now⟩ setsUp

/-- When only timers that are not armed are set up again, a timer that is disarmed is not
invoked before it is armed again, and a timer that is armed once, having no period
from an earlier call, is invoked at most once before it is armed again. -/
theorem one_shot_once (now : ℕ) (before after : List (Op T)) (op : Op T) (t : T)
    (setsUp : Along step SetsUpUnarmed (start now) (before ++ op :: after))
    (notArmed : ∀ later ∈ after, later.armed ≠ some t) :
    ((∃ value valueInMs delays, op = .arm t value false valueInMs delays) →
      ((run step (start now) before).timers.timer t).periodTicks = 0 →
      invocations t ((run step (start now) before).step op) after ≤ 1) ∧
    (op = .disarm t →
      invocations t ((run step (start now) before).step op) after = 0) := by
  obtain ⟨hbefore, -, hafter⟩ := along_append.mp setsUp
  obtain ⟨L, h⟩ := run_holds hbefore
  refine ⟨?_, ?_⟩
  · rintro ⟨value, valueInMs, delays, rfl⟩ hperiod
    exact invocations_arm h hperiod value valueInMs delays hafter notArmed
  · rintro rfl
    exact invocations_disarm h t hafter notArmed

/-- A timer that repeats every five ticks arms itself once from its callback, and
fires twice afterwards. -/
def rearmed : List (Op (Fin 1)) :=
  [.arm (Fin.last 0) 1 true false {}, .pass 5, .process {}, .arm (Fin.last 0) 1 false false {}]

/-- The two later firings. -/
def firings : List (Op (Fin 1)) :=
  [.callbackReturn {} {}, .pass 5, .process {}, .callbackReturn {} {}, .pass 5, .process {}]

theorem rearmed_repeats :
    (∀ later ∈ firings, later.armed ≠ some 0) ∧
      invocations 0 (run step (start 0) rearmed) firings = 2 := by
  decide +kernel

theorem one_shot_once_five :
    invocations (0 : Fin 1) ((run step (start 0) []).step (.arm 0 1 false false {})) firings
      ≤ 1 := by
  refine (one_shot_once 0 [] firings (.arm 0 1 false false {}) 0 ?_ ?_).1 ⟨1, false, {}, rfl⟩ rfl
  · simp [Along, SetsUpUnarmed, firings]
  · decide

end System

end EspOpenRtos.EtsTimer
