/-
# Timers shared between tasks

The timer task processes the timers while other tasks disarm and arm them. Each
timer has one such task, its owner, which disarms the timer before it arms it.
Critical sections are single steps; between them every task can be preempted, in
`sdk_ets_timer_arm_ms_us` between the check of `next`, the write of `period_ticks`
and the critical section, and in `process_pending_timers` during a callback.

The timer task decides from `next` and `period_ticks` whether to put a timer back
after its callback. Between the write of `period_ticks` and the critical section
of its owner these two fields look like those of a repeating timer that just fired,
so that the timer is put into the list by both. As long as no callback returns in
that window the list is sound.
-/

import EspOpenRtos.EtsTimer.System
import EspOpenRtos.Math.Runs

namespace EspOpenRtos.EtsTimer

open Math.LinkedList Math.Runs

/-- Where the owner of a timer is: it has to disarm the timer first, it disarmed
it, or it is in `sdk_ets_timer_arm_ms_us` after the check of `next` or before the
critical section. -/
inductive Owner where
  | mustDisarm
  | disarmed
  | checked (ticks : UInt32) (repeatFlag : Bool)
  | linking (ticks : UInt32)
  deriving DecidableEq

/-- The owner disarmed the timer and did not put it into the list yet. -/
def Owner.Unlinked : Owner → Prop
  | .mustDisarm => False
  | _ => True

/-- The owner disarmed the timer and did not write its period yet. -/
def Owner.Cleared : Owner → Prop
  | .disarmed => True
  | .checked _ _ => True
  | _ => False

/-- The timers, the timer task and the owners. -/
structure Shared (T : Type) where
  timers : Timers T
  pc : Pc T
  owner : T → Owner
  halted : Bool

/-- The steps of the owner of a timer and of the timer task. Where a step reads
`COUNT`, the value comes with it. -/
inductive Access (T : Type) where
  | disarm (t : T)
  | armCheck (t : T) (value : UInt32) (repeatFlag valueInMs : Bool)
  | armPeriod (t : T)
  | armLink (t : T) (count : UInt32)
  | process (count : UInt32)
  | callbackReturn (count : UInt32)

namespace Shared

variable {T : Type}

/-- Every timer is set up and none is armed. -/
def start : Shared T where
  timers := { timerList := .listEnd, timer := fun _ => {} }
  pc := .idle
  owner _ := .mustDisarm
  halted := false

variable [DecidableEq T]

/-- The owner of a timer goes on. -/
def moveOwner (s : Shared T) (t : T) (owner : Owner) : Shared T :=
  { s with owner := Function.update s.owner t owner }

theorem moveOwner_owner_self (s : Shared T) (t : T) (owner : Owner) :
    (s.moveOwner t owner).owner t = owner := Function.update_self ..

theorem moveOwner_owner_of_ne (s : Shared T) {t x : T} (hxt : x ≠ t) (owner : Owner) :
    (s.moveOwner t owner).owner x = s.owner x := Function.update_of_ne hxt ..

/-- Continue with the timers a critical section leaves; the system stands still if
the section does not end. -/
def leave (s : Shared T) : Option (Timers T) → Shared T
  | none => { s with halted := true }
  | some timers => { s with timers }

/-- `process_pending_timers` from a read of `COUNT` to the next callback or its
end. -/
def test (s : Shared T) (count : UInt32) : Shared T :=
  match s.timers.processHead count with
  | none => { s with halted := true }
  | some .empty => { s with pc := .idle }
  | some (.due t timers) => { s with timers, pc := .callback t }
  | some (.later _) => { s with pc := .idle }

variable [Fintype T]

/-- `process_pending_timers` from the return of a callback to the next read of
`COUNT`. -/
def finish (s : Shared T) (t : T) : Shared T :=
  s.leave ((s.timers.relink t).map Prod.fst)

/-- What a step does. A system that halted stays as it is. -/
def step (s : Shared T) (access : Access T) : Shared T :=
  if s.halted then s else
  match access with
  | .disarm t =>
    match s.owner t with
    | .mustDisarm | .disarmed => (s.leave (s.timers.disarm t)).moveOwner t .disarmed
    | _ => s
  | .armCheck t value repeatFlag valueInMs =>
    match s.owner t with
    | .disarmed =>
      if (s.timers.timer t).next ≠ .unlinked then { s with halted := true }
      else s.moveOwner t (.checked (Timers.armTicks value valueInMs) repeatFlag)
    | _ => s
  | .armPeriod t =>
    match s.owner t with
    | .checked ticks repeatFlag =>
      { s with timers := s.timers.writePeriod t ticks repeatFlag }.moveOwner t
        (.linking ticks)
    | _ => s
  | .armLink t count =>
    match s.owner t with
    | .linking ticks =>
      (s.leave ((s.timers.addPendingTimer (count + ticks) t).map Prod.fst)).moveOwner t
        .mustDisarm
    | _ => s
  | .process count =>
    match s.pc with
    | .idle => s.test count
    | _ => s
  | .callbackReturn count =>
    match s.pc with
    | .callback t => if (s.finish t).halted then s.finish t else (s.finish t).test count
    | _ => s

/-- The list is sound and no halt loop was entered: `timer_list` leads through
distinct timers, and these are the timers whose `next` is not the mark. -/
def Sound (s : Shared T) : Prop :=
  ¬ s.halted ∧ ∃ L : List T, L.Nodup ∧
    Chain (fun t => (s.timers.timer t).next) s.timers.timerList L ∧
    ∀ t, t ∈ L ↔ (s.timers.timer t).next ≠ .unlinked

/-- No callback returns while the owner of its timer is between the write of
`period_ticks` and the critical section, with a period written. -/
def NoReturnWhileLinking (s : Shared T) (access : Access T) : Prop :=
  ∀ t ticks count, access = .callbackReturn count → s.pc = .callback t →
    s.owner t = .linking ticks → (s.timers.timer t).periodTicks = 0

/-! ## The invariant -/

/-- A timer that its owner disarmed is not in the list until the owner puts it
there, and has no period until the owner writes one. -/
structure Separate (s : Shared T) (L : List T) : Prop where
  running : ¬ s.halted
  holds : s.timers.Holds L
  unlinked : ∀ t, (s.owner t).Unlinked → t ∉ L
  cleared : ∀ t, (s.owner t).Cleared → (s.timers.timer t).periodTicks = 0

variable {s : Shared T} {L : List T} {t : T}

omit [Fintype T] in
theorem Separate.sound (h : s.Separate L) : s.Sound :=
  ⟨h.running, L, h.holds.nodup, h.holds.chain, fun _ => h.holds.mem_iff⟩

omit [Fintype T] in
theorem separate_start : (start : Shared T).Separate [] where
  running := Bool.false_ne_true
  holds := ⟨List.nodup_nil, rfl, fun _ => rfl⟩
  unlinked _ h := h.elim
  cleared _ h := h.elim

section

variable (h : s.Separate L)
include h

omit [Fintype T] in
/-- The owner of one timer goes on, with what that asks of the timers. -/
theorem Separate.moveOwner {L' : List T} {timers : Timers T} {owner : Owner}
    (holds : timers.Holds L') (mem : ∀ x, x ≠ t → (x ∈ L' ↔ x ∈ L))
    (period : ∀ x, x ≠ t → (timers.timer x).periodTicks = (s.timers.timer x).periodTicks)
    (unlinked : owner.Unlinked → t ∉ L')
    (cleared : owner.Cleared → (timers.timer t).periodTicks = 0) :
    ({ s with timers }.moveOwner t owner).Separate L' where
  running := h.running
  holds := holds
  unlinked x hx := by
    by_cases hxt : x = t
    · rw [hxt, moveOwner_owner_self] at hx
      exact hxt ▸ unlinked hx
    · rw [moveOwner_owner_of_ne _ hxt] at hx
      exact fun hmem => h.unlinked x hx ((mem x hxt).mp hmem)
  cleared x hx := by
    by_cases hxt : x = t
    · rw [hxt, moveOwner_owner_self] at hx
      exact hxt ▸ cleared hx
    · rw [moveOwner_owner_of_ne _ hxt] at hx
      exact (period x hxt).trans (h.cleared x hx)

/-- `sdk_ets_timer_disarm`. -/
theorem Separate.disarm (t : T) :
    ((s.leave (s.timers.disarm t)).moveOwner t .disarmed).Separate (L.erase t) := by
  obtain ⟨timers, hdisarmed, heq⟩ := h.holds.disarm_eq t
  rw [heq]
  refine h.moveOwner hdisarmed.holds (fun x hxt => List.mem_erase_of_ne hxt) (fun x hxt => ?_)
    (fun _ => h.holds.nodup.not_mem_erase) fun _ => ?_
  · rw [hdisarmed.periodTicks x, if_neg hxt]
  · rw [hdisarmed.periodTicks t, if_pos rfl]

/-- A timer that is not in the list is put there. -/
theorem Separate.link (ht : t ∉ L) (ticks : UInt32) :
    ∃ L', ((s.leave ((s.timers.addPendingTimer ticks t).map Prod.fst)).moveOwner t
      .mustDisarm).Separate L' := by
  obtain ⟨timers, hadded, heq⟩ := h.holds.addPendingTimer_eq ht ticks
  rw [heq]
  refine ⟨_, h.moveOwner hadded.holds (fun x hxt => ?_) (fun x _ => hadded.periodTicks x)
    False.elim False.elim⟩
  rw [Timers.mem_inserted, or_iff_right hxt]

/-- A callback returns when its timer may be put back. -/
theorem Separate.finish (free : (s.owner t).Unlinked → (s.timers.timer t).periodTicks = 0) :
    ∃ L', (s.finish t).Separate L' := by
  rw [Shared.finish, Timers.relink]
  split
  case isTrue hrelink =>
    obtain ⟨hnext, hperiod⟩ := hrelink
    have ht : t ∉ L := fun hmem => h.holds.mem_iff.mp hmem hnext
    obtain ⟨timers, hadded, heq⟩ := h.holds.addPendingTimer_eq ht
      ((s.timers.timer t).fireTicks + (s.timers.timer t).periodTicks)
    rw [heq]
    refine ⟨_, h.running, hadded.holds, fun x hx hmem => ?_, fun x hx => ?_⟩
    · have hxt : x ≠ t := fun hxt => hperiod (free (hxt ▸ hx))
      exact h.unlinked x hx ((Timers.mem_inserted.mp hmem).resolve_left hxt)
    · exact (hadded.periodTicks x).trans (h.cleared x hx)
  case isFalse => exact ⟨L, h.running, h.holds, h.unlinked, h.cleared⟩

omit [Fintype T] in
/-- The test of the loop takes timers out of the list only. -/
theorem Separate.test (count : UInt32) : ∃ L', (s.test count).Separate L' := by
  rw [Shared.test]
  obtain ⟨-, heq⟩ | ⟨t, rest, timers, hL, -, heq, hrest, -, hperiod⟩ | ⟨t, rest, -, -, heq⟩ :=
    h.holds.processHead_eq count
  · rw [heq]
    exact ⟨L, h.running, h.holds, h.unlinked, h.cleared⟩
  · rw [heq]
    refine ⟨rest, h.running, hrest, fun x hx hmem => ?_, fun x hx => ?_⟩
    · exact h.unlinked x hx (hL ▸ List.mem_cons_of_mem t hmem)
    · exact (hperiod x).trans (h.cleared x hx)
  · rw [heq]
    exact ⟨L, h.running, h.holds, h.unlinked, h.cleared⟩

omit [Fintype T] in
/-- The owner of a timer goes on without touching the timers. -/
theorem Separate.moveOwner_self {owner : Owner} (unlinked : owner.Unlinked → t ∉ L)
    (cleared : owner.Cleared → (s.timers.timer t).periodTicks = 0) :
    (s.moveOwner t owner).Separate L :=
  h.moveOwner h.holds (fun _ _ => Iff.rfl) (fun _ _ => rfl) unlinked cleared

omit [Fintype T] in
/-- The write of `period_ticks`. -/
theorem Separate.writePeriod (ht : t ∉ L) (ticks : UInt32) (repeatFlag : Bool) :
    ({ s with timers := s.timers.writePeriod t ticks repeatFlag }.moveOwner t
      (.linking ticks)).Separate L := by
  refine h.moveOwner (h.holds.writePeriod t ticks repeatFlag) (fun _ _ => Iff.rfl)
    (fun x hxt => ?_) (fun _ => ht) False.elim
  cases repeatFlag with
  | false => rfl
  | true => rw [Timers.writePeriod, if_pos rfl, Timers.update_timer, if_neg hxt]

/-- Every step keeps the owners and the timer task apart. -/
theorem Separate.step {access : Access T} (apart : s.NoReturnWhileLinking access) :
    ∃ L', (s.step access).Separate L' := by
  unfold Shared.step
  rw [if_neg h.running]
  cases access with
  | disarm t =>
    dsimp only
    split
    · exact ⟨_, h.disarm t⟩
    · exact ⟨_, h.disarm t⟩
    · exact ⟨L, h⟩
  | armCheck t value repeatFlag valueInMs =>
    dsimp only
    split
    case h_1 howner =>
      have ht : t ∉ L := h.unlinked t (howner ▸ trivial)
      rw [if_neg fun hnext => ht (h.holds.mem_iff.mpr hnext)]
      exact ⟨L, h.moveOwner_self (fun _ => ht) fun _ => h.cleared t (howner ▸ trivial)⟩
    case h_2 => exact ⟨L, h⟩
  | armPeriod t =>
    dsimp only
    split
    case h_1 ticks repeatFlag howner =>
      exact ⟨L, h.writePeriod (h.unlinked t (howner ▸ trivial)) ticks repeatFlag⟩
    case h_2 => exact ⟨L, h⟩
  | armLink t count =>
    dsimp only
    split
    case h_1 ticks howner => exact h.link (h.unlinked t (howner ▸ trivial)) (count + ticks)
    case h_2 => exact ⟨L, h⟩
  | process count =>
    dsimp only
    split
    · exact h.test count
    · exact ⟨L, h⟩
  | callbackReturn count =>
    dsimp only
    split
    case h_1 t hpc =>
      have free (howner : (s.owner t).Unlinked) : (s.timers.timer t).periodTicks = 0 := by
        cases hcase : s.owner t with
        | mustDisarm => exact absurd howner (hcase ▸ id)
        | disarmed | checked ticks repeatFlag => exact h.cleared t (hcase ▸ trivial)
        | linking ticks => exact apart t ticks count rfl hpc hcase
      obtain ⟨L₁, hfinish⟩ := h.finish free
      rw [if_neg hfinish.running]
      exact hfinish.test count
    case h_2 => exact ⟨L, h⟩

end

/-- As long as no callback returns while the owner of its timer is between the
write of a period and the critical section, the list is sound in every state that
an interleaving reaches, and no halt loop is entered. -/
theorem interleaving_sound (accesses : List (Access T))
    (apart : Along step NoReturnWhileLinking start accesses) :
    (run step start accesses).Sound := by
  have hpreserved (s : Shared T) (access : Access T) (h : ∃ L, s.Separate L)
      (apart : s.NoReturnWhileLinking access) : ∃ L, (s.step access).Separate L :=
    h.elim fun _ h => h.step apart
  obtain ⟨L, h⟩ := run_invariant hpreserved ⟨[], separate_start⟩ apart
  exact h.sound

/-- The owner disarms and arms the timer, and it fires once. -/
theorem interleaving_sound_once :
    (run step start [.disarm (0 : Fin 1), .armCheck 0 1 true false, .armPeriod 0,
      .armLink 0 0, .process 5, .callbackReturn 5]).Sound := by
  refine interleaving_sound _ ⟨nofun, nofun, nofun, nofun, nofun, ?_, trivial⟩
  intro t ticks count _ _ howner
  obtain rfl : t = 0 := Subsingleton.elim _ _
  have hidle : (run step start [.disarm (0 : Fin 1), .armCheck 0 1 true false, .armPeriod 0,
      .armLink 0 0, .process 5]).owner 0 = .mustDisarm := by decide +kernel
  exact absurd (hidle.symm.trans howner) nofun

/-- The owner arms the timer again while its callback runs, and the callback
returns between the write of the period and the critical section. -/
def preempted : List (Access (Fin 1)) :=
  [.disarm 0, .armCheck 0 1 true false, .armPeriod 0, .armLink 0 0, .process 5,
    .disarm 0, .armCheck 0 1 true false, .armPeriod 0, .callbackReturn 5, .armLink 0 5]

theorem preempted_halts : (run step start preempted).halted = true := by
  decide +kernel

end Shared

end EspOpenRtos.EtsTimer
