/-
# The timer system, one operation at a time

The counter and the alarm of FRC2, the wakeup of the timer task and the callback
in which that task is, around the timers. Operations run one after the other:
calls of the three functions, made by a task or by the callback that is running,
and the critical sections of `process_pending_timers`, which reach from its start
or from the return of a callback to the next callback or to its end. Time passes
between the operations and inside them, before `COUNT` is read and between the
read and the write of `ALARM` in `set_alarm`.

The interrupt is raised when the counter reaches the alarm, and then a wakeup of
the timer task is pending until the task starts to process the timers.
-/

import EspOpenRtos.EtsTimer.Timers

namespace EspOpenRtos.EtsTimer

/-- Where the timer task is: outside `process_pending_timers` or in a callback. -/
inductive Pc (T : Type) where
  | idle
  | callback (t : T)
  deriving DecidableEq

/-- The timer whose callback runs. -/
def Pc.running {T : Type} : Pc T → Option T
  | .idle => none
  | .callback t => some t

theorem Pc.running_eq_some {T : Type} {pc : Pc T} {t : T} :
    pc.running = some t ↔ pc = .callback t := by
  cases pc <;> simp [Pc.running]

/-- How many ticks pass before `COUNT` is read, before it is read again in
`set_alarm`, and from there to the write of `ALARM`. -/
structure Delays where
  toCount : ℕ := 0
  toAlarm : ℕ := 0
  toWrite : Fin 40 := 0

/-- The state of the system. The time is counted from the start of the counter,
which shows it modulo its period. -/
structure System (T : Type) where
  timers : Timers T
  alarm : UInt32
  written : ℕ
  now : ℕ
  pending : Bool
  pc : Pc T
  halted : Bool

/-- The operations. -/
inductive Op (T : Type) where
  | pass (ticks : ℕ)
  | setfn (t : T)
  | arm (t : T) (value : UInt32) (repeatFlag valueInMs : Bool) (delays : Delays)
  | disarm (t : T)
  | process (delays : Delays)
  | callbackReturn (relinking delays : Delays)

/-- The timer an operation is called for. -/
def Op.subject {T : Type} : Op T → Option T
  | .setfn t => some t
  | .arm t _ _ _ _ => some t
  | .disarm t => some t
  | _ => none

namespace System

variable {T : Type}

/-- After `sdk_ets_timer_init`, with every timer set up by `sdk_ets_timer_setfn`. -/
def start (now : ℕ) : System T where
  timers := { timerList := .listEnd, timer := fun _ => {} }
  alarm := 0
  written := now
  now := now
  pending := false
  pc := .idle
  halted := false

/-- The value of `COUNT`. -/
def count (s : System T) : UInt32 := UInt32.ofNat s.now

/-- Time passes, and the interrupt is raised when the counter meets the alarm. -/
def advance (s : System T) (ticks : ℕ) : System T :=
  { s with
    now := s.now + ticks
    pending := s.pending || decide (∃ i < ticks, UInt32.ofNat (s.now + i + 1) = s.alarm) }

/-- The value `set_alarm` writes when it read `curr_time`. -/
def alarmValue (currTime ticks : UInt32) : UInt32 :=
  let delta := ticks.toInt32 - currTime.toInt32
  if delta - 40 < 1 then
    if delta < 1 then currTime + 40 else ticks + 44
  else ticks

/-- `set_alarm`. -/
def setAlarm (s : System T) (ticks : UInt32) (delays : Delays) : System T :=
  let s := s.advance delays.toAlarm
  let value := alarmValue s.count ticks
  let s := s.advance delays.toWrite
  { s with alarm := value, written := s.now }

/-- Continue after `add_pending_timer`: set the alarm if it asked for it. The
system stands still if it did not return. -/
def added (s : System T) (result : Option (Timers T × Option UInt32)) (delays : Delays) :
    System T :=
  match result with
  | none => { s with halted := true }
  | some (timers, none) => { s with timers }
  | some (timers, some ticks) => { s with timers }.setAlarm ticks delays

/-- The timer task leaves `xTaskNotifyWait`. -/
def wake (s : System T) : System T := { s with pending := false }

variable [DecidableEq T]

/-- `sdk_ets_timer_setfn`. -/
def setfn (s : System T) (t : T) : System T := { s with timers := s.timers.setfn t }

variable [Fintype T]

/-- `sdk_ets_timer_arm_ms_us`. -/
def arm (s : System T) (t : T) (value : UInt32) (repeatFlag valueInMs : Bool)
    (delays : Delays) : System T :=
  if (s.timers.timer t).next ≠ .unlinked then { s with halted := true }
  else
    let ticks := Timers.armTicks value valueInMs
    let s := { s with timers := s.timers.writePeriod t ticks repeatFlag }
    let s := s.advance delays.toCount
    s.added (s.timers.addPendingTimer (s.count + ticks) t) delays

/-- `sdk_ets_timer_disarm`. -/
def disarm (s : System T) (t : T) : System T :=
  match s.timers.disarm t with
  | none => { s with halted := true }
  | some timers => { s with timers }

/-- `process_pending_timers` from a read of `COUNT` to the next callback, or to
its end. -/
def test (s : System T) (delays : Delays) : System T :=
  let s := s.advance delays.toCount
  match s.timers.processHead s.count with
  | none => { s with halted := true }
  | some .empty => { s with pc := .idle }
  | some (.due t timers) => { s with timers, pc := .callback t }
  | some (.later ticks) => { s.setAlarm ticks delays with pc := .idle }

/-- What `process_pending_timers` does with a timer whose callback returned. -/
def finish (s : System T) (t : T) (delays : Delays) : System T :=
  { s.added (s.timers.relink t) delays with pc := .idle }

/-- `process_pending_timers` from the return of a callback on. -/
def callbackReturn (s : System T) (t : T) (relinking delays : Delays) : System T :=
  let s := s.finish t relinking
  if s.halted then s else s.test delays

/-- What an operation does. A system that halted stays as it is. -/
def step (s : System T) (op : Op T) : System T :=
  if s.halted then s else
  match op, s.pc with
  | .pass ticks, _ => s.advance ticks
  | .setfn t, _ => s.setfn t
  | .arm t value repeatFlag valueInMs delays, _ =>
    s.arm t value repeatFlag valueInMs delays
  | .disarm t, _ => s.disarm t
  | .process delays, .idle => s.wake.test delays
  | .callbackReturn relinking delays, .callback t => s.callbackReturn t relinking delays
  | _, _ => s

/-- The timer whose callback the operation invokes. -/
def invoked (s : System T) (op : Op T) : Option T :=
  if s.halted then none else
  match op, s.pc with
  | .process _, .idle => (s.step op).pc.running
  | .callbackReturn _ _, .callback _ => (s.step op).pc.running
  | _, _ => none

/-- Only timers that are not armed are set up again. -/
def SetsUpUnarmed (s : System T) (op : Op T) : Prop :=
  ∀ t, op = .setfn t → (s.timers.timer t).next = .unlinked

/-! ## What an operation leaves -/

/-- What an operation does: the callback it invokes and the system it leaves. -/
inductive Leaves (s : System T) : Op T → Option T → System T → Prop where
  | stay (op : Op T) : Leaves s op none s
  | pass (ticks : ℕ) : Leaves s (.pass ticks) none (s.advance ticks)
  | setfn (t : T) : Leaves s (.setfn t) none (s.setfn t)
  | arm (t : T) (value : UInt32) (repeatFlag valueInMs : Bool) (delays : Delays) :
      Leaves s (.arm t value repeatFlag valueInMs delays) none
        (s.arm t value repeatFlag valueInMs delays)
  | disarm (t : T) : Leaves s (.disarm t) none (s.disarm t)
  | process (delays : Delays) (waiting : s.pc = .idle) :
      Leaves s (.process delays) (s.wake.test delays).pc.running (s.wake.test delays)
  | callbackReturn (t : T) (relinking delays : Delays) (running : ¬ s.halted)
      (returns : s.pc = .callback t) :
      Leaves s (.callbackReturn relinking delays)
        (s.callbackReturn t relinking delays).pc.running (s.callbackReturn t relinking delays)

theorem leaves_step (s : System T) (op : Op T) : s.Leaves op (s.invoked op) (s.step op) := by
  unfold invoked step
  split
  case isTrue => exact .stay op
  case isFalse hrunning =>
    cases hpc : s.pc <;> cases op
    all_goals first
      | exact .stay _
      | constructor <;> assumption

section

variable {s : System T}

theorem step_of_halted (halted : s.halted) (op : Op T) : s.step op = s := by
  unfold step
  exact if_pos halted

theorem invoked_of_halted (halted : s.halted) (op : Op T) : s.invoked op = none := by
  unfold invoked
  exact if_pos halted

variable (running : ¬ s.halted)
include running

/-- A call of a function of the module by a running system. -/
theorem step_arm (t : T) (value : UInt32) (repeatFlag valueInMs : Bool)
    (delays : Delays) : s.step (.arm t value repeatFlag valueInMs delays) =
      s.arm t value repeatFlag valueInMs delays := by
  unfold step
  exact if_neg running

theorem step_process (waiting : s.pc = .idle) (delays : Delays) :
    s.step (.process delays) = s.wake.test delays := by
  unfold step
  rw [if_neg running, waiting]

theorem invoked_process (waiting : s.pc = .idle) (delays : Delays) :
    s.invoked (.process delays) = (s.wake.test delays).pc.running := by
  unfold invoked
  rw [if_neg running, waiting, ← step_process running waiting]

end

section Fields

variable (s : System T) (ticks : ℕ)

omit [DecidableEq T] [Fintype T]

@[simp] theorem advance_timers : (s.advance ticks).timers = s.timers := rfl
@[simp] theorem advance_written : (s.advance ticks).written = s.written := rfl
@[simp] theorem advance_now : (s.advance ticks).now = s.now + ticks := rfl
@[simp] theorem advance_count : (s.advance ticks).count = UInt32.ofNat (s.now + ticks) := rfl

variable (value : UInt32) (delays : Delays)

@[simp] theorem setAlarm_timers : (s.setAlarm value delays).timers = s.timers := rfl

variable (timers : Timers T) (alarm : Option UInt32)

@[simp]
theorem added_timers : (s.added (some (timers, alarm)) delays).timers = timers := by
  cases alarm <;> rfl

@[simp]
theorem added_pc : (s.added (some (timers, alarm)) delays).pc = s.pc := by
  cases alarm <;> rfl

theorem added_halted : (s.added (some (timers, alarm)) delays).halted = s.halted := by
  cases alarm <;> rfl

theorem now_le_added (result : Option (Timers T × Option UInt32)) :
    s.now ≤ (s.added result delays).now := by
  rcases result with _ | ⟨timers, _ | ticks⟩
  · exact le_rfl
  · exact le_rfl
  · show s.now ≤ s.now + delays.toAlarm + delays.toWrite
    omega

end Fields

/-- `add_pending_timer` returned: the timer is in its place among those of `base`,
and the alarm is set if that is the first one. -/
def Inserts (s : System T) (base : Timers T) (ticks : UInt32) (t : T) (L : List T)
    (delays : Delays) (s' : System T) : Prop :=
  ∃ timers, base.Added ticks t L timers ∧ s' = s.added (some (timers,
    if L.takeWhile (!base.firesLater ticks ·) = [] then some ticks else none)) delays

variable {s : System T} {L : List T} {t : T}

section Inserts

omit [Fintype T]

variable {base : Timers T} {ticks : UInt32} {delays : Delays} {s' : System T}
  (h : s.Inserts base ticks t L delays s')
include h

theorem Inserts.timers : base.Added ticks t L s'.timers := by
  obtain ⟨timers, hadded, rfl⟩ := h
  rwa [added_timers]

theorem Inserts.halted_eq : s'.halted = s.halted := by
  obtain ⟨timers, hadded, rfl⟩ := h
  exact added_halted s delays timers _

theorem Inserts.pc_eq : s'.pc = s.pc := by
  obtain ⟨timers, hadded, rfl⟩ := h
  exact added_pc s delays timers _

end Inserts

section

variable (h : s.timers.Holds L)
include h

/-- Arming an armed timer halts the system. -/
theorem arm_of_mem (ht : t ∈ L) (value : UInt32) (repeatFlag valueInMs : Bool) (delays : Delays) :
    s.arm t value repeatFlag valueInMs delays = { s with halted := true } :=
  if_pos (h.mem_iff.mp ht)

/-- Arming a timer puts it in its place in the list. -/
theorem arm_of_not_mem (ht : t ∉ L) (value : UInt32) (repeatFlag valueInMs : Bool)
    (delays : Delays) : (s.advance delays.toCount).Inserts
      (s.timers.writePeriod t (Timers.armTicks value valueInMs) repeatFlag)
      (UInt32.ofNat (s.now + delays.toCount) + Timers.armTicks value valueInMs) t L delays
      (s.arm t value repeatFlag valueInMs delays) := by
  have hnext : ¬ (s.timers.timer t).next ≠ .unlinked := fun hne => ht (h.mem_iff.mpr hne)
  obtain ⟨timers, hadded, heq⟩ := (h.writePeriod t (Timers.armTicks value valueInMs)
    repeatFlag).addPendingTimer_eq ht
      (UInt32.ofNat (s.now + delays.toCount) + Timers.armTicks value valueInMs)
  refine ⟨timers, hadded, ?_⟩
  rw [arm, if_neg hnext]
  show ({ s with timers := s.timers.writePeriod t _ repeatFlag }.advance delays.toCount).added
    ((s.timers.writePeriod t _ repeatFlag).addPendingTimer
      (UInt32.ofNat (s.now + delays.toCount) + Timers.armTicks value valueInMs) t) delays = _
  rw [heq]
  split <;> rfl

/-- A timer that was armed again, or has no period, stays as it is after its
callback. -/
theorem finish_of_kept (hkept : t ∈ L ∨ (s.timers.timer t).periodTicks = 0) (delays : Delays) :
    s.finish t delays = { s with pc := .idle } := by
  have hcond : ¬ ((s.timers.timer t).next = .unlinked ∧
      (s.timers.timer t).periodTicks ≠ 0) := fun ⟨hnext, hperiod⟩ =>
    hkept.elim (fun ht => h.mem_iff.mp ht hnext) hperiod
  rw [finish, Timers.relink, if_neg hcond]
  rfl

/-- A timer with a period that was not armed again is put back into the list. -/
theorem finish_of_relinked (ht : t ∉ L) (hperiod : (s.timers.timer t).periodTicks ≠ 0)
    (delays : Delays) : { s with pc := .idle }.Inserts s.timers
      ((s.timers.timer t).fireTicks + (s.timers.timer t).periodTicks) t L delays
      (s.finish t delays) := by
  have hnext : (s.timers.timer t).next = .unlinked :=
    not_not.mp fun hne => ht (h.mem_iff.mpr hne)
  obtain ⟨timers, hadded, heq⟩ := h.addPendingTimer_eq ht
    ((s.timers.timer t).fireTicks + (s.timers.timer t).periodTicks)
  refine ⟨timers, hadded, ?_⟩
  rw [finish, Timers.relink, if_pos ⟨hnext, hperiod⟩, heq]
  split <;> rfl

/-- The system does not halt between the return of a callback and the next test. -/
theorem callbackReturn_eq (running : ¬ s.halted) (t : T) (relinking delays : Delays) :
    s.callbackReturn t relinking delays = (s.finish t relinking).test delays := by
  have hhalted : (s.finish t relinking).halted = s.halted := by
    by_cases hkept : t ∈ L ∨ (s.timers.timer t).periodTicks = 0
    · rw [finish_of_kept h hkept]
    · obtain ⟨ht, hperiod⟩ := not_or.mp hkept
      exact (finish_of_relinked h ht hperiod relinking).halted_eq
  rw [callbackReturn]
  exact if_neg (hhalted ▸ running)

/-- Disarming takes the timer out of the list. -/
theorem disarm_eq (t : T) :
    ∃ timers, s.timers.Disarmed t L timers ∧ s.disarm t = { s with timers } := by
  obtain ⟨timers, hdisarmed, heq⟩ := h.disarm_eq t
  exact ⟨timers, hdisarmed, by rw [disarm, heq]⟩

omit [Fintype T] in
/-- The test of the loop finds the list empty, or invokes the callback of the
first timer, or sets the alarm to it. -/
theorem test_cases (delays : Delays) :
    (L = [] ∧ s.test delays = { s.advance delays.toCount with pc := .idle }) ∨
    (∃ t rest timers, L = t :: rest ∧
      (s.timers.timer t).fireTicks.toInt32 -
        (UInt32.ofNat (s.now + delays.toCount)).toInt32 < 1 ∧
      timers.Holds rest ∧
      (∀ x, (timers.timer x).fireTicks = (s.timers.timer x).fireTicks) ∧
      (∀ x, (timers.timer x).periodTicks = (s.timers.timer x).periodTicks) ∧
      s.test delays = { s.advance delays.toCount with timers, pc := .callback t }) ∨
    ∃ t rest, L = t :: rest ∧
      ¬ (s.timers.timer t).fireTicks.toInt32 -
        (UInt32.ofNat (s.now + delays.toCount)).toInt32 < 1 ∧
      s.test delays =
        { (s.advance delays.toCount).setAlarm (s.timers.timer t).fireTicks delays with
          pc := .idle } := by
  obtain ⟨hL, heq⟩ | ⟨t, rest, timers, hL, hdue, heq, hholds, hfire, hperiod⟩ |
    ⟨t, rest, hL, hlater, heq⟩ := h.processHead_eq (s.advance delays.toCount).count
  · exact .inl ⟨hL, by rw [test]; simp only [advance_timers, heq]⟩
  · exact .inr (.inl ⟨t, rest, timers, hL, hdue, hholds, hfire, hperiod,
      by rw [test]; simp only [advance_timers, heq]⟩)
  · exact .inr (.inr ⟨t, rest, hL, hlater, by rw [test]; simp only [advance_timers, heq]⟩)

end

omit [Fintype T] in
/-- The callback of the first timer is invoked when it is due. -/
theorem test_of_due {rest : List T} (h : s.timers.Holds (t :: rest)) {delays : Delays}
    (due : (s.timers.timer t).fireTicks.toInt32 -
      (UInt32.ofNat (s.now + delays.toCount)).toInt32 < 1) :
    (s.test delays).pc = .callback t ∧ (s.test delays).now = s.now + delays.toCount := by
  obtain ⟨hL, -⟩ | ⟨u, _, timers, hL, -, -, -, -, heq⟩ | ⟨u, _, hL, hlater, -⟩ :=
    test_cases h delays
  · exact absurd hL (List.cons_ne_nil t rest)
  · rw [heq, (List.cons.inj hL).1]
    exact ⟨rfl, rfl⟩
  · exact absurd ((List.cons.inj hL).1 ▸ due) hlater

/-! ## The list along all operations -/

theorem finish_holds (h : s.timers.Holds L) (t : T) (delays : Delays) :
    ∃ L', (s.finish t delays).timers.Holds L' := by
  by_cases hkept : t ∈ L ∨ (s.timers.timer t).periodTicks = 0
  · exact ⟨L, by rwa [finish_of_kept h hkept]⟩
  · obtain ⟨ht, hperiod⟩ := not_or.mp hkept
    exact ⟨_, (finish_of_relinked h ht hperiod delays).timers.holds⟩

omit [Fintype T] in
theorem test_holds (h : s.timers.Holds L) (delays : Delays) :
    ∃ L', (s.test delays).timers.Holds L' := by
  obtain ⟨-, heq⟩ | ⟨t, rest, timers, -, -, hrest, -, -, heq⟩ | ⟨t, rest, -, -, heq⟩ :=
    test_cases h delays
  · exact ⟨L, by rwa [heq]⟩
  · exact ⟨rest, by rwa [heq]⟩
  · exact ⟨L, by rwa [heq]⟩

/-- The pointers form a list after every operation. -/
theorem step_holds {op : Op T} (h : s.timers.Holds L) (setsUp : s.SetsUpUnarmed op) :
    ∃ L', (s.step op).timers.Holds L' := by
  have hleaves := s.leaves_step op
  generalize s.invoked op = invoked, s.step op = s' at hleaves
  cases hleaves with
  | stay => exact ⟨L, h⟩
  | pass ticks => exact ⟨L, h⟩
  | setfn t => exact ⟨L, h.setfn fun hmem => h.mem_iff.mp hmem (setsUp t rfl)⟩
  | arm t value repeatFlag valueInMs delays =>
    by_cases ht : t ∈ L
    · exact ⟨L, by rwa [arm_of_mem h ht]⟩
    · exact ⟨_, (arm_of_not_mem h ht value repeatFlag valueInMs delays).timers.holds⟩
  | disarm t =>
    obtain ⟨timers, hdisarmed, heq⟩ := disarm_eq h t
    rw [heq]
    exact ⟨_, hdisarmed.holds⟩
  | process delays waiting => exact test_holds (s := s.wake) h delays
  | callbackReturn t relinking delays running returns =>
    obtain ⟨L₁, hfinish⟩ := finish_holds h t relinking
    rw [callbackReturn_eq h running]
    exact test_holds hfinish delays

omit [DecidableEq T] [Fintype T] in
theorem start_holds [DecidableEq T] (now : ℕ) : (start now : System T).timers.Holds [] :=
  ⟨List.nodup_nil, rfl, fun _ => rfl⟩

/-! ## The time along all operations -/

theorem now_le_finish (s : System T) (t : T) (delays : Delays) :
    s.now ≤ (s.finish t delays).now := now_le_added s delays _

omit [Fintype T] in
theorem now_le_test (s : System T) (delays : Delays) : s.now ≤ (s.test delays).now := by
  rw [test]
  split
  · exact Nat.le_add_right _ _
  · exact Nat.le_add_right _ _
  · exact Nat.le_add_right _ _
  · show s.now ≤ s.now + delays.toCount + delays.toAlarm + delays.toWrite
    omega

/-- Time does not go back. -/
theorem now_le_step (s : System T) (op : Op T) : s.now ≤ (s.step op).now := by
  have hleaves := s.leaves_step op
  generalize s.invoked op = invoked, s.step op = s' at hleaves
  cases hleaves with
  | stay => exact le_rfl
  | pass ticks => exact Nat.le_add_right _ _
  | setfn t => exact le_rfl
  | arm t value repeatFlag valueInMs delays =>
    rw [arm]
    split
    · exact le_rfl
    · refine (Nat.le_add_right s.now delays.toCount).trans ?_
      let timers := s.timers.writePeriod t (Timers.armTicks value valueInMs) repeatFlag
      exact now_le_added ({ s with timers }.advance delays.toCount) delays _
  | disarm t =>
    rw [disarm]
    split <;> exact le_rfl
  | process delays waiting => exact now_le_test s.wake delays
  | callbackReturn t relinking delays running returns =>
    rw [callbackReturn]
    split
    · exact s.now_le_finish t relinking
    · exact (s.now_le_finish t relinking).trans (now_le_test _ delays)

/-! ## One timer along the operations on the others -/

/-- What the operations on other timers leave of one timer: its fields, and its
place in the list until its callback is invoked because it is due. -/
structure Keeps (s : System T) (L : List T) (t : T) (invoked : Prop) (s' : System T)
    (L' : List T) : Prop where
  holds : s'.timers.Holds L'
  fireTicks : (s'.timers.timer t).fireTicks = (s.timers.timer t).fireTicks
  periodTicks : (s'.timers.timer t).periodTicks = (s.timers.timer t).periodTicks
  now_le : s.now ≤ s'.now
  mem_of_not_invoked : ¬ invoked → (t ∈ L' ↔ t ∈ L)
  of_invoked : invoked → t ∈ L ∧ t ∉ L' ∧
    (s.timers.timer t).fireTicks.toInt32 - (UInt32.ofNat s'.now).toInt32 < 1

omit [Fintype T] in
/-- The timers and the time stay as they are. -/
theorem Keeps.of_eq {s' : System T} (h : s.timers.Holds L) (htimers : s'.timers = s.timers)
    (hnow : s'.now = s.now) : s.Keeps L t False s' L :=
  ⟨htimers ▸ h, by rw [htimers], by rw [htimers], hnow.ge, fun _ => Iff.rfl, False.elim⟩

omit [Fintype T] in
/-- Operations that do not invoke the callback of the timer come first. -/
theorem Keeps.trans {s₁ s₂ : System T} {L₁ L₂ : List T} {invoked : Prop}
    (before : s.Keeps L t False s₁ L₁) (after : s₁.Keeps L₁ t invoked s₂ L₂) :
    s.Keeps L t invoked s₂ L₂ where
  holds := after.holds
  fireTicks := after.fireTicks.trans before.fireTicks
  periodTicks := after.periodTicks.trans before.periodTicks
  now_le := before.now_le.trans after.now_le
  mem_of_not_invoked hinv :=
    (after.mem_of_not_invoked hinv).trans (before.mem_of_not_invoked not_false)
  of_invoked hinv := by
    obtain ⟨hmem, hnot, hdue⟩ := after.of_invoked hinv
    exact ⟨(before.mem_of_not_invoked not_false).mp hmem, hnot, before.fireTicks ▸ hdue⟩

omit [Fintype T] in
/-- An operation that adds another timer. -/
theorem Inserts.keeps {u : T} {base : Timers T} {ticks : UInt32} {delays : Delays}
    {s' : System T} (h : s.Inserts base ticks u L delays s') (htu : t ≠ u)
    (hfire : (base.timer t).fireTicks = (s.timers.timer t).fireTicks)
    (hperiod : (base.timer t).periodTicks = (s.timers.timer t).periodTicks) :
    s.Keeps L t False s' (base.inserted ticks u L) where
  holds := h.timers.holds
  fireTicks := (h.timers.fireTicks_of_ne t htu).trans hfire
  periodTicks := (h.timers.periodTicks t).trans hperiod
  now_le := by
    obtain ⟨timers, -, rfl⟩ := h
    exact now_le_added s delays _
  mem_of_not_invoked _ := by
    rw [Timers.mem_inserted, or_iff_right htu]
  of_invoked := False.elim

omit [Fintype T] in
/-- The test of the loop. -/
theorem test_keeps (h : s.timers.Holds L) (t : T) (delays : Delays) :
    ∃ L', s.Keeps L t ((s.test delays).pc = .callback t) (s.test delays) L' := by
  obtain ⟨hL, heq⟩ | ⟨u, rest, timers, rfl, hdue, hrest, hfire, hperiod, heq⟩ |
    ⟨u, rest, hL, -, heq⟩ := test_cases h delays
  · refine ⟨L, ?_⟩
    rw [heq]
    exact ⟨h, rfl, rfl, Nat.le_add_right _ _, fun _ => Iff.rfl, fun hpc => nomatch hpc⟩
  · refine ⟨rest, ?_⟩
    rw [heq]
    refine ⟨hrest, hfire t, hperiod t, Nat.le_add_right _ _, fun hpc => ?_, fun hpc => ?_⟩
    · have htu : t ≠ u := fun htu => hpc (by rw [htu])
      rw [List.mem_cons, or_iff_right htu]
    · obtain rfl : u = t := Pc.callback.inj hpc
      exact ⟨List.mem_cons_self, (List.nodup_cons.mp h.nodup).1, hdue⟩
  · refine ⟨L, ?_⟩
    rw [heq]
    refine ⟨h, rfl, rfl, ?_, fun _ => Iff.rfl, fun hpc => nomatch hpc⟩
    show s.now ≤ s.now + delays.toCount + delays.toAlarm + delays.toWrite
    omega

/-- What happens to a timer after a callback, when it is armed or has no period. -/
theorem finish_keeps (h : s.timers.Holds L)
    (hkept : t ∈ L ∨ (s.timers.timer t).periodTicks = 0) (u : T) (delays : Delays) :
    ∃ L', s.Keeps L t False (s.finish u delays) L' := by
  by_cases hu : u ∈ L ∨ (s.timers.timer u).periodTicks = 0
  · exact ⟨L, .of_eq h (by rw [finish_of_kept h hu]) (by rw [finish_of_kept h hu])⟩
  · have htu : t ≠ u := fun htu => hu (htu ▸ hkept)
    obtain ⟨hmem, hperiod⟩ := not_or.mp hu
    have hidle : s.Keeps L t False { s with pc := .idle } L := .of_eq h rfl rfl
    exact ⟨_, hidle.trans ((finish_of_relinked h hmem hperiod delays).keeps htu rfl rfl)⟩

/-- A step that is no call for the timer, which is armed or has no period. -/
theorem step_keeps {op : Op T} (h : s.timers.Holds L) (setsUp : s.SetsUpUnarmed op)
    (other : op.subject ≠ some t)
    (hkept : t ∈ L ∨ (s.timers.timer t).periodTicks = 0) :
    ∃ L', s.Keeps L t (s.invoked op = some t) (s.step op) L' := by
  have hleaves := s.leaves_step op
  generalize s.invoked op = invoked, s.step op = s' at hleaves
  have hnone : (none = some t) = False := by simp
  cases hleaves with
  | stay => exact ⟨L, hnone ▸ .of_eq h rfl rfl⟩
  | pass ticks =>
    exact ⟨L, h, rfl, rfl, Nat.le_add_right _ _, fun _ => Iff.rfl, fun hinv => nomatch hinv⟩
  | setfn u =>
    have htu : t ≠ u := fun htu => other (congrArg some htu.symm)
    have hu : u ∉ L := fun hmem => h.mem_iff.mp hmem (setsUp u rfl)
    have hself : (s.timers.setfn u).timer t = s.timers.timer t := by
      rw [Timers.setfn, Timers.update_timer, if_neg htu]
    exact ⟨L, h.setfn hu, by rw [setfn, hself], by rw [setfn, hself], le_rfl,
      fun _ => Iff.rfl, fun hinv => nomatch hinv⟩
  | arm u value repeatFlag valueInMs delays =>
    have htu : t ≠ u := fun htu => other (congrArg some htu.symm)
    by_cases hu : u ∈ L
    · rw [arm_of_mem h hu]
      exact ⟨L, hnone ▸ .of_eq h rfl rfl⟩
    · have hself : (s.timers.writePeriod u (Timers.armTicks value valueInMs)
          repeatFlag).timer t = s.timers.timer t := by
        cases repeatFlag with
        | false => rfl
        | true => rw [Timers.writePeriod, if_pos rfl, Timers.update_timer, if_neg htu]
      have hkeeps := (arm_of_not_mem h hu value repeatFlag valueInMs delays).keeps htu
        (congrArg Timer.fireTicks hself) (congrArg Timer.periodTicks hself)
      have hpass : s.Keeps L t False (s.advance delays.toCount) L :=
        ⟨h, rfl, rfl, Nat.le_add_right _ _, fun _ => Iff.rfl, False.elim⟩
      exact ⟨_, hnone ▸ hpass.trans hkeeps⟩
  | disarm u =>
    have htu : t ≠ u := fun htu => other (congrArg some htu.symm)
    obtain ⟨timers, hdisarmed, heq⟩ := disarm_eq h u
    rw [heq]
    refine ⟨L.erase u, hdisarmed.holds, hdisarmed.fireTicks t, ?_, le_rfl, fun _ => ?_,
      fun hinv => nomatch hinv⟩
    · rw [hdisarmed.periodTicks t, if_neg htu]
    · rw [List.mem_erase_of_ne htu]
  | process delays waiting =>
    have hwake : s.Keeps L t False s.wake L := .of_eq h rfl rfl
    obtain ⟨L', hkeeps⟩ := test_keeps hwake.holds t delays
    rw [Pc.running_eq_some]
    exact ⟨L', hwake.trans hkeeps⟩
  | callbackReturn u relinking delays running returns =>
    obtain ⟨L₁, hfinish⟩ := finish_keeps h hkept u relinking
    obtain ⟨L₂, htest⟩ := test_keeps hfinish.holds t delays
    rw [callbackReturn_eq h running, Pc.running_eq_some]
    exact ⟨L₂, hfinish.trans htest⟩

end System

end EspOpenRtos.EtsTimer
