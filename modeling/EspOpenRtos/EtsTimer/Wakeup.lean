/-
# No wakeup is lost

The alarm is written when a timer becomes the first of the list and when the
timer task stops processing, and taking a timer out of the list leaves it as it
is. This module shows that this is enough: as long as all timers in the list fire
within `2 ^ 30` ticks of the present, the list is sorted, and while it is not
empty and the timer task waits, either its wakeup is pending or the counter will
meet the alarm, at most 44 ticks after the later of the moment the first timer
fires and the moment the alarm was written.
-/

import EspOpenRtos.EtsTimer.OneShot
import EspOpenRtos.Math.SignedDifference

namespace EspOpenRtos.EtsTimer

open Math.LinkedList Math.Runs Math.SignedDifference

/-- A point on the counter is within `2 ^ 30` ticks of the present. -/
def NearTo (now : ℕ) (ticks : UInt32) : Prop :=
  -2 ^ 30 < diff ticks (UInt32.ofNat now) ∧ diff ticks (UInt32.ofNat now) ≤ 2 ^ 30

instance (now : ℕ) (ticks : UInt32) : Decidable (NearTo now ticks) :=
  inferInstanceAs (Decidable (_ ∧ _))

namespace Timers

variable {T : Type}

/-- The list is sorted by the wrap-around difference of `fire_ticks`. -/
def Sorted (s : Timers T) (L : List T) : Prop :=
  L.Pairwise fun a b => diff (s.timer a).fireTicks (s.timer b).fireTicks ≤ 0

variable {s s' : Timers T} {L : List T} {t : T} {now : ℕ} {ticks : UInt32}

theorem Sorted.congr (h : s.Sorted L)
    (hfire : ∀ x ∈ L, (s'.timer x).fireTicks = (s.timer x).fireTicks) : s'.Sorted L := by
  refine List.Pairwise.imp_of_mem ?_ h
  intro a b ha hb hle
  rwa [hfire a ha, hfire b hb]

/-- Points near the present are compared like their distances from it. -/
theorem diff_near {a b : UInt32} (ha : NearTo now a) (hb : NearTo now b) :
    diff a b = diff a (UInt32.ofNat now) - diff b (UInt32.ofNat now) := by
  obtain ⟨ha₁, ha₂⟩ := ha
  obtain ⟨hb₁, hb₂⟩ := hb
  exact diff_sub (by omega) (by omega)

theorem firesLater_iff : s.firesLater ticks t = true ↔ diff ticks (s.timer t).fireTicks < 1 := by
  rw [firesLater, decide_eq_true_iff, sub_lt_one_iff]

/-- The first timer of the part that is not passed fires later, and so do the
timers after it. -/
theorem Sorted.later (sorted : s.Sorted L) (nearTicks : NearTo now ticks)
    (near : ∀ x ∈ L, NearTo now (s.timer x).fireTicks) {x : T}
    (hx : x ∈ L.dropWhile (!s.firesLater ticks ·)) :
    diff ticks (s.timer x).fireTicks ≤ 0 := by
  have hsub : (L.dropWhile (!s.firesLater ticks ·)).Sublist L := List.dropWhile_sublist _
  cases hdrop : L.dropWhile (!s.firesLater ticks ·) with
  | nil => simp [hdrop] at hx
  | cons b rest =>
    have hb : diff ticks (s.timer b).fireTicks < 1 := by
      have hne : L.dropWhile (!s.firesLater ticks ·) ≠ [] := hdrop ▸ List.cons_ne_nil b rest
      have hhead := List.head_dropWhile_not (!s.firesLater ticks ·) hne
      simp only [hdrop, List.head_cons, Bool.not_eq_false'] at hhead
      exact firesLater_iff.mp hhead
    rw [hdrop] at hx hsub
    rcases List.mem_cons.mp hx with rfl | hrest
    · omega
    · have hbx := List.rel_of_pairwise_cons (sorted.sublist hsub) hrest
      have hnear := near b (hsub.subset List.mem_cons_self)
      have hnear' := near x (hsub.subset hx)
      rw [diff_near nearTicks hnear] at hb
      rw [diff_near hnear hnear'] at hbx
      rw [diff_near nearTicks hnear']
      omega

/-- The timers that are passed fire earlier. -/
theorem earlier_of_passed (nearTicks : NearTo now ticks)
    (near : ∀ x ∈ L, NearTo now (s.timer x).fireTicks) {x : T}
    (hx : x ∈ L.takeWhile (!s.firesLater ticks ·)) :
    diff (s.timer x).fireTicks ticks ≤ 0 := by
  have hnear := near x ((List.takeWhile_sublist _).subset hx)
  have hpassed : ¬ diff ticks (s.timer x).fireTicks < 1 := fun hlater => by
    simpa [firesLater_iff.mpr hlater] using List.mem_takeWhile_imp hx
  rw [diff_near nearTicks hnear] at hpassed
  rw [diff_near hnear nearTicks]
  omega

variable [DecidableEq T]

/-- A timer is inserted where the list stays sorted. -/
theorem Added.sorted (h : s.Added ticks t L s') (ht : t ∉ L) (sorted : s.Sorted L)
    (near : ∀ x ∈ s.inserted ticks t L, NearTo now (s'.timer x).fireTicks) :
    s'.Sorted (s.inserted ticks t L) := by
  have hfire : ∀ x ∈ L, (s'.timer x).fireTicks = (s.timer x).fireTicks := fun x hx =>
    h.fireTicks_of_ne x fun hxt => ht (hxt ▸ hx)
  have nearTicks : NearTo now ticks := h.fireTicks_self ▸ near t (mem_inserted.mpr (.inl rfl))
  have nearList : ∀ x ∈ L, NearTo now (s.timer x).fireTicks := fun x hx =>
    hfire x hx ▸ near x (mem_inserted.mpr (.inr hx))
  have hsplit : s'.Sorted (L.takeWhile (!s.firesLater ticks ·) ++
      L.dropWhile (!s.firesLater ticks ·)) := by
    rw [List.takeWhile_append_dropWhile]
    exact sorted.congr hfire
  obtain ⟨hpassed, hrest, hacross⟩ := List.pairwise_append.mp hsplit
  refine List.pairwise_append.mpr ⟨hpassed, List.pairwise_cons.mpr ⟨fun x hx => ?_, hrest⟩, ?_⟩
  · rw [h.fireTicks_self, hfire x ((List.dropWhile_sublist _).subset hx)]
    exact sorted.later nearTicks nearList hx
  · intro x hx y hy
    rcases List.mem_cons.mp hy with rfl | hy
    · rw [h.fireTicks_self, hfire x ((List.takeWhile_sublist _).subset hx)]
      exact earlier_of_passed nearTicks nearList hx
    · exact hacross x hx y hy

end Timers

/-! ## The alarm -/

namespace System

variable {T : Type}

/-- The counter will meet the alarm, at most 44 ticks after the later of the moment
`ticks` is reached and the moment the alarm was written. -/
def AlarmAhead (s : System T) (ticks : UInt32) : Prop :=
  ∃ time : ℕ, UInt32.ofNat time = s.alarm ∧ s.now < time ∧
    (time : ℤ) ≤ max (s.now + diff ticks (UInt32.ofNat s.now)) s.written + 44

variable {s : System T} {ticks : UInt32}

/-- While time passes the alarm stays ahead, until the interrupt is raised. -/
theorem AlarmAhead.advance (h : s.AlarmAhead ticks) (written : s.written ≤ s.now)
    (near : NearTo s.now ticks) {k : ℕ} (near' : NearTo (s.now + k) ticks) :
    (s.advance k).pending ∨ (s.advance k).AlarmAhead ticks := by
  obtain ⟨time, halarm, hahead, hbound⟩ := h
  by_cases hmeets : time ≤ s.now + k
  · -- The counter meets the alarm on the way.
    left
    have hmet : ∃ i < k, UInt32.ofNat (s.now + i + 1) = s.alarm :=
      ⟨time - s.now - 1, by omega, halarm ▸ congrArg UInt32.ofNat (by omega)⟩
    rw [System.advance, Bool.or_eq_true, decide_eq_true_iff]
    exact .inr hmet
  · right
    obtain ⟨periods, hdiff⟩ := diff_ofNat_add ticks s.now k
    have hlater : diff ticks (UInt32.ofNat (s.now + k)) =
        diff ticks (UInt32.ofNat s.now) - k := by
      obtain ⟨hlower, hupper⟩ := near
      obtain ⟨hlower', hupper'⟩ := near'
      omega
    refine ⟨time, halarm, Nat.lt_of_not_le hmeets, ?_⟩
    rw [advance_now, advance_written, hlater]
    push_cast
    omega

/-- The value `set_alarm` writes, in terms of the distance of `ticks`. -/
theorem alarmValue_eq {curr : UInt32} (far : -2 ^ 31 + 40 ≤ diff ticks curr) :
    alarmValue curr ticks =
      if diff ticks curr < 1 then curr + 40
      else if diff ticks curr < 41 then ticks + 44 else ticks := by
  have hnear : (ticks.toInt32 - curr.toInt32 - 40 < 1) ↔ diff ticks curr < 41 := by
    have hupper := (diff_bounds ticks curr).2
    rw [Int32.lt_iff_toInt_lt, Int32.toInt_sub,
      show (ticks.toInt32 - curr.toInt32).toInt = diff ticks curr from rfl,
      show (40 : Int32).toInt = 40 from rfl, show (1 : Int32).toInt = 1 from rfl,
      Int.bmod_eq_of_le (by omega) (by omega)]
    omega
  rw [alarmValue, if_congr hnear rfl rfl, if_congr (sub_lt_one_iff ticks curr) rfl rfl]
  split_ifs <;> first | rfl | omega

/-- The alarm `set_alarm` writes is ahead when it is written. -/
theorem setAlarm_ahead (s : System T) (delays : Delays)
    (near : NearTo (s.setAlarm ticks delays).now ticks) :
    (s.setAlarm ticks delays).AlarmAhead ticks := by
  obtain ⟨read, hread⟩ : ∃ read, read = s.now + delays.toAlarm := ⟨_, rfl⟩
  obtain ⟨write, hwrite⟩ : ∃ write, write = (delays.toWrite : ℕ) := ⟨_, rfl⟩
  have hsoon : write < 40 := hwrite ▸ delays.toWrite.isLt
  have hnow : (s.setAlarm ticks delays).now = read + write := by
    rw [hread, hwrite]
    rfl
  have hwritten : (s.setAlarm ticks delays).written = read + write := hnow
  have halarm : (s.setAlarm ticks delays).alarm = alarmValue (UInt32.ofNat read) ticks := by
    rw [hread]
    rfl
  rw [hnow] at near
  obtain ⟨hlower, hupper⟩ := near
  -- The distance at the write is that at the read, less the ticks between them.
  obtain ⟨periods, hdiff⟩ := diff_ofNat_add ticks read write
  obtain ⟨hlower', hupper'⟩ := diff_bounds ticks (UInt32.ofNat read)
  have hread' : diff ticks (UInt32.ofNat (read + write)) =
      diff ticks (UInt32.ofNat read) - write := by omega
  rw [AlarmAhead, halarm, hnow, hwritten, alarmValue_eq (by omega), hread']
  split_ifs with hpast hclose
  · refine ⟨read + 40, UInt32.ofNat_add read 40, by omega, ?_⟩
    push_cast
    omega
  · obtain ⟨delta, hdelta⟩ := Int.eq_ofNat_of_zero_le (Int.not_lt.mp hpast |>.trans' zero_le_one)
    refine ⟨read + delta + 44, ?_, by omega, ?_⟩
    · rw [UInt32.ofNat_add, ofNat_of_diff (a := ticks) (n := read) (by push_cast; omega)]
      rfl
    · push_cast
      omega
  · obtain ⟨delta, hdelta⟩ := Int.eq_ofNat_of_zero_le (Int.not_lt.mp hpast |>.trans' zero_le_one)
    refine ⟨read + delta, ofNat_of_diff (n := read) (by push_cast; omega), by omega, ?_⟩
    push_cast
    omega

/-! ## The invariant -/

variable [DecidableEq T] {L : List T}

/-- The timers in the list fire within `2 ^ 30` ticks of the present. -/
def Near (s : System T) : Prop :=
  ∀ t, (s.timers.timer t).next ≠ .unlinked → NearTo s.now (s.timers.timer t).fireTicks

instance [Fintype T] (s : System T) : Decidable s.Near :=
  inferInstanceAs (Decidable (∀ t, (s.timers.timer t).next ≠ .unlinked → NearTo s.now _))

/-- The list is in order, and the timer task will wake up while it is not empty. -/
structure Awake (s : System T) (L : List T) : Prop where
  holds : s.timers.Holds L
  sorted : s.timers.Sorted L
  written : s.written ≤ s.now
  near : s.Near
  ahead : s.pc = .idle →
    ∀ t ∈ L.head?, s.pending ∨ s.AlarmAhead (s.timers.timer t).fireTicks

theorem awake_start (now : ℕ) : (start now : System T).Awake [] where
  holds := start_holds now
  sorted := List.Pairwise.nil
  written := le_rfl
  near _ hnext := absurd rfl hnext
  ahead _ _ ht := absurd ht (Option.not_mem_none _)

theorem Awake.near_of_mem (h : s.Awake L) {t : T} (ht : t ∈ L) :
    NearTo s.now (s.timers.timer t).fireTicks :=
  h.near t (h.holds.mem_iff.mp ht)

/-- Time passes, and fields that are not looked at here change. -/
theorem Awake.advance (h : s.Awake L) {k : ℕ} (near : (s.advance k).Near) :
    (s.advance k).Awake L where
  holds := h.holds
  sorted := h.sorted
  written := h.written.trans (Nat.le_add_right _ _)
  near := near
  ahead hidle t ht := by
    have hmem : t ∈ L := List.mem_of_mem_head? ht
    rcases h.ahead hidle t ht with hpending | hahead
    · left
      rw [System.advance, hpending, Bool.true_or]
    · exact hahead.advance h.written (h.near_of_mem hmem)
        (near t (h.holds.mem_iff.mp hmem))

/-- The test of the loop leaves the timer task in a callback, or the list empty, or
an alarm for its first timer. -/
theorem test_awake (holds : s.timers.Holds L) (sorted : s.timers.Sorted L)
    (written : s.written ≤ s.now) {delays : Delays} (near : (s.test delays).Near) :
    ∃ L', (s.test delays).Awake L' := by
  have hpass : s.written ≤ s.now + delays.toCount := written.trans (Nat.le_add_right _ _)
  obtain ⟨hL, heq⟩ | ⟨t, rest, timers, hL, -, hrest, hfire, -, heq⟩ | ⟨t, rest, hL, -, heq⟩ :=
    test_cases holds delays
  · rw [heq] at near ⊢
    refine ⟨[], hL ▸ holds, List.Pairwise.nil, hpass, near, fun _ t ht => ?_⟩
    exact absurd ht (Option.not_mem_none t)
  · rw [heq] at near ⊢
    have htail : s.timers.Sorted rest := (List.pairwise_cons.mp (hL ▸ sorted)).2
    exact ⟨rest, hrest, htail.congr fun x _ => hfire x, hpass, near, fun hpc => nomatch hpc⟩
  · rw [heq] at near ⊢
    refine ⟨L, holds, sorted, le_rfl, near, fun _ u hu => .inr ?_⟩
    rw [hL] at hu
    obtain rfl : t = u := Option.some.inj hu
    have hmem : t ∈ L := hL ▸ List.mem_cons_self
    exact setAlarm_ahead (s.advance delays.toCount) delays (near t (holds.mem_iff.mp hmem))

section Inserts

variable {base : Timers T} {t : T} {delays : Delays} {s' : System T}
  (h : s.Inserts base ticks t L delays s')
include h

/-- What `add_pending_timer` leaves is in order. -/
theorem Inserts.sorted (ht : t ∉ L) (sorted : base.Sorted L)
    (near : s'.Near) : s'.timers.Sorted (base.inserted ticks t L) :=
  h.timers.sorted ht sorted fun x hx => near x (h.timers.holds.mem_iff.mp hx)

theorem Inserts.written (written : s.written ≤ s.now) : s'.written ≤ s'.now := by
  obtain ⟨timers, -, rfl⟩ := h
  split
  · exact le_rfl
  · exact written

/-- What `add_pending_timer` leaves has an alarm for its first timer, when the list
had one before. -/
theorem Inserts.ahead (near : s'.Near)
    (before : s'.now = s.now →
      ∀ x ∈ L.head?, s.pending ∨ s.AlarmAhead (s'.timers.timer x).fireTicks) :
    ∀ x ∈ (base.inserted ticks t L).head?,
      s'.pending ∨ s'.AlarmAhead (s'.timers.timer x).fireTicks := by
  intro x hx
  have hadded := h.timers
  obtain ⟨timers, -, hs'⟩ := h
  cases hpassed : L.takeWhile (!base.firesLater ticks ·) with
  | nil =>
    rw [Timers.inserted, hpassed] at hx
    obtain rfl : t = x := Option.some.inj hx
    have hmem : t ∈ base.inserted ticks t L := Timers.mem_inserted.mpr (.inl rfl)
    have hnear := near t (hadded.holds.mem_iff.mp hmem)
    rw [hadded.fireTicks_self] at hnear ⊢
    rw [if_pos hpassed] at hs'
    rw [hs'] at hnear ⊢
    exact .inr (setAlarm_ahead { s with timers } delays hnear)
  | cons a rest =>
    rw [Timers.inserted, hpassed] at hx
    have hhead : L.head? = some a := by
      rw [← List.takeWhile_append_dropWhile (p := (!base.firesLater ticks ·)) (l := L), hpassed]
      rfl
    have hne : L.takeWhile (!base.firesLater ticks ·) ≠ [] := hpassed ▸ List.cons_ne_nil a rest
    rw [if_neg hne] at hs'
    have hnow : s'.now = s.now := hs' ▸ rfl
    have hahead := before hnow x (hhead.trans hx)
    subst hs'
    exact hahead

end Inserts

/-- The conditions on a step: only timers that are not armed are set up again, and
the timers in the list fire within `2 ^ 30` ticks of the present after it, and
after a timer was put back inside it. -/
structure InReach [Fintype T] (s : System T) (op : Op T) : Prop where
  setsUp : s.SetsUpUnarmed op
  near : (s.step op).Near
  near_finish : ∀ t relinking delays, op = .callbackReturn relinking delays →
    s.pc = .callback t → (s.finish t relinking).Near

variable [Fintype T]

/-- Arming a timer keeps the timer task awake. -/
theorem arm_awake {t : T} (h : s.Awake L) (value : UInt32) (repeatFlag valueInMs : Bool)
    (delays : Delays) (near : (s.arm t value repeatFlag valueInMs delays).Near) :
    ∃ L', (s.arm t value repeatFlag valueInMs delays).Awake L' := by
  by_cases ht : t ∈ L
  · rw [arm_of_mem h.holds ht] at near ⊢
    exact ⟨L, h.holds, h.sorted, h.written, near, h.ahead⟩
  have hinserts := arm_of_not_mem h.holds ht value repeatFlag valueInMs delays
  have hfire : ∀ x ∈ L, ((s.timers.writePeriod t (Timers.armTicks value valueInMs)
      repeatFlag).timer x).fireTicks = (s.timers.timer x).fireTicks := fun x hx => by
    have hxt : x ≠ t := fun hxt => ht (hxt ▸ hx)
    cases repeatFlag with
    | false => rfl
    | true => rw [Timers.writePeriod, if_pos rfl, Timers.update_timer, if_neg hxt]
  refine ⟨_, hinserts.timers.holds, hinserts.sorted ht (h.sorted.congr hfire) near,
    hinserts.written (h.written.trans (Nat.le_add_right _ _)), near, fun hidle => ?_⟩
  refine hinserts.ahead near fun hnow x hx => ?_
  have hmem : x ∈ L := List.mem_of_mem_head? hx
  have hxt : x ≠ t := fun hxt => ht (hxt ▸ hmem)
  have hsame : ((s.arm t value repeatFlag valueInMs delays).timers.timer x).fireTicks =
      (s.timers.timer x).fireTicks :=
    (hinserts.timers.fireTicks_of_ne x hxt).trans (hfire x hmem)
  have hlisted := hinserts.timers.holds.mem_iff.mp (Timers.mem_inserted.mpr (.inr hmem))
  have hnow' : (s.arm t value repeatFlag valueInMs delays).now = s.now + delays.toCount := hnow
  have hnear := near x hlisted
  rw [hsame, hnow'] at hnear
  rw [hsame]
  rcases h.ahead (hinserts.pc_eq ▸ hidle) x hx with hpending | hahead
  · left
    rw [System.advance, hpending, Bool.true_or]
  · exact hahead.advance h.written (h.near_of_mem hmem) hnear

/-- Taking a timer out of the list keeps the timer task awake: the timer that
becomes the first does not fire before the one that was. -/
theorem disarm_awake (h : s.Awake L) (t : T) : ∃ L', (s.disarm t).Awake L' := by
  obtain ⟨timers, hdisarmed, heq⟩ := disarm_eq h.holds t
  have hsub : (L.erase t).Sublist L := List.erase_sublist
  rw [heq]
  refine ⟨L.erase t, hdisarmed.holds, ?_, h.written, fun x hx => ?_, fun hidle x hx => ?_⟩
  · exact Timers.Sorted.congr (h.sorted.sublist hsub) fun x _ => hdisarmed.fireTicks x
  · rw [hdisarmed.fireTicks x]
    exact h.near_of_mem (hsub.subset (hdisarmed.holds.mem_iff.mpr hx))
  · have hmem : x ∈ L := hsub.subset (List.mem_of_mem_head? hx)
    obtain ⟨first, rest, rfl⟩ := List.exists_cons_of_ne_nil (List.ne_nil_of_mem hmem)
    rw [hdisarmed.fireTicks x]
    refine (h.ahead hidle first rfl).imp_right fun ⟨time, halarm, hahead, hbound⟩ =>
      ⟨time, halarm, hahead, ?_⟩
    have hle : diff (s.timers.timer first).fireTicks (s.timers.timer x).fireTicks ≤ 0 := by
      rcases List.mem_cons.mp hmem with rfl | hrest
      · rw [Timers.diff_near (h.near_of_mem hmem) (h.near_of_mem hmem), sub_self]
      · exact List.rel_of_pairwise_cons h.sorted hrest
    rw [Timers.diff_near (h.near_of_mem List.mem_cons_self) (h.near_of_mem hmem)] at hle
    show (time : ℤ) ≤ max (s.now + diff (s.timers.timer x).fireTicks (UInt32.ofNat s.now))
      s.written + 44
    omega

/-- Every step keeps the timer task awake. -/
theorem step_awake {op : Op T} (h : s.Awake L) (inReach : s.InReach op) :
    ∃ L', (s.step op).Awake L' := by
  obtain ⟨setsUp, near, nearFinish⟩ := inReach
  have hleaves := s.leaves_step op
  generalize s.invoked op = invoked, s.step op = s' at hleaves near
  cases hleaves with
  | stay => exact ⟨L, h⟩
  | pass ticks => exact ⟨L, h.advance near⟩
  | setfn t =>
    have ht : t ∉ L := fun hmem => h.holds.mem_iff.mp hmem (setsUp t rfl)
    have hfire : ∀ x ∈ L, ((s.timers.setfn t).timer x).fireTicks =
        (s.timers.timer x).fireTicks := fun x hx => by
      have hxt : x ≠ t := fun hxt => ht (hxt ▸ hx)
      rw [Timers.setfn, Timers.update_timer, if_neg hxt]
    refine ⟨L, h.holds.setfn ht, h.sorted.congr hfire, h.written, near, fun hidle x hx => ?_⟩
    rw [setfn, hfire x (List.mem_of_mem_head? hx)]
    exact h.ahead hidle x hx
  | arm t value repeatFlag valueInMs delays =>
    exact arm_awake h value repeatFlag valueInMs delays near
  | disarm t => exact disarm_awake h t
  | process delays waiting => exact @test_awake _ s.wake _ L h.holds h.sorted h.written delays near
  | callbackReturn t relinking delays running returns =>
    rw [callbackReturn_eq h.holds running] at near ⊢
    by_cases hkept : t ∈ L ∨ (s.timers.timer t).periodTicks = 0
    · rw [finish_of_kept h.holds hkept] at near ⊢
      exact @test_awake _ { s with pc := .idle } _ L h.holds h.sorted h.written delays near
    · obtain ⟨ht, hperiod⟩ := not_or.mp hkept
      have hinserts := finish_of_relinked h.holds ht hperiod relinking
      have hnear := nearFinish t relinking delays rfl returns
      exact test_awake hinserts.timers.holds (hinserts.sorted ht h.sorted hnear)
        (hinserts.written h.written) near

/-- In every state that is reached while only timers that are not armed are set up
again and all timers in the list fire within `2 ^ 30` ticks of the present,
`timer_list` leads through distinct timers, which are exactly the armed ones,
sorted by the wrap-around difference of `fire_ticks`; and outside
`process_pending_timers`, if there is a first timer, a wakeup is pending or the
counter will meet the alarm at most 44 ticks after the later of the moment that
timer fires and the moment the alarm was written. -/
theorem no_lost_wakeup (now : ℕ) (ops : List (Op T))
    (inReach : Along step InReach (start now) ops) :
    let s := run step (start now) ops
    ∃ L, Chain (fun t => (s.timers.timer t).next) s.timers.timerList L ∧ L.Nodup ∧
      (∀ t, t ∈ L ↔ (s.timers.timer t).next ≠ .unlinked) ∧ s.timers.Sorted L ∧
      (s.pc = .idle →
        ∀ t ∈ L.head?, s.pending ∨ s.AlarmAhead (s.timers.timer t).fireTicks) := by
  have hpreserved (s : System T) (op : Op T) (h : ∃ L, s.Awake L) (inReach : s.InReach op) :
      ∃ L, (s.step op).Awake L := h.elim fun _ h => step_awake h inReach
  obtain ⟨L, h⟩ := run_invariant hpreserved ⟨[], awake_start now⟩ inReach
  exact ⟨L, h.holds.chain, h.holds.nodup, fun t => h.holds.mem_iff, h.sorted, h.ahead⟩

/-- One timer that is armed for 500 ticks. -/
theorem no_lost_wakeup_armed :
    let s : System (Fin 1) := run step (start 7) [.arm 0 100 false false {}]
    s.pc = .idle ∧ s.timers.timerList = .node 0 ∧
      ∃ L, Chain (fun t => (s.timers.timer t).next) s.timers.timerList L ∧ L.Nodup ∧
        (∀ t, t ∈ L ↔ (s.timers.timer t).next ≠ .unlinked) ∧ s.timers.Sorted L ∧
        (s.pc = .idle →
          ∀ t ∈ L.head?, s.pending ∨ s.AlarmAhead (s.timers.timer t).fireTicks) := by
  refine ⟨by decide +kernel, by decide +kernel, no_lost_wakeup 7 [.arm 0 100 false false {}] ?_⟩
  exact ⟨⟨nofun, by decide +kernel, nofun⟩, trivial⟩

end System

end EspOpenRtos.EtsTimer
