/-
# The list of pending timers

The timers of `ets_timer.c` and what its functions do to `timer_list` and to the
fields of the timers, with the pointers as they are in memory. Every loop of the
source follows `next` fields; a function that would not return, because its loop
does not end, a wild pointer is followed or a halt loop is entered, gives no
result.

`Holds` says which list the pointers form. Each function keeps that there is one,
and its lemma says which list and which fields it leaves.
-/

import Mathlib.Data.Fintype.Card
import Mathlib.Data.List.TakeWhile
import EspOpenRtos.Math.LinkedList

namespace EspOpenRtos.EtsTimer

open Math.LinkedList

/-- `ets_timer_t` without the callback and its argument. A new value is what
`sdk_ets_timer_setfn` leaves. -/
structure Timer (T : Type) where
  next : Link T := .unlinked
  fireTicks : UInt32 := 0
  periodTicks : UInt32 := 0

/-- `timer_list` and the memory of all timers. -/
structure Timers (T : Type) where
  timerList : Link T
  timer : T → Timer T

namespace Timers

variable {T : Type} [DecidableEq T]

/-- Rewrite the fields of one timer. -/
def update (s : Timers T) (t : T) (f : Timer T → Timer T) : Timers T :=
  { s with timer := Function.update s.timer t (f (s.timer t)) }

@[simp]
theorem update_timerList (s : Timers T) (t : T) (f : Timer T → Timer T) :
    (s.update t f).timerList = s.timerList := rfl

theorem update_timer (s : Timers T) (t x : T) (f : Timer T → Timer T) :
    (s.update t f).timer x = if x = t then f (s.timer t) else s.timer x := by
  simp [update, Function.update_apply]

/-- `sdk_ets_timer_setfn`. -/
def setfn (s : Timers T) (t : T) : Timers T := s.update t fun _ => {}

/-- The test of the loop in `add_pending_timer`: the timer in the list should not
fire before `ticks`. -/
def firesLater (s : Timers T) (ticks : UInt32) (t : T) : Bool :=
  ticks.toInt32 - (s.timer t).fireTicks.toInt32 < 1

/-- The pops and tests of `process_pending_timers` between two callbacks: the
list is empty, its head is due and is taken out, or the alarm is set to when the
head fires. -/
inductive Test (T : Type) where
  | empty
  | due (t : T) (s : Timers T)
  | later (ticks : UInt32)

/-- One test of the loop in `process_pending_timers`, with the value of `COUNT`
that was read before it. -/
def processHead (s : Timers T) (count : UInt32) : Option (Test T) :=
  match s.timerList with
  | .unlinked => none
  | .listEnd => some .empty
  | .node t =>
    if (s.timer t).fireTicks.toInt32 - count.toInt32 < 1 then
      some (.due t ({ s with timerList := (s.timer t).next }.update t
        fun timer => { timer with next := .unlinked }))
    else some (.later (s.timer t).fireTicks)

variable [Fintype T]

/-- A walk over `timer_list`. A list without a cycle has at most as many nodes as
there are timers, so a walk that takes more steps does not end. -/
def walkList (s : Timers T) (stop : T → Bool) : Option (Option T × Link T) :=
  walk (fun t => (s.timer t).next) stop (Fintype.card T + 1) none s.timerList

/-- `add_pending_timer`, with the value it passes to `set_alarm`, if it calls it.
No result stands for the halt loop at its end as well. -/
def addPendingTimer (s : Timers T) (ticks : UInt32) (t : T) :
    Option (Timers T × Option UInt32) :=
  match s.walkList (s.firesLater ticks) with
  | none => none
  | some (prev, curr) =>
    let s := s.update t fun timer => { timer with next := curr, fireTicks := ticks }
    let (s, alarm) := match prev with
      | some p => (s.update p fun timer => { timer with next := .node t }, none)
      | none => ({ s with timerList := .node t }, some ticks)
    if (s.timer t).next = .node t then none else some (s, alarm)

/-- `sdk_ets_timer_disarm`. -/
def disarm (s : Timers T) (t : T) : Option (Timers T) :=
  match s.walkList (fun x => decide (x = t)) with
  | none => none
  | some (prev, curr) =>
    let s := match curr with
      | .node c => match prev with
        | some p => s.update p fun timer => { timer with next := (s.timer c).next }
        | none => { s with timerList := (s.timer c).next }
      | _ => s
    some (s.update t fun timer => { timer with next := .unlinked, periodTicks := 0 })

/-- What `process_pending_timers` does with a timer whose callback returned. -/
def relink (s : Timers T) (t : T) : Option (Timers T × Option UInt32) :=
  if (s.timer t).next = .unlinked ∧ (s.timer t).periodTicks ≠ 0 then
    s.addPendingTimer ((s.timer t).fireTicks + (s.timer t).periodTicks) t
  else some (s, none)

/-- The `ticks` of `sdk_ets_timer_arm_ms_us`. -/
def armTicks (value : UInt32) (valueInMs : Bool) : UInt32 :=
  if valueInMs then value * 5000 else value * 5

/-- The write of `period_ticks` in `sdk_ets_timer_arm_ms_us`. -/
def writePeriod (s : Timers T) (t : T) (ticks : UInt32) (repeatFlag : Bool) : Timers T :=
  if repeatFlag then s.update t fun timer => { timer with periodTicks := ticks } else s

/-! ## The list the pointers form -/

/-- `timer_list` leads through the list, whose nodes are distinct, and the other
timers are not armed. -/
structure Holds (s : Timers T) (L : List T) : Prop where
  nodup : L.Nodup
  head : s.timerList = linkTo L
  next : ∀ t, (s.timer t).next = nextIn L t

variable {s : Timers T} {L : List T} {t : T}

omit [Fintype T] in
theorem Holds.mem_iff (h : s.Holds L) : t ∈ L ↔ (s.timer t).next ≠ .unlinked := by
  rw [h.next, ne_eq, nextIn_eq_unlinked, not_not]

omit [Fintype T] in
theorem Holds.chain (h : s.Holds L) : Chain (fun t => (s.timer t).next) s.timerList L :=
  h.head ▸ chain_of_nextIn h.nodup fun t _ => h.next t

omit [Fintype T] in
/-- Only the links decide which list is held. -/
theorem Holds.of_links {s' : Timers T} (h : s.Holds L) (hlist : s'.timerList = s.timerList)
    (hnext : ∀ x, (s'.timer x).next = (s.timer x).next) : s'.Holds L :=
  ⟨h.nodup, hlist.trans h.head, fun x => (hnext x).trans (h.next x)⟩

/-- A walk over a list that is held ends where its test first holds. -/
theorem Holds.walkList_eq (h : s.Holds L) (stop : T → Bool) :
    s.walkList stop =
      some ((L.takeWhile (!stop ·)).getLast?, linkTo (L.dropWhile (!stop ·))) := by
  have hcard : L.length < Fintype.card T + 1 := Nat.lt_succ_of_le h.nodup.length_le_card
  have hwalk := walk_eq stop h.nodup h.next (List.nil_append L).symm hcard
  rwa [List.getLast?_nil, List.nil_append, ← h.head] at hwalk

/-! ## What each function leaves -/

/-- Where a timer that fires at `ticks` goes in the list. -/
def inserted (s : Timers T) (ticks : UInt32) (t : T) (L : List T) : List T :=
  L.takeWhile (!s.firesLater ticks ·) ++ t :: L.dropWhile (!s.firesLater ticks ·)

omit [DecidableEq T] [Fintype T] in
theorem mem_inserted {ticks : UInt32} {x : T} :
    x ∈ s.inserted ticks t L ↔ x = t ∨ x ∈ L := by
  rw [inserted, List.mem_append, List.mem_cons, or_left_comm, ← List.mem_append,
    List.takeWhile_append_dropWhile]

/-- What `add_pending_timer` leaves: the timer is in its place and fires at
`ticks`, and nothing else changed. -/
structure Added (s : Timers T) (ticks : UInt32) (t : T) (L : List T) (s' : Timers T) :
    Prop where
  holds : s'.Holds (s.inserted ticks t L)
  fireTicks_self : (s'.timer t).fireTicks = ticks
  fireTicks_of_ne : ∀ x, x ≠ t → (s'.timer x).fireTicks = (s.timer x).fireTicks
  periodTicks : ∀ x, (s'.timer x).periodTicks = (s.timer x).periodTicks

variable (h : s.Holds L)
include h

/-- A timer that is not in the list is put in its place, and the alarm is set when
that is the first one. -/
theorem Holds.addPendingTimer_eq (ht : t ∉ L) (ticks : UInt32) :
    ∃ s', s.Added ticks t L s' ∧ s.addPendingTimer ticks t =
      some (s', if L.takeWhile (!s.firesLater ticks ·) = [] then some ticks else none) := by
  set A := L.takeWhile (!s.firesLater ticks ·) with hA
  set B := L.dropWhile (!s.firesLater ticks ·) with hB
  have hL : L = A ++ B := (List.takeWhile_append_dropWhile).symm
  have htA : t ∉ A := fun hmem => ht (hL ▸ List.mem_append_left B hmem)
  have htB : t ∉ B := fun hmem => ht (hL ▸ List.mem_append_right A hmem)
  have nodupA : A.Nodup := (List.nodup_append.mp (hL ▸ h.nodup)).1
  have nodup : (A ++ t :: B).Nodup :=
    List.nodup_middle.mpr (List.nodup_cons.mpr ⟨hL ▸ ht, hL ▸ h.nodup⟩)
  have hself : linkTo B ≠ .node t := fun hlink => by
    cases hB' : B with
    | nil => simp [hB', linkTo] at hlink
    | cons b rest =>
      rw [hB', linkTo, Link.node.injEq] at hlink
      exact htB (by rw [hB', hlink]; exact List.mem_cons_self)
  have hnext : ∀ x, nextIn (A ++ t :: B) x =
      if x = t then linkTo B else if A.getLast? = some x then .node t
        else (s.timer x).next := by
    intro x
    rw [nextIn_insert nodupA, h.next, hL]
    simp [htA]
  rw [addPendingTimer, h.walkList_eq]
  cases hlast : A.getLast? with
  | none =>
    have hnil : A = [] := List.getLast?_eq_none_iff.mp hlast
    let s₁ := s.update t fun timer => { timer with next := linkTo B, fireTicks := ticks }
    refine ⟨{ s₁ with timerList := .node t }, ⟨⟨nodup, ?_, ?_⟩, ?_, ?_, ?_⟩, ?_⟩
    · simp [inserted, ← hA, hnil, linkTo]
    · intro x
      rw [inserted, ← hA, ← hB, hnext]
      by_cases hxt : x = t <;> simp [s₁, update_timer, hxt, hlast]
    · simp [s₁, update_timer]
    · intro x hxt
      simp [s₁, update_timer, hxt]
    · intro x
      by_cases hxt : x = t <;> simp [s₁, update_timer, hxt]
    · simp [← hB, hnil, s₁, update_timer, hself]
  | some p =>
    have hpA : p ∈ A := List.mem_of_getLast? hlast
    have hpt : p ≠ t := fun hpt => htA (hpt ▸ hpA)
    have hne : A ≠ [] := List.ne_nil_of_mem hpA
    let s₁ := s.update t fun timer => { timer with next := linkTo B, fireTicks := ticks }
    refine ⟨s₁.update p fun timer => { timer with next := .node t },
      ⟨⟨nodup, ?_, ?_⟩, ?_, ?_, ?_⟩, ?_⟩
    · obtain ⟨a, rest, hcons⟩ := List.exists_cons_of_ne_nil hne
      have hhead : linkTo L = .node a := by rw [hL, hcons, List.cons_append, linkTo]
      rw [inserted, ← hA, hcons, List.cons_append, linkTo, update_timerList]
      exact h.head.trans hhead
    · intro x
      rw [inserted, ← hA, ← hB, hnext]
      by_cases hxt : x = t
      · simp [s₁, update_timer, hxt, Ne.symm hpt]
      · by_cases hxp : x = p
        · simp [s₁, update_timer, hlast, hxp, hpt]
        · simp [s₁, update_timer, hlast, hxt, hxp, Ne.symm hxp]
    · simp [s₁, update_timer, Ne.symm hpt]
    · intro x hxt
      by_cases hxp : x = p <;> simp [s₁, update_timer, hxt, hxp, hpt]
    · intro x
      by_cases hxp : x = p
      · simp [s₁, update_timer, hxp, hpt]
      · by_cases hxt : x = t <;> simp [s₁, update_timer, hxt, hxp, Ne.symm hpt]
    · simp [← hB, hne, s₁, update_timer, Ne.symm hpt, hself]

/-- What `sdk_ets_timer_disarm` leaves. -/
structure Disarmed (s : Timers T) (t : T) (L : List T) (s' : Timers T) : Prop where
  holds : s'.Holds (L.erase t)
  fireTicks : ∀ x, (s'.timer x).fireTicks = (s.timer x).fireTicks
  periodTicks : ∀ x,
    (s'.timer x).periodTicks = if x = t then 0 else (s.timer x).periodTicks

omit [Fintype T] in
/-- Once the list goes past the timer, marking it is all that is left to do. -/
theorem Holds.disarmed {s₁ : Timers T} (hlist : s₁.timerList = linkTo (L.erase t))
    (hnext : ∀ x, x ≠ t → (s₁.timer x).next = nextIn (L.erase t) x)
    (hfire : ∀ x, (s₁.timer x).fireTicks = (s.timer x).fireTicks)
    (hperiod : ∀ x, (s₁.timer x).periodTicks = (s.timer x).periodTicks) :
    s.Disarmed t L (s₁.update t
      fun timer => { timer with next := .unlinked, periodTicks := 0 }) := by
  refine ⟨⟨h.nodup.erase t, hlist, fun x => ?_⟩, fun x => ?_, fun x => ?_⟩
  · by_cases hxt : x = t
    · rw [hxt, nextIn_eq_unlinked.mpr h.nodup.not_mem_erase]
      simp [update_timer]
    · simp [update_timer, hxt, hnext x hxt]
  · by_cases hxt : x = t <;> simp [update_timer, hxt, hfire]
  · by_cases hxt : x = t <;> simp [update_timer, hxt, hperiod]

/-- Disarming takes the timer out of the list, if it is there, and clears its
period. -/
theorem Holds.disarm_eq (t : T) : ∃ s', s.Disarmed t L s' ∧ s.disarm t = some s' := by
  rw [disarm, h.walkList_eq]
  by_cases ht : t ∈ L
  · obtain ⟨A, B, hL, htA⟩ := List.eq_append_cons_of_mem ht
    have hpass : ∀ a ∈ A, (!decide (a = t)) = true := fun a ha => by
      simpa using fun hat : a = t => htA (hat ▸ ha)
    have htake : L.takeWhile (fun x => !decide (x = t)) = A := by
      rw [hL, List.takeWhile_append_of_pos hpass]
      simp
    have hdrop : L.dropWhile (fun x => !decide (x = t)) = t :: B := by
      rw [hL, List.dropWhile_append_of_pos hpass]
      simp
    have herase : L.erase t = A ++ B := by
      rw [hL, List.erase_append_right _ htA, List.erase_cons_head]
    have hlink : (s.timer t).next = linkTo B := by rw [h.next, hL, nextIn_self htA]
    have hnext : ∀ x, x ≠ t → nextIn (A ++ B) x =
        if A.getLast? = some x then linkTo B else (s.timer x).next := fun x hxt => by
      rw [nextIn_remove (hL ▸ h.nodup), h.next, if_neg hxt, hL]
    rw [htake, hdrop, linkTo]
    cases hlast : A.getLast? with
    | none =>
      have hnil : A = [] := List.getLast?_eq_none_iff.mp hlast
      refine ⟨_, @Holds.disarmed _ _ s L t h { s with timerList := (s.timer t).next } ?_
        (fun x hxt => ?_) (fun _ => rfl) fun _ => rfl, rfl⟩
      · simp [herase, hlink, hnil]
      · rw [herase, hnext x hxt, hlast, if_neg (Option.some_ne_none x).symm]
    | some p =>
      refine ⟨_, h.disarmed ?_ (fun x hxt => ?_) (fun x => ?_) fun x => ?_, rfl⟩
      · obtain ⟨a, rest, hcons⟩ :=
          List.exists_cons_of_ne_nil (List.ne_nil_of_mem (List.mem_of_getLast? hlast))
        rw [update_timerList, h.head, herase, hL, hcons]
        rfl
      · rw [herase, hnext x hxt, hlast]
        by_cases hxp : x = p
        · simp [update_timer, hxp, hlink]
        · simp [update_timer, hxp, Ne.symm hxp]
      · by_cases hxp : x = p <;> simp [update_timer, hxp]
      · by_cases hxp : x = p <;> simp [update_timer, hxp]
  · have hdrop : L.dropWhile (fun x => !decide (x = t)) = [] := by
      rw [List.dropWhile_eq_nil_iff]
      intro a ha
      simpa using fun hat : a = t => ht (hat ▸ ha)
    have herase : L.erase t = L := List.erase_of_not_mem ht
    rw [hdrop, linkTo]
    exact ⟨_, h.disarmed (herase.symm ▸ h.head) (fun x _ => herase.symm ▸ h.next x)
      (fun _ => rfl) fun _ => rfl, rfl⟩

omit [Fintype T] in
/-- A timer that is set up anew was not in the list and is not put there. -/
theorem Holds.setfn (ht : t ∉ L) : (s.setfn t).Holds L := by
  refine h.of_links rfl fun x => ?_
  by_cases hxt : x = t
  · rw [hxt, h.next, nextIn_eq_unlinked.mpr ht]
    simp [Timers.setfn, update_timer]
  · simp [Timers.setfn, update_timer, hxt]

omit [Fintype T] in
/-- The period is no link. -/
theorem Holds.writePeriod (t : T) (ticks : UInt32) (repeatFlag : Bool) :
    (s.writePeriod t ticks repeatFlag).Holds L := by
  cases repeatFlag with
  | false => exact h
  | true =>
    refine h.of_links rfl fun x => ?_
    by_cases hxt : x = t <;> simp [Timers.writePeriod, update_timer, hxt]

omit [Fintype T] in
/-- The test of the loop on a list that is held. -/
theorem Holds.processHead_eq (count : UInt32) : (L = [] ∧ s.processHead count = some .empty) ∨
    (∃ t rest s', L = t :: rest ∧ (s.timer t).fireTicks.toInt32 - count.toInt32 < 1 ∧
      s.processHead count = some (.due t s') ∧ s'.Holds rest ∧
      (∀ x, (s'.timer x).fireTicks = (s.timer x).fireTicks) ∧
      ∀ x, (s'.timer x).periodTicks = (s.timer x).periodTicks) ∨
    ∃ t rest, L = t :: rest ∧ ¬ (s.timer t).fireTicks.toInt32 - count.toInt32 < 1 ∧
      s.processHead count = some (.later (s.timer t).fireTicks) := by
  cases L with
  | nil => exact .inl ⟨rfl, by rw [processHead, h.head, linkTo]⟩
  | cons t rest =>
    right
    by_cases hdue : (s.timer t).fireTicks.toInt32 - count.toInt32 < 1
    · left
      refine ⟨t, rest, _, rfl, hdue, by
        simp only [processHead, h.head, linkTo, if_pos hdue]
        rfl,
        ⟨(List.nodup_cons.mp h.nodup).2, ?_, ?_⟩, ?_, ?_⟩
      · rw [update_timerList, h.next, nextIn, if_pos rfl]
      · intro x
        by_cases hxt : x = t
        · rw [hxt, nextIn_eq_unlinked.mpr (List.nodup_cons.mp h.nodup).1]
          simp [update_timer]
        · have hnext := h.next x
          rw [nextIn, if_neg hxt] at hnext
          simp [update_timer, hxt, hnext]
      · intro x
        by_cases hxt : x = t <;> simp [update_timer, hxt]
      · intro x
        by_cases hxt : x = t <;> simp [update_timer, hxt]
    · right
      exact ⟨t, rest, rfl, hdue, by
        simp only [processHead, h.head, linkTo, if_neg hdue]⟩

end Timers

end EspOpenRtos.EtsTimer
