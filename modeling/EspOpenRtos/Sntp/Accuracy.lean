/-
# Accuracy of the SNTP clock

A read loses the rounding of the base, less than a tick, and of the result, less than
a microsecond. This holds until the RTC counter wraps: then the correction goes the
wrong way, and every read before the counter has passed its reference again applies it
once more.
-/

import EspOpenRtos.Sntp.RtcTime
import Mathlib.Tactic.Linarith
import Mathlib.Tactic.Ring

namespace EspOpenRtos.Sntp

/-- A result in microseconds. -/
def micros (time : ℕ × ℕ) : ℕ := time.1 * 1000000 + time.2

/-- An update: the settings it was made with and the true tick count at that time. -/
structure Update where
  stz : Timezone
  t : ℤ
  us : ℕ
  ticks : ℕ
  cali : ℕ

namespace Update

variable (u : Update)

/-- The registers after the update. -/
def rtc : Rtc := sntpUpdateRtc u.stz u.t u.us u.ticks u.cali

/-- The time of the update in microseconds. -/
def start : ℤ := correctedTime u.stz u.t * 1000000 + u.us

/-- A result is in its range and within a tick and two microseconds of the true time. -/
def Accurate (ticks : ℕ) (time : ℕ × ℕ) : Prop :=
  time.2 < 1000000 ∧
    |(micros time : ℚ) - (u.start + (ticks - u.ticks : ℤ) * u.cali / 4096)| ≤ u.cali / 4096 + 2

/-- Reads at these tick counts are accurate and never decrease. -/
structure ReadsWell (reads : List ℕ) : Prop where
  accurate : List.Forall₂ u.Accurate reads (readTimes u.rtc reads)
  monotone : (readTimes u.rtc reads).Pairwise fun a b => micros a ≤ micros b

/-- The counter has not wrapped since the update. -/
def Unwrapped (ticks : ℕ) : Prop := u.ticks % 2 ^ 32 + (ticks - u.ticks) < 2 ^ 32

/-- The time in units of 1/4096 microsecond, less what the base was rounded by. -/
def scaledAt (ticks : ℕ) : ℤ :=
  4096 * u.start - (u64 (4096 * u.start) % u.cali : ℕ) + (ticks - u.ticks : ℤ) * u.cali

/-- The time fits the 64-bit product. -/
def Fits (ticks : ℕ) : Prop := 0 ≤ u.scaledAt ticks ∧ u.scaledAt ticks < 2 ^ 64

end Update

section Registers

variable {u : Update} {ticks : ℕ}

theorem u64_cast (n : ℤ) : (u64 n : ℤ) = n % 2 ^ 64 :=
  Int.toNat_of_nonneg (Int.emod_nonneg _ (by decide))

theorem u64_modEq (n : ℤ) : (u64 n : ℤ) ≡ n [ZMOD 2 ^ 64] := by
  rw [u64_cast]
  exact Int.mod_modEq _ _

theorem u64_congr {m n : ℤ} (h : m ≡ n [ZMOD 2 ^ 64]) : u64 m = u64 n := congrArg Int.toNat h

/-- The base in ticks, up to its rounding. -/
theorem sntpBase_mul_cali (u : Update) : (u.rtc.sntpBase : ℤ) * u.cali ≡
    4096 * u.start - (u64 (4096 * u.start) % u.cali : ℕ) [ZMOD 2 ^ 64] := by
  have hbase : u.rtc.sntpBase = u64 (4096 * u.start) / u.cali := by
    refine congrArg (· / u.cali) (u64_congr ?_)
    have hstart : (u.us : ℤ) + u64 (correctedTime u.stz u.t) * 1000000 ≡ u.start [ZMOD 2 ^ 64] := by
      rw [Update.start, add_comm]
      exact ((u64_modEq _).mul_right _).add_right _
    calc (u64 (u.us + u64 (correctedTime u.stz u.t) * 1000000) : ℤ) * 2 ^ 12
        ≡ (u.us + u64 (correctedTime u.stz u.t) * 1000000) * 2 ^ 12 [ZMOD 2 ^ 64] :=
          (u64_modEq _).mul_right _
      _ ≡ u.start * 2 ^ 12 [ZMOD 2 ^ 64] := hstart.mul_right _
      _ = 4096 * u.start := by ring
  have hdiv := Nat.div_add_mod (u64 (4096 * u.start)) u.cali
  rw [hbase]
  have hcast : ((u64 (4096 * u.start) / u.cali : ℕ) : ℤ) * u.cali =
      u64 (4096 * u.start) - (u64 (4096 * u.start) % u.cali : ℕ) := by
    have := congrArg (Nat.cast (R := ℤ)) hdiv
    push_cast at this ⊢
    linarith
  rw [hcast]
  exact (u64_modEq _).sub_right _

/-- The number of wraps of the counter since the update, and the correction that a first
read applies. -/
def wraps (u : Update) (ticks : ℕ) : ℕ := (u.ticks % 2 ^ 32 + (ticks - u.ticks)) / 2 ^ 32

def corrections (u : Update) (ticks : ℕ) : ℕ := if timerCount ticks < timerCount u.ticks then 1 else 0

/-- The registers show the ticks since the update up to whole periods. -/
theorem timerCount_sub (hlater : u.ticks ≤ ticks) :
    (timerCount ticks : ℤ) - timerCount u.ticks = ticks - u.ticks - wraps u ticks * 2 ^ 32 := by
  unfold timerCount wraps
  omega

/-- The base after the wrap check. -/
theorem sntpBase_check (u : Update) (ticks : ℕ) :
    ((sntpCheckTimerWrap u.rtc (timerCount ticks)).sntpBase : ℤ) ≡
      u.rtc.sntpBase - corrections u ticks * 2 ^ 32 [ZMOD 2 ^ 64] := by
  unfold sntpCheckTimerWrap corrections
  change _ ≡ _ - ((if timerCount ticks < u.rtc.timRef then 1 else 0 : ℕ) : ℤ) * 2 ^ 32 [ZMOD 2 ^ 64]
  split
  · rw [Nat.cast_one, one_mul]
    exact u64_modEq _
  · rw [Nat.cast_zero, zero_mul, sub_zero]

theorem check_setting (s : Rtc) (tim : ℕ) :
    (sntpCheckTimerWrap s tim).timRef = s.timRef ∧ (sntpCheckTimerWrap s tim).cal = s.cal := by
  unfold sntpCheckTimerWrap
  split <;> exact ⟨rfl, rfl⟩

/-- The product that a first read computes. -/
theorem scaledTime_first (hlater : u.ticks ≤ ticks) :
    scaledTime (sntpCheckTimerWrap u.rtc (timerCount ticks)) (timerCount ticks) =
      u64 (u.scaledAt ticks - (wraps u ticks + corrections u ticks : ℕ) * u.cali * 2 ^ 32) := by
  obtain ⟨href, hcal⟩ := check_setting u.rtc (timerCount ticks)
  have hcount := timerCount_sub hlater
  rw [scaledTime, href, hcal]
  refine u64_congr ?_
  set base := (sntpCheckTimerWrap u.rtc (timerCount ticks)).sntpBase
  calc (u64 (base + timerCount ticks - u.rtc.timRef) : ℤ) * u.rtc.cal
      ≡ (base + timerCount ticks - timerCount u.ticks) * u.cali [ZMOD 2 ^ 64] :=
        (u64_modEq _).mul_right _
    _ ≡ (u.rtc.sntpBase - corrections u ticks * 2 ^ 32 + timerCount ticks - timerCount u.ticks) *
          u.cali [ZMOD 2 ^ 64] :=
        (((sntpBase_check u ticks).add_right _).sub_right _).mul_right _
    _ = u.rtc.sntpBase * u.cali + ((ticks - u.ticks : ℤ) * u.cali -
          (wraps u ticks + corrections u ticks : ℕ) * u.cali * 2 ^ 32) := by
        rw [add_sub_assoc, hcount]
        push_cast
        ring
    _ ≡ u.scaledAt ticks - (wraps u ticks + corrections u ticks : ℕ) * u.cali * 2 ^ 32
          [ZMOD 2 ^ 64] := by
        rw [Update.scaledAt, add_sub_assoc]
        exact (sntpBase_mul_cali u).add_right _

end Registers

/-! ## Single reads -/

section Reads

variable {u : Update} {ticks : ℕ}

theorem micros_sntpGetRtcTime (s : Rtc) (ticks : ℕ) :
    (sntpGetRtcTime s ticks).2.2 < 1000000 ∧ micros (sntpGetRtcTime s ticks).2 =
      scaledTime (sntpCheckTimerWrap s (timerCount ticks)) (timerCount ticks) / 4096 := by
  simp only [sntpGetRtcTime, micros]
  omega

/-- Accuracy in units of 1/4096 microsecond. -/
theorem accurate_iff {time : ℕ × ℕ} : u.Accurate ticks time ↔ time.2 < 1000000 ∧
    |4096 * (micros time : ℤ) - (4096 * u.start + (ticks - u.ticks : ℤ) * u.cali)| ≤
      u.cali + 8192 := by
  refine and_congr_right fun _ => ?_
  rw [abs_le, abs_le, ← Int.cast_le (R := ℚ), ← Int.cast_le (R := ℚ)]
  push_cast
  constructor <;> rintro ⟨hlower, hupper⟩ <;> constructor <;> linarith

/-- The first read is accurate if there is nothing to correct and the product fits. -/
theorem first_accurate (hcali : 0 < u.cali) (hlater : u.ticks ≤ ticks)
    (hnone : wraps u ticks + corrections u ticks = 0) (hfits : u.Fits ticks) :
    u.Accurate ticks (sntpGetRtcTime u.rtc ticks).2 ∧
      (micros (sntpGetRtcTime u.rtc ticks).2 : ℤ) = u.scaledAt ticks / 4096 := by
  obtain ⟨hus, hmicros⟩ := micros_sntpGetRtcTime u.rtc ticks
  have hscaled := scaledTime_first hlater
  rw [hnone, Nat.cast_zero, zero_mul, zero_mul, sub_zero] at hscaled
  have hval : (u64 (u.scaledAt ticks) : ℤ) = u.scaledAt ticks := by
    rw [u64_cast, Int.emod_eq_of_lt hfits.1 hfits.2]
  have hresult : (micros (sntpGetRtcTime u.rtc ticks).2 : ℤ) = u.scaledAt ticks / 4096 := by
    rw [hmicros, hscaled, Int.natCast_div, hval]
    rfl
  have hrest : u64 (4096 * u.start) % u.cali < u.cali := Nat.mod_lt _ hcali
  refine ⟨accurate_iff.mpr ⟨hus, ?_⟩, hresult⟩
  rw [hresult, abs_le]
  have hunit : u.scaledAt ticks = 4096 * u.start + (ticks - u.ticks : ℤ) * u.cali -
      (u64 (4096 * u.start) % u.cali : ℕ) := by
    rw [Update.scaledAt]
    ring
  omega

/-- With few corrections and a tick below a quarter of a second it is accurate only
then. -/
theorem first_accurate_only (hcali : u.cali < 2 ^ 30) (hlater : u.ticks ≤ ticks)
    (hfew : wraps u ticks + corrections u ticks ≤ 2)
    (haccurate : u.Accurate ticks (sntpGetRtcTime u.rtc ticks).2) (hpos : 0 < u.cali) :
    wraps u ticks + corrections u ticks = 0 ∧ u.Fits ticks := by
  obtain ⟨-, hmicros⟩ := micros_sntpGetRtcTime u.rtc ticks
  have hbound := (accurate_iff.mp haccurate).2
  have hscaled := scaledTime_first hlater
  rw [hmicros, hscaled, abs_le] at hbound
  set error : ℕ := (wraps u ticks + corrections u ticks) * u.cali with herror
  have hsmall : error < 2 ^ 32 := by
    calc error ≤ 2 * u.cali := Nat.mul_le_mul_right _ hfew
      _ < 2 ^ 32 := by omega
  have hsame : u.scaledAt ticks - (wraps u ticks + corrections u ticks : ℕ) * u.cali * 2 ^ 32 =
      u.scaledAt ticks - error * 2 ^ 32 := by
    rw [herror]
    push_cast
    ring
  rw [hsame] at hbound
  -- the product differs from the true one by a multiple of `2 ^ 32`
  obtain ⟨k, hk⟩ := (u64_modEq (u.scaledAt ticks - error * 2 ^ 32)).dvd
  have hlt : u64 (u.scaledAt ticks - error * 2 ^ 32) < 2 ^ 64 := by
    have := Int.emod_lt_of_pos (u.scaledAt ticks - error * 2 ^ 32) (show (0 : ℤ) < 2 ^ 64 by decide)
    rw [← u64_cast] at this
    omega
  have hrest : u64 (4096 * u.start) % u.cali < u.cali := Nat.mod_lt _ hpos
  have hunit : u.scaledAt ticks = 4096 * u.start + (ticks - u.ticks : ℤ) * u.cali -
      (u64 (4096 * u.start) % u.cali : ℕ) := by
    rw [Update.scaledAt]
    ring
  have hzero : error = 0 := by omega
  refine ⟨(Nat.mul_eq_zero.mp hzero).resolve_right hpos.ne', ?_⟩
  constructor <;> omega

/-- Before the counter wraps there is nothing to correct, and a read leaves the
registers alone. -/
theorem unwrapped_iff (hlater : u.ticks ≤ ticks) :
    u.Unwrapped ticks ↔ wraps u ticks + corrections u ticks = 0 := by
  unfold Update.Unwrapped wraps corrections timerCount
  split <;> omega

theorem rtc_after_read (hlater : u.ticks ≤ ticks) (hunwrapped : u.Unwrapped ticks) :
    (sntpGetRtcTime u.rtc ticks).1 = u.rtc := by
  have hnone := (unwrapped_iff hlater).mp hunwrapped
  refine if_neg fun hlow => ?_
  have hone : corrections u ticks = 1 := if_pos hlow
  omega

/-- The next read comes before the counter has wrapped twice. -/
theorem few_corrections {last : ℕ} (hlast : u.Unwrapped last) (hlater : u.ticks ≤ last)
    (hnear : ticks < last + 2 ^ 32) : wraps u ticks + corrections u ticks ≤ 2 := by
  unfold Update.Unwrapped at hlast
  unfold wraps corrections
  split <;> omega

end Reads

/-! ## Reads in a row -/

section Sequences

variable {u : Update}

/-- Each read comes after the last one, by less than a period. -/
def Spaced (a b : ℕ) : Prop := a ≤ b ∧ b < a + 2 ^ 32

theorem readTimes_cons (s : Rtc) (ticks : ℕ) (rest : List ℕ) : readTimes s (ticks :: rest) =
    (sntpGetRtcTime s ticks).2 :: readTimes (sntpGetRtcTime s ticks).1 rest := rfl

/-- Reads before the counter wraps return the time at each of them. -/
theorem readTimes_unwrapped (hcali : 0 < u.cali) {reads : List ℕ}
    (hlater : ∀ r ∈ reads, u.ticks ≤ r) (hwell : ∀ r ∈ reads, u.Unwrapped r ∧ u.Fits r) :
    List.Forall₂ u.Accurate reads (readTimes u.rtc reads) ∧
      (readTimes u.rtc reads).map (fun time => (micros time : ℤ)) =
        reads.map fun r => u.scaledAt r / 4096 := by
  induction reads with
  | nil => exact ⟨.nil, rfl⟩
  | cons r rest ih =>
    obtain ⟨hr, hlater⟩ := List.forall_mem_cons.mp hlater
    obtain ⟨⟨hunwrapped, hfits⟩, hwell⟩ := List.forall_mem_cons.mp hwell
    obtain ⟨hfirst, hmicros⟩ :=
      first_accurate hcali hr ((unwrapped_iff hr).mp hunwrapped) hfits
    obtain ⟨hrest, hmap⟩ := ih hlater hwell
    rw [readTimes_cons, rtc_after_read hr hunwrapped, List.map_cons, List.map_cons, hmicros, hmap]
    exact ⟨.cons hfirst hrest, rfl⟩

/-- Accurate reads are made before the counter wraps. -/
theorem unwrapped_of_accurate (hcali : 0 < u.cali) (hslow : u.cali < 2 ^ 30) {last : ℕ}
    (hlater : u.ticks ≤ last) (hlast : u.Unwrapped last) {reads : List ℕ}
    (hspaced : (last :: reads).IsChain Spaced)
    (haccurate : List.Forall₂ u.Accurate reads (readTimes u.rtc reads)) :
    ∀ r ∈ reads, u.Unwrapped r ∧ u.Fits r := by
  induction reads generalizing last with
  | nil => exact fun _ hr => nomatch hr
  | cons r rest ih =>
    obtain ⟨⟨hle, hnear⟩, hspaced⟩ := List.isChain_cons_cons.mp hspaced
    have hr := hlater.trans hle
    rw [readTimes_cons] at haccurate
    cases haccurate with
    | cons hfirst hrest =>
      obtain ⟨hnone, hfits⟩ :=
        first_accurate_only hslow hr (few_corrections hlast hlater hnear) hfirst hcali
      have hunwrapped := (unwrapped_iff hr).mpr hnone
      rw [rtc_after_read hr hunwrapped] at hrest
      exact List.forall_mem_cons.mpr ⟨⟨hunwrapped, hfits⟩, ih hr hunwrapped hspaced hrest⟩

theorem scaledAt_mono {a b : ℕ} (h : a ≤ b) : u.scaledAt a ≤ u.scaledAt b := by
  have hmul : ((a - u.ticks : ℤ)) * u.cali ≤ (b - u.ticks) * u.cali :=
    mul_le_mul_of_nonneg_right (by omega) (Int.natCast_nonneg _)
  unfold Update.scaledAt
  omega

/-- Results that follow an increasing time increase. -/
theorem pairwise_micros {reads : List ℕ} {times : List (ℕ × ℕ)} (hsorted : reads.Pairwise (· ≤ ·))
    (htimes : times.map (fun time => (micros time : ℤ)) = reads.map fun r => u.scaledAt r / 4096) :
    times.Pairwise fun a b => micros a ≤ micros b := by
  have hscaled : (reads.map fun r => u.scaledAt r / 4096).Pairwise (· ≤ ·) :=
    List.pairwise_map.mpr (hsorted.imp fun hab =>
      Int.ediv_le_ediv (by decide) (scaledAt_mono hab))
  rw [← htimes, List.pairwise_map] at hscaled
  exact hscaled.imp fun hab => Int.ofNat_le.mp hab

end Sequences

/-- Reads in a row after an update, less than one period of the counter apart, are
accurate and monotone if they are all made before the counter wraps and the time fits
64 bits. With a tick below a quarter of a second they are so only then. -/
theorem reads_well_iff (u : Update) {reads : List ℕ} (hcali : 0 < u.cali)
    (hspaced : (u.ticks :: reads).IsChain Spaced) :
    ((∀ r ∈ reads, u.Unwrapped r ∧ u.Fits r) → u.ReadsWell reads) ∧
      (u.cali < 2 ^ 30 → u.ReadsWell reads → ∀ r ∈ reads, u.Unwrapped r ∧ u.Fits r) := by
  have hsorted := List.pairwise_cons.mp (List.isChain_iff_pairwise.mp
    (hspaced.imp fun _ _ hab => hab.1 : (u.ticks :: reads).IsChain (· ≤ ·)))
  constructor
  · intro hwell
    obtain ⟨haccurate, htimes⟩ := readTimes_unwrapped hcali hsorted.1 hwell
    exact ⟨haccurate, pairwise_micros hsorted.2 htimes⟩
  · intro hslow hreads
    have hstart : u.Unwrapped u.ticks := by
      unfold Update.Unwrapped
      omega
    exact unwrapped_of_accurate hcali hslow le_rfl hstart hspaced hreads.accurate

/-- An update one tick before the counter wraps, at a tick each microsecond. -/
def lateUpdate : Update where
  stz := ⟨0, 0⟩
  t := 1000000
  us := 0
  ticks := 2 ^ 32 - 1
  cali := 4096

/-- An update when the counter has just wrapped. -/
def earlyUpdate : Update := { lateUpdate with ticks := 2 ^ 32 }

theorem reads_well_early : earlyUpdate.ReadsWell [2 ^ 32 + 5, 2 ^ 32 + 9] := by
  refine (reads_well_iff earlyUpdate (by decide) ?_).1 ?_
  · simp [earlyUpdate, lateUpdate, Spaced]
  · unfold Update.Unwrapped Update.Fits
    decide

/-- One tick later the clock has gone back by more than two hours. -/
theorem clock_back_after_wrap :
    readTimes lateUpdate.rtc [2 ^ 32 - 1, 2 ^ 32] = [(1000000, 0), (991410, 65409)] ∧
      ¬lateUpdate.ReadsWell [2 ^ 32 - 1, 2 ^ 32] := by
  have htimes : readTimes lateUpdate.rtc [2 ^ 32 - 1, 2 ^ 32] =
      [(1000000, 0), (991410, 65409)] := by decide
  refine ⟨htimes, fun hreads => ?_⟩
  have hmono := hreads.monotone
  rw [htimes] at hmono
  exact absurd hmono (by decide)

end EspOpenRtos.Sntp
